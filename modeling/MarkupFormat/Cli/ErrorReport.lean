import MarkupFormat.Format.Formatted

/-!
# Error reports

A report shows a parse error at the line where it lies, with what may mend it.
-/

namespace MarkupFormat.Cli

open Format (FormatError)
open Markup (ParseError Span)

/-- A line of a source around an offset in it. -/
structure SourceLine where
  before : List Char
  after : List Char
  deriving DecidableEq, Repr, Inhabited

namespace SourceLine

/-- The line of an offset, if that does not lie inside a character. -/
def at? (source : List Char) (offset : Nat) : Option SourceLine :=
  (Text.splitBytes offset source).map fun (before, after) =>
    ⟨Text.takeEnd (· ≠ '\n') before, after.takeWhile (· ≠ '\n')⟩

/-- The line as a whole. -/
def text (line : SourceLine) : String :=
  String.ofList (line.before ++ line.after)

/-- How many characters of the line lie in the given number of bytes after the offset. -/
def covered (line : SourceLine) (bytes : Nat) : Nat :=
  match Text.splitBytes (min bytes (Text.byteLength line.after)) line.after with
  | some (taken, _) => taken.length
  | none => 0

end SourceLine

/-- A text of one character repeated. -/
def repeated (c : Char) (count : Nat) : String :=
  String.ofList (List.replicate count c)

/-- The line of a source that an error lies in, with marks below what it covers. -/
def excerpt (error : ParseError) (source : List Char) : String :=
  match SourceLine.at? source error.span.start with
  | none => ""
  | some line =>
    let number := toString error.line
    let margin := "  " ++ repeated ' ' number.length ++ " |"
    let marks := repeated '^' (max 1 (line.covered (error.span.stop - error.span.start)))
    margin ++ "\n" ++ "  " ++ number ++ " | " ++ line.text ++ "\n" ++
      margin ++ " " ++ repeated ' ' (error.column - 1) ++ marks ++ "\n"

/-- A remark below an excerpt. -/
def remark (label : String) (content : Option String) : String :=
  match content with
  | some content => "  = " ++ label ++ ": " ++ content ++ "\n"
  | none => ""

/-- The report of a parse error. The source is the one that was read. -/
def parseReport (path : String) (error : ParseError) (source : List Char) : String :=
  "error[" ++ error.code.text ++ "]: " ++ error.fault.message ++ "\n" ++
    "  --> " ++ path ++ ":" ++ toString error.line ++ ":" ++ toString error.column ++ "\n" ++
    excerpt error source ++ remark "help" error.code.help? ++ remark "note" error.context?

/-- The report of an error in a file, and what may be done about it. -/
def errorReport (path : String) (error : FormatError) (source : String) : String :=
  match error with
  | .parse parseError =>
    parseReport path parseError (Text.normalizeLineEndings source).toList ++
      "\nnote: fix the syntax error to enable formatting\n"
  | .unexpectedNode .. | .document _ =>
    "error: " ++ error.message ++ "\n  --> " ++ path ++ "\n" ++
      "\nnote: this is a formatter bug; please report it with the input file\n"

end MarkupFormat.Cli
