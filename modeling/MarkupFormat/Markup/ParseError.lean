import MarkupFormat.Markup.LineIndex
import MarkupFormat.Markup.Span

/-!
# Parse errors

The first error of a source ends its reading. An error is what went wrong and where; its wording,
code and place in lines follow from that.

The code of an error tells its kind. Codes of malformed markup start with a zero and codes of
failures of the program itself with a nine.
-/

namespace MarkupFormat.Markup

/-! ### Codes -/

/-- The kinds of errors that have a code. -/
inductive ErrorCode where
  /-- An end tag without an element to end. -/
  | unmatchedEndTag
  /-- An end tag of a void element. -/
  | voidEndTag
  /-- A comment that is not closed. -/
  | openComment
  /-- A CDATA section that is not closed. -/
  | openCdata
  /-- A character, or the end of the input, inside a tag. -/
  | unexpectedCharacter
  /-- A declaration or an instruction that is not closed. -/
  | openDeclaration
  /-- A limit of the program. -/
  | internal
  deriving DecidableEq, Repr, Inhabited

namespace ErrorCode

/-- Every code in numeric order. -/
def all : List ErrorCode :=
  [unmatchedEndTag, voidEndTag, openComment, openCdata, unexpectedCharacter, openDeclaration,
    internal]

/-- The code as it is written. -/
def text : ErrorCode → String
  | unmatchedEndTag => "E0001"
  | voidEndTag => "E0002"
  | openComment => "E0003"
  | openCdata => "E0004"
  | unexpectedCharacter => "E0005"
  | openDeclaration => "E0006"
  | internal => "E9001"

/-- The code with the given text, in either case. -/
def ofText? (text : String) : Option ErrorCode :=
  all.find? fun code => code.text.toLower == text.toLower

/-- Whether the code tells of the program and not of its input. -/
def isInternal (code : ErrorCode) : Bool :=
  "E9".toList.isPrefixOf code.text.toList

/-- How an error with this code can be mended. -/
def help? : ErrorCode → Option String
  | unmatchedEndTag =>
    some "remove the closing tag, or close the inner elements before it"
  | voidEndTag => some "void elements like <br> and <img> take no closing tag"
  | openComment => some "close the comment with `-->`"
  | openCdata => some "close the CDATA section with `]]>`"
  | unexpectedCharacter => some "check for an unclosed tag or attribute quote"
  | openDeclaration => some "close the declaration with `>`"
  | internal => none

end ErrorCode

/-! ### Errors -/

/-- What was being read. -/
inductive Construct where
  | comment
  | cdata
  | doctype
  | instruction
  | startTag (name : String)
  | endTag (name : String)
  deriving DecidableEq, Repr, Inhabited

/-- How a construct is called. -/
def Construct.text : Construct → String
  | comment => "comment"
  | cdata => "CDATA section"
  | doctype => "doctype"
  | instruction => "processing instruction"
  | startTag name => "start tag <" ++ name ++ ">"
  | endTag name => "end tag </" ++ name ++ ">"

/-- What went wrong. -/
inductive Fault where
  /-- The input ended inside a construct. -/
  | unterminated (inside : Construct)
  /-- A character that cannot stand there. -/
  | unexpected (found : Char) (inside : Construct)
  /-- An end tag without a name where no element is open. -/
  | nothingToClose
  /-- An end tag that no open element answers to. -/
  | unmatchedEnd (name : String)
  /-- An end tag of an element that has none. -/
  | voidEnd (name : String)
  /-- A source longer than a span can tell. -/
  | tooLarge (bytes : Nat)
  deriving DecidableEq, Repr, Inhabited

namespace Fault

def code : Fault → ErrorCode
  | unterminated .comment => .openComment
  | unterminated .cdata => .openCdata
  | unterminated .doctype | unterminated .instruction => .openDeclaration
  | unterminated (.startTag _) | unterminated (.endTag _) | unexpected _ _ => .unexpectedCharacter
  | nothingToClose | unmatchedEnd _ => .unmatchedEndTag
  | voidEnd _ => .voidEndTag
  | tooLarge _ => .internal

def message : Fault → String
  | unterminated _ => "Unexpected character \"EOF\""
  | unexpected found _ => "Unexpected character \"" ++ String.singleton found ++ "\""
  | nothingToClose =>
    "Unexpected closing tag \"<//>\". There is no open element to close."
  | unmatchedEnd name =>
    "Unexpected closing tag \"" ++ name ++
      "\". It may happen when the tag has already been closed by another tag."
  | voidEnd name => "Void elements do not have end tags \"" ++ name ++ "\""
  | tooLarge bytes =>
    "source is " ++ toString bytes ++ " bytes, more than the supported 4 GiB"

/-- What was being read, if the fault lies within a construct. -/
def inside? : Fault → Option Construct
  | unterminated inside | unexpected _ inside => some inside
  | _ => none

end Fault

/-- A fault and the part of the source that shows it. -/
structure Failure where
  fault : Fault
  span : Span
  deriving DecidableEq, Repr, Inhabited

/-- A failure together with its place, counted from one. -/
structure ParseError where
  failure : Failure
  line : Nat
  column : Nat
  deriving DecidableEq, Repr, Inhabited

namespace ParseError

def fault (error : ParseError) : Fault :=
  error.failure.fault

def span (error : ParseError) : Span :=
  error.failure.span

def code (error : ParseError) : ErrorCode :=
  error.fault.code

/-- What was being read, in words. -/
def context? (error : ParseError) : Option String :=
  error.fault.inside?.map Construct.text

/-- The message followed by the place. -/
def text (error : ParseError) : String :=
  error.fault.message ++ " (" ++ toString error.line ++ ":" ++ toString error.column ++ ")"

/-- A failure placed in the source it was found in. -/
def place (source : List Char) (index : LineIndex) (failure : Failure) : ParseError :=
  let (line, column) := index.lineColumn source failure.span.start
  ⟨failure, line, column⟩

end ParseError

end MarkupFormat.Markup
