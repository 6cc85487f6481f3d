import MarkupFormat.Text.Blank
import MarkupFormat.Text.Search

/-!
# Front matter

A block of settings at the very start of a document, between lines of dashes or pluses.
-/

namespace MarkupFormat.Markup

open Text (isWhiteSpace)

/-- A front matter block. -/
structure FrontMatter where
  /-- The language of the content. -/
  language : String
  /-- The lines between the delimiters. -/
  value : String
  /-- The whole block, without the line feed after it. -/
  raw : String
  startDelimiter : String
  endDelimiter : String
  /-- The rest of the opening line, as written. -/
  explicitLanguage : String
  deriving DecidableEq, Repr, Inhabited

namespace FrontMatter

/-- The delimiter that opens a source. -/
def opener? (source : List Char) : Option String :=
  if "---".toList.isPrefixOf source then some "---"
  else if "+++".toList.isPrefixOf source then some "+++"
  else none

/-- Whether a line holds `delimiter` and, after it, at most blanks. -/
def isDelimiterLine (delimiter : String) (line : List Char) : Bool :=
  match Text.dropPrefix? delimiter.toList line with
  | some rest => rest.all isWhiteSpace
  | none => false

/-- The delimiter that a line closes a block with: the one that opened it, or dots. -/
def closer? (opener : String) (line : List Char) : Option String :=
  [opener, "..."].find? fun delimiter => isDelimiterLine delimiter line

/-- The lines before the first closing one, the closing line and its delimiter. -/
def untilCloser (opener : String) :
    List (List Char) → Option (List (List Char) × List Char × String)
  | [] => none
  | line :: lines =>
    match closer? opener line with
    | some closer => some ([], line, closer)
    | none =>
      (untilCloser opener lines).map fun (body, last, closer) => (line :: body, last, closer)

/-- Lines with line feeds between them. -/
def unlines (lines : List (List Char)) : List Char :=
  List.intercalate ['\n'] lines

/-- The language of a block, from its opening delimiter and the rest of that line. -/
def languageOf (opener : String) (explicit : List Char) : String :=
  if opener = "+++" then "toml"
  else
    let name := Text.dropEnds isWhiteSpace explicit
    if name = [] then "yaml" else String.ofList name

/-- The block at the start of `source`. Dots close only a block whose language is the default. -/
def parse? (source : List Char) : Option FrontMatter := do
  let opener ← opener? source
  let (first, rest) ← Text.breakOn ['\n'] source
  let explicit := first.drop 3
  let (body, last, closer) ← untilCloser opener (Text.splitOnChars (· = '\n') rest)
  let language := languageOf opener explicit
  if language ≠ "yaml" ∧ opener ≠ closer then none
  else
    some {
      language := language
      value := String.ofList (unlines body)
      raw := String.ofList (unlines (first :: body ++ [last]))
      startDelimiter := opener
      endDelimiter := closer
      explicitLanguage := String.ofList explicit }

end FrontMatter

end MarkupFormat.Markup
