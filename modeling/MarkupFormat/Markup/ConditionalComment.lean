import MarkupFormat.Text.Blank
import MarkupFormat.Text.Search

/-!
# Conditional comments

Comments that legacy browsers read as markup under a condition. A comment may hold the whole
section, or only its start or its end, with the section following it.
-/

namespace MarkupFormat.Markup

open Text (isWhiteSpace)

/-- What a conditional comment holds. -/
inductive ConditionalComment where
  /-- A section: the characters of the value before the body, and the body. -/
  | block (condition : String) (before body : List Char)
  /-- The start of a section that other browsers see as well. -/
  | start (condition : String)
  /-- The end of such a section. -/
  | finish
  deriving DecidableEq, Repr, Inhabited

namespace ConditionalComment

/-- The words of a condition with single spaces between them. -/
def normalizeCondition (condition : List Char) : String :=
  " ".intercalate (Text.pieces isWhiteSpace (String.ofList condition))

/-- Whether `cs` is the mark that ends a section. -/
def isEndMark (cs : List Char) : Bool :=
  match Text.dropPrefix? "<!".toList cs with
  | some rest => rest.dropWhile isWhiteSpace == "[endif]".toList
  | none => false

/-- The characters before the first suffix that is the mark of an end. -/
def beforeEndMark? (cs : List Char) : Option (List Char) :=
  if isEndMark cs then some []
  else
    match cs with
    | [] => none
    | c :: rest => (beforeEndMark? rest).map (c :: ·)

/-- The condition that opens a value, and what follows its bracket. -/
def condition? (value : List Char) : Option (List Char × List Char) := do
  let rest ← Text.dropPrefix? "[if".toList value
  Text.breakOn [']'] rest

/-- What the value of a comment says, if it is conditional. -/
def classify? (value : List Char) : Option ConditionalComment :=
  if isEndMark value then some .finish
  else do
    let (condition, rest) ← condition? value
    let body ← Text.dropPrefix? ['>'] rest
    match beforeEndMark? body with
    | some inner =>
      some (.block (normalizeCondition condition) ("[if".toList ++ condition ++ "]>".toList) inner)
    | none =>
      if body = "<!".toList then some (.start (normalizeCondition condition)) else none

end ConditionalComment

end MarkupFormat.Markup
