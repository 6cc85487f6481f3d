import MarkupFormat.Text.Blank
import MarkupFormat.Text.Search

/-!
# Pragmas

A comment at the very start of a source can ask for the source to be formatted, or to be left as
it is.
-/

namespace MarkupFormat.Format

open Text (dropPrefix? isWhiteSpace)

/-- What a pragma asks for. -/
inductive Pragma where
  /-- The source is to be formatted. -/
  | format
  /-- The source is to be left as it is. -/
  | ignore
  deriving DecidableEq, Repr, Inhabited

namespace Pragma

/-- The words that stand for a pragma. -/
def words : Pragma → List String
  | format => ["format", "quill"]
  | ignore => ["noformat", "noquill"]

/-- Whether `cs` begins with a comment that holds a word after an at sign, and nothing else. -/
def opensComment (cs word : List Char) : Bool :=
  let found : Option (List Char) := do
    let inner ← dropPrefix? "<!--".toList (cs.dropWhile isWhiteSpace)
    let rest ← dropPrefix? ('@' :: word) (inner.dropWhile isWhiteSpace)
    dropPrefix? "-->".toList (rest.dropWhile isWhiteSpace)
  found.isSome

/-- Whether a source begins with the pragma. -/
def isIn (pragma : Pragma) (source : String) : Bool :=
  pragma.words.any fun word => opensComment source.toList word.toList

/-- A text after the pragma that asks for it to be formatted, and an empty line. -/
def insert (text : String) : String :=
  "<!-- @format -->\n\n" ++ Text.trimStart (fun c => c = '\n' || c = '\r') text

end Pragma

end MarkupFormat.Format
