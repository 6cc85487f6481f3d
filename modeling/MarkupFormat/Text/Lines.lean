import MarkupFormat.Text.Blank
import MarkupFormat.Text.Search

/-!
# Lines of a text

A line ends with a line feed, or with a carriage return and a line feed. What follows the last end
of a line is a line as well, unless it is empty.

Text that is kept line by line has indentation. What its lines have in common as indentation belongs
to the place where the text stands, and can be taken away.
-/

namespace MarkupFormat.Text

/-- A line that was ended, without a carriage return at its end. -/
def dropFinalReturn (line : List Char) : List Char :=
  match line.reverse with
  | '\r' :: before => before.reverse
  | _ => line

/-- The lines among the pieces between line feeds. -/
def endedLines : List (List Char) → List (List Char)
  | [] => []
  | [last] => if last = [] then [] else [last]
  | line :: next :: rest => dropFinalReturn line :: endedLines (next :: rest)

/-- The lines of a text. -/
def lines (s : String) : List String :=
  (endedLines (splitOnChars (· = '\n') s.toList)).map String.ofList

/-! ### Indented text -/

/-- The lines of a text. -/
def linesOf (cs : List Char) : List (List Char) :=
  splitOnChars (· = '\n') cs

/-- The text without its first line, if that is blank and ends. -/
def dropBlankFirstLine (cs : List Char) : List Char :=
  match breakOn ['\n'] cs with
  | some (line, rest) => if line.all isMarkupSpace then rest else cs
  | none => cs

/-- The text without a blank first line and without white space at its end. The indentation of
the first line stays. -/
def trimKeepingIndentation (cs : List Char) : List Char :=
  dropEnd isMarkupSpace (dropBlankFirstLine cs)

/-- The white space at the start of a line, in characters. -/
def indentation (line : List Char) : Nat :=
  (line.takeWhile isMarkupSpace).length

/-- The smallest indentation of the lines that are not blank, or zero if all are. -/
def commonIndentation (lines : List (List Char)) : Nat :=
  (((lines.filter fun line => !line.all isMarkupSpace).map indentation).min?).getD 0

/-- The text without what its lines have in common as indentation. -/
def dedent (cs : List Char) : List Char :=
  let lines := linesOf cs
  ['\n'].intercalate (lines.map (List.drop (commonIndentation lines)))

end MarkupFormat.Text
