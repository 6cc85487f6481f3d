import MarkupFormat.Text.Bytes

/-!
# Lines of a source

The offsets at which the lines of a source start, and the way back from an offset to its line by
halving the table. Offsets, lines and columns are numbers of 32 bits.
-/

namespace MarkupFormat.Markup

/-- The greatest offset, and the greatest number of a line or a column. -/
def maxOffset : Nat := UInt32.size - 1

/-- What the place `i`, counted from zero, is counted from one. The sum is one of 32 bits: after the greatest number
comes zero, and places beyond it all count as the greatest. -/
def ordinal (i : Nat) : Nat :=
  ((if i ≤ maxOffset then i else maxOffset - 1) + 1) % UInt32.size

/-- Where each line of a source starts. -/
structure LineIndex where
  starts : Array Nat
  deriving DecidableEq, Repr, Inhabited

namespace LineIndex

/-- The offsets after the line feeds of `cs`, which begins at `offset`. -/
def startsAfter (offset : Nat) : List Char → List Nat
  | [] => []
  | c :: cs =>
    let next := offset + c.utf8Size
    if c = '\n' then next :: startsAfter next cs else startsAfter next cs

/-- The index of a source. A line that starts beyond the greatest offset is put there. -/
def build (source : List Char) : LineIndex :=
  ⟨(0 :: (startsAfter 0 source).map (min · maxOffset)).toArray⟩

/-- How many of the starts between `low` and `high` are at most `offset`, in addition to the `low`
starts before them. The starts increase, so half of the range is decided at each step. -/
def countUpTo (starts : Array Nat) (offset low high : Nat) : Nat :=
  if low < high then
    let middle := (low + high) / 2
    if starts.getD middle 0 ≤ offset then countUpTo starts offset (middle + 1) high
    else countUpTo starts offset low middle
  else low
  termination_by high - low

/-- How many lines start up to an offset. -/
def startsUpTo (index : LineIndex) (offset : Nat) : Nat :=
  countUpTo index.starts offset 0 index.starts.size

/-- The line of an offset, counted from one. -/
def line (index : LineIndex) (offset : Nat) : Nat :=
  ordinal (index.startsUpTo offset - 1)

/-- Where a line, counted from one, starts. -/
def lineStart? (index : LineIndex) (line : Nat) : Option Nat :=
  if line = 0 then none else index.starts[line - 1]?

def lineCount (index : LineIndex) : Nat :=
  index.starts.size

/-- The line and the column of an offset, both counted from one, the column in characters. -/
def lineColumn (index : LineIndex) (source : List Char) (offset : Nat) : Nat × Nat :=
  let line := index.line offset
  let start := (index.lineStart? line).getD 0
  let before := (Text.sliceChars? source start (min offset (Text.byteLength source))).getD []
  (line, ordinal before.length)

end LineIndex

end MarkupFormat.Markup
