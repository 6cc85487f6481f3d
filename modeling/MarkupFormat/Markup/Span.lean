import MarkupFormat.Text.Bytes

/-!
# Spans

The part of a source that a node was read from, as a half-open range of byte offsets.
-/

namespace MarkupFormat.Markup

/-- The bytes from `start` up to but not including `stop`. -/
structure Span where
  start : Nat
  stop : Nat
  deriving DecidableEq, Repr, Inhabited

/-- Offsets that a span cannot hold. -/
inductive SpanError where
  | startTooLarge (offset : Nat)
  | endTooLarge (offset : Nat)
  deriving DecidableEq, Repr, Inhabited

/-- The hexadecimal digits of an offset, uppercase. -/
def SpanError.hex (offset : Nat) : String :=
  String.ofList ((Nat.toDigits 16 offset).map Char.toUpper)

/-- What is told about the error. -/
def SpanError.message : SpanError → String
  | startTooLarge offset =>
    "span start " ++ toString offset ++ " (0x" ++ hex offset ++ ") exceeds u32::MAX"
  | endTooLarge offset =>
    "span end " ++ toString offset ++ " (0x" ++ hex offset ++ ") exceeds u32::MAX"

namespace Span

/-- The largest offset that a span holds. -/
def maxOffset : Nat := UInt32.size - 1

/-- The span between two offsets, if it can hold them. -/
def ofOffsets? (start stop : Nat) : Except SpanError Span :=
  if maxOffset < start then .error (.startTooLarge start)
  else if maxOffset < stop then .error (.endTooLarge stop)
  else .ok ⟨start, stop⟩

def length (span : Span) : Nat :=
  span.stop - span.start

def isEmpty (span : Span) : Bool :=
  span.start = span.stop

/-- Whether the byte at `offset` lies in the span. -/
def contains (span : Span) (offset : Nat) : Bool :=
  span.start ≤ offset && offset < span.stop

/-- The smallest span that covers both. -/
def merge (span other : Span) : Span :=
  ⟨min span.start other.start, max span.stop other.stop⟩

/-- The text of the span in a source. -/
def slice (span : Span) (source : List Char) : String :=
  Text.slice source span.start span.stop

/-- The two offsets with dots between them. -/
def text (span : Span) : String :=
  toString span.start ++ ".." ++ toString span.stop

end Span

end MarkupFormat.Markup
