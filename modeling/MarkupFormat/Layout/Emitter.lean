import MarkupFormat.Text.Blank
import MarkupFormat.Text.LineEnding

/-!
# Emitted text

The text that a renderer has produced so far. It grows at its end, and only blanks at its end can
be taken back, so it is kept with the last character first.
-/

namespace MarkupFormat.Layout

open Text (LineEnding isLineBlank)

/-- Text produced so far, last character first. -/
structure Emitter where
  reversed : List Char := []
  deriving DecidableEq, Repr, Inhabited

namespace Emitter

/-- The produced characters in order. -/
def chars (out : Emitter) : List Char :=
  out.reversed.reverse

/-- The produced text. -/
def text (out : Emitter) : String :=
  String.ofList out.chars

/-- An emitter that already holds `s`. -/
def ofString (s : String) : Emitter :=
  ⟨s.toList.reverse⟩

/-- Appends `s`. -/
def emit (out : Emitter) (s : String) : Emitter :=
  ⟨s.toList.reverseAux out.reversed⟩

/-- Ends the line. -/
def newline (out : Emitter) (ending : LineEnding) : Emitter :=
  out.emit ending.text

/-- How many blanks end the text. -/
def trailingBlanks (out : Emitter) : Nat :=
  (out.reversed.takeWhile isLineBlank).length

/-- Removes the blanks that end the text. -/
def trim (out : Emitter) : Emitter :=
  ⟨out.reversed.dropWhile isLineBlank⟩

/-- The length of the text in bytes. -/
def byteLength (out : Emitter) : Nat :=
  out.reversed.foldr (fun c bytes => c.utf8Size + bytes) 0

@[simp]
theorem chars_emit (out : Emitter) (s : String) : (out.emit s).chars = out.chars ++ s.toList := by
  simp [emit, chars, List.reverseAux_eq]

end Emitter

end MarkupFormat.Layout
