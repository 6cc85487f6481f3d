import MarkupFormat.Text.Lines

/-!
# Differences by line

What a formatted text changes, line by line. A hunk shows a line that differs and two lines on
either side.
-/

namespace MarkupFormat.Cli

/-- The lines from `start` up to but not including `stop`, counted from zero. -/
structure Hunk where
  start : Nat
  stop : Nat
  deriving DecidableEq, Repr, Inhabited

/-- A row of a hunk. -/
inductive DiffRow where
  | same (line : String)
  | removed (line : String)
  | added (line : String)
  deriving DecidableEq, Repr, Inhabited

/-- The row as it is shown. -/
def DiffRow.text : DiffRow → String
  | same line => " " ++ line ++ "\n"
  | removed line => "-" ++ line ++ "\n"
  | added line => "+" ++ line ++ "\n"

/-- The hunks of two lists of lines from a line on. -/
def hunksFrom (old new : List String) (index : Nat) : List Hunk :=
  let total := max old.length new.length
  if _h : index < total then
    if old[index]? = new[index]? then hunksFrom old new (index + 1)
    else
      let stop := min (index + 3) total
      ⟨index - 2, stop⟩ :: hunksFrom old new stop
  else []
  termination_by max old.length new.length - index

/-- The hunks of two lists of lines. -/
def hunks (old new : List String) : List Hunk :=
  hunksFrom old new 0

/-- The rows for one line of either text. -/
def rowsAt (old new : List String) (index : Nat) : List DiffRow :=
  match old[index]?, new[index]? with
  | some before, some after =>
    if before = after then [.same before] else [.removed before, .added after]
  | some before, none => [.removed before]
  | none, some after => [.added after]
  | none, none => []

namespace Hunk

variable (hunk : Hunk)

/-- The rows of a hunk. -/
def rows (old new : List String) : List DiffRow :=
  (List.range (hunk.stop - hunk.start)).flatMap fun offset => rowsAt old new (hunk.start + offset)

/-- The line before a hunk, which tells where it begins and how long it is. -/
def header : String :=
  let place := toString (hunk.start + 1) ++ "," ++ toString (hunk.stop - hunk.start)
  "@@ -" ++ place ++ " +" ++ place ++ " @@\n"

/-- A hunk as it is shown. -/
def text (old new : List String) : String :=
  hunk.header ++ String.join ((hunk.rows old new).map DiffRow.text)

end Hunk

/-- The differences between a file and its formatted text. -/
def diffText (path old new : String) : String :=
  let oldLines := Text.lines old
  let newLines := Text.lines new
  "--- " ++ path ++ "\n+++ " ++ path ++ "\n" ++
    String.join ((hunks oldLines newLines).map fun hunk => hunk.text oldLines newLines)

end MarkupFormat.Cli
