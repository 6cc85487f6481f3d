import MarkupFormat.Text.LineEnding
import MarkupFormat.Text.Width

/-!
# Renderer configuration
-/

namespace MarkupFormat.Layout

open Text (CharWidths LineEnding Ruler)

/-- How documents are rendered. -/
structure Config where
  /-- Columns available on a line. -/
  printWidth : Nat := 80
  /-- Columns of one step of indentation, and of a tab when text is measured. -/
  tabWidth : Nat := 2
  /-- Indent with tabs. -/
  useTabs : Bool := false
  lineEnding : LineEnding := .lf
  /-- How wide characters are. -/
  widths : CharWidths := .unicode
  deriving Inhabited

/-- What texts are measured with. -/
def Config.ruler (config : Config) : Ruler :=
  ⟨config.tabWidth, config.widths⟩

end MarkupFormat.Layout
