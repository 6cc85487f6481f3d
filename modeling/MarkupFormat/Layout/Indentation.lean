import MarkupFormat.Layout.Config
import MarkupFormat.Layout.Doc
import MarkupFormat.Text.Width

/-!
# Indentation

An indentation is the list of steps that led to it together with the text that the steps render
to. With tabs, aligned columns become a tab each as soon as a proper step of indentation follows
them, and stay spaces at the end.
-/

namespace MarkupFormat.Layout

/-- One recorded step. -/
inductive IndentStep where
  | indent
  | text (content : String)
  | columns (count : Nat)
  deriving DecidableEq, Repr, Inhabited

/-- An indentation. -/
structure Indentation where
  /-- What is written after a new line. -/
  value : String
  /-- The columns that `value` takes. -/
  length : Nat
  /-- The steps, outermost first. -/
  steps : List IndentStep
  /-- Where literal lines and a return to the root go. -/
  root : Option Indentation
  deriving Repr, Inhabited

namespace Indentation

/-- The first column, without a root. -/
def none : Indentation :=
  ⟨"", 0, [], .none⟩

/-- The text of some steps, with the aligned columns that are not written yet. -/
structure Replay where
  value : String := ""
  length : Nat := 0
  /-- Aligned steps that are pending. -/
  tabs : Nat := 0
  /-- Columns of those steps. -/
  spaces : Nat := 0
  deriving DecidableEq, Repr, Inhabited

namespace Replay

/-- `c` repeated. -/
def run (c : Char) (count : Nat) : String :=
  String.ofList (List.replicate count c)

def addTabs (config : Config) (count : Nat) (replay : Replay) : Replay :=
  { replay with
    value := replay.value ++ run '\t' count
    length := replay.length + config.tabWidth * count }

def addSpaces (count : Nat) (replay : Replay) : Replay :=
  { replay with value := replay.value ++ run ' ' count, length := replay.length + count }

/-- Writes the pending columns as spaces. -/
def flushSpaces (replay : Replay) : Replay :=
  { replay.addSpaces replay.spaces with tabs := 0, spaces := 0 }

/-- Writes the pending columns as they stand before a further step. -/
def flush (config : Config) (replay : Replay) : Replay :=
  if config.useTabs then { replay.addTabs config replay.tabs with tabs := 0, spaces := 0 }
  else replay.flushSpaces

/-- Adds one step. -/
def step (config : Config) (replay : Replay) : IndentStep → Replay
  | .indent =>
    if config.useTabs then (replay.flush config).addTabs config 1
    else (replay.flush config).addSpaces config.tabWidth
  | .text content =>
    let flushed := replay.flush config
    { flushed with
      value := flushed.value ++ content
      length := flushed.length + Text.displayWidth content config.ruler }
  | .columns count => { replay with tabs := replay.tabs + 1, spaces := replay.spaces + count }

end Replay

/-- The indentation that `steps` lead to. -/
def ofSteps (config : Config) (steps : List IndentStep) (root : Option Indentation) :
    Indentation :=
  let replay := (steps.foldl (Replay.step config) {}).flushSpaces
  ⟨replay.value, replay.length, steps, root⟩

/-- The indentation with one more step. -/
def push (config : Config) (ind : Indentation) (step : IndentStep) : Indentation :=
  ofSteps config (ind.steps ++ [step]) ind.root

/-- One step of indentation further. -/
def indent (config : Config) (ind : Indentation) : Indentation :=
  ind.push config .indent

/-- The indentation of the body of an aligned node. An alignment by nothing leaves no step. -/
def align (config : Config) (ind : Indentation) : AlignKind → Indentation
  | .dedentToRoot => ind.root.getD none
  | .dedent => ofSteps config ind.steps.dropLast ind.root
  | .markAsRoot => { ind with root := some ind }
  | .width columns => if columns = 0 then ind else ind.push config (.columns columns)
  | .text content => if content = "" then ind else ind.push config (.text content)

end Indentation

end MarkupFormat.Layout
