import MarkupFormat.Layout.Emitter
import MarkupFormat.Layout.Fits

/-!
# Rendering

The renderer works through a list of pending nodes, each with its indentation and mode, and
produces text from left to right. A group is laid out flat if it and what follows it fit on the
line, and broken otherwise; a fill decides at each of its line breaks. `renderStep_lt` shows that
each step leaves less to do, so rendering ends.
-/

namespace MarkupFormat.Layout

open Text (displayWidth)

/-- What a renderer carries from node to node. -/
structure RenderState where
  out : Emitter := {}
  /-- The current column. -/
  column : Nat := 0
  /-- A line broke although it was to be flat, so the next group is measured even in a flat
  one. -/
  remeasure : Bool := false
  modes : GroupModes := {}
  deriving Inhabited

/-- What a renderer does not change. -/
structure RenderContext where
  config : Config
  breaks : BreakSet

namespace RenderContext

variable (context : RenderContext) (state : RenderState)

/-- Columns left on the line; none or less if the line is full. -/
def room : Int :=
  (counted context.config.printWidth : Int) - counted state.column

/-- Whether the pending commands fit on the rest of the line. -/
def fits (mustBeFlat : Bool) (pending : List Command) : Bool :=
  Lookahead.fits ⟨context.config, context.breaks, state.modes, mustBeFlat⟩
    { room := context.room state } pending

/-- Writes a text. -/
def writeText (content : String) : RenderState :=
  { state with
    out := state.out.emit (Text.writeLineEndings context.config.lineEnding content)
    column := state.column + displayWidth content context.config.ruler }

/-- Ends the line and indents the next one. Blanks at the end of the line are removed, except
before a literal line. -/
def breakLine (kind : LineKind) (indentation : Indentation) : RenderState :=
  let ending := context.config.lineEnding
  if kind = .literal then
    let out := state.out.newline ending
    match indentation.root with
    | some root => { state with out := out.emit root.value, column := root.length }
    | none => { state with out := out, column := 0 }
  else
    { state with
      out := (state.out.trim.newline ending).emit indentation.value
      column := indentation.length }

/-- Lays out a line break. -/
def writeLine (kind : LineKind) (indentation : Indentation) (mode : Mode) : RenderState :=
  match mode, kind with
  | .flat, .soft => state
  | .flat, .plain => { state with out := state.out.emit " ", column := state.column + 1 }
  | .flat, _ => context.breakLine { state with remeasure := true } kind indentation
  | .broken, _ => context.breakLine state kind indentation

/-- The mode and the body in which a group is laid out that is measured at this place. -/
def chooseMeasured (rest : List Command) (command : Command) (broken : Bool) (body : Doc)
    (alternatives : List Doc) : Command :=
  let flat := command.on .flat
  if !broken && context.fits state false (flat body :: rest) then flat body
  else
    match alternatives.getLast? with
    | none => command.on .broken body
    | some expanded =>
      let fitting := alternatives.tail.find? fun doc => context.fits state false (flat doc :: rest)
      match (if broken then none else fitting) with
      | some doc => flat doc
      | none => command.on .broken expanded

/-- Lays out a group and records how. Within a flat node a group is not measured again unless a
line broke in it. -/
def openGroup (rest : List Command) (command : Command) (mark : Mark) (info : GroupInfo)
    (body : Doc) (alternatives : List Doc) : RenderState × Command :=
  let broken := context.breaks.isBroken mark info
  let measured := command.mode = .broken || state.remeasure
  let chosen :=
    if measured then context.chooseMeasured state rest command broken body alternatives
    else command.on (if broken then .broken else .flat) body
  ({ state with
      remeasure := if measured then false else state.remeasure
      modes :=
        match info.id with
        | some id => state.modes.insert id chosen.mode
        | none => state.modes },
    chosen)

/-- The parts of a fill that are next, and the fill of the parts after them. A line break stays
flat if the contents on both sides of it fit on the line together. -/
def openFill (command : Command) (mark : Mark) : List Doc → List Command
  | [] => []
  | [content] =>
    let flat := command.on .flat content
    [if context.fits state true [flat] then flat else command.on .broken content]
  | [content, separator] =>
    let mode := if context.fits state true [command.on .flat content] then Mode.flat else .broken
    [command.on mode content, command.on mode separator]
  | content :: separator :: next :: parts =>
    let contentFits := context.fits state true [command.on .flat content]
    let pairFits :=
      context.fits state true ([content, separator, next].map (command.on .flat))
    [command.on (if pairFits || contentFits then .flat else .broken) content,
      command.on (if pairFits then .flat else .broken) separator,
      command.on command.mode (.fill mark (next :: parts))]

/-- Renders one node: the state after it, and the commands that take its place. -/
def renderStep (rest : List Command) (command : Command) : RenderState × List Command :=
  match command.doc with
  | .text _ content => (context.writeText state content, [])
  | .concat _ parts => (state, parts.map (command.on command.mode))
  | .indent _ body =>
    (state, [⟨command.indentation.indent context.config, command.mode, body⟩])
  | .align _ kind body =>
    (state, [⟨command.indentation.align context.config kind, command.mode, body⟩])
  | .group mark info body =>
    let (state, chosen) := context.openGroup state rest command mark info body []
    (state, [chosen])
  | .choice mark info body first others =>
    let (state, chosen) := context.openGroup state rest command mark info body (first :: others)
    (state, [chosen])
  | .fill mark parts => (state, context.openFill state command mark parts)
  | .line _ kind => (context.writeLine state kind command.indentation command.mode, [])
  | .breakParent _ => (state, [])
  | .ifBreak _ broken flat id =>
    (state, [command.on command.mode
      (if state.modes.read id command.mode = .broken then broken else flat)])
  | .indentIfBreak _ body id negate =>
    let broken := state.modes.read (some id) command.mode = .broken
    (state, [if broken = negate then command.on command.mode body
      else ⟨command.indentation.indent context.config, command.mode, body⟩])
  | .trim _ =>
    ({ state with
        out := state.out.trim
        column := state.column - state.out.trailingBlanks }, [])
  | .label _ _ body => (state, [command.on command.mode body])

theorem chooseMeasured_weight_le (rest : List Command) (command : Command) (broken : Bool)
    (body : Doc) (alternatives : List Doc) :
    (context.chooseMeasured state rest command broken body alternatives).doc.weight ≤
      body.weight + Doc.weights alternatives := by
  unfold chooseMeasured
  dsimp only
  split
  · simp only [Command.on]; omega
  · split
    · simp only [Command.on]; omega
    · rename_i expanded last
      have mem := List.mem_of_getLast? last
      split
      · rename_i doc found
        split at found
        · cases found
        · have := Doc.weight_le_weights (List.mem_of_mem_tail (List.mem_of_find?_eq_some found))
          simp only [Command.on]; omega
      · have := Doc.weight_le_weights mem
        simp only [Command.on]; omega

theorem openGroup_weight_le (rest : List Command) (command : Command) (mark : Mark)
    (info : GroupInfo) (body : Doc) (alternatives : List Doc) :
    (context.openGroup state rest command mark info body alternatives).2.doc.weight ≤
      body.weight + Doc.weights alternatives := by
  unfold openGroup
  dsimp only
  split
  · exact chooseMeasured_weight_le ..
  · simp only [Command.on]; omega

theorem openFill_weights_lt (command : Command) (mark : Mark) (parts : List Doc) :
    Command.weights (context.openFill state command mark parts) <
      1 + (Doc.weights parts + parts.length) := by
  unfold openFill
  split
  · simp [Doc.weights]
  · dsimp only; split <;> simp [Command.on, Doc.weights] <;> omega
  · simp [Command.on, Doc.weights]; omega
  · simp [Command.on, Doc.weights, Doc.weight]; omega

/-- A step leaves less to do than there was. -/
theorem renderStep_lt (rest : List Command) (command : Command) :
    Command.weights (context.renderStep state rest command).2 < command.doc.weight := by
  unfold renderStep
  cases command.doc <;> simp only [Command.weights_nil, Command.weights_cons, Doc.weight,
    Command.weights_map_on, Command.on] <;> try omega
  case group mark info body =>
    have := openGroup_weight_le context state rest command mark info body []
    simp only [Doc.weights] at this
    omega
  case choice mark info body first others =>
    have := openGroup_weight_le context state rest command mark info body (first :: others)
    simp only [Doc.weights] at this
    omega
  case fill mark parts => exact openFill_weights_lt ..
  case ifBreak mark broken flat id => split <;> omega
  case indentIfBreak mark body id negate => split <;> simp

end RenderContext

/-- Renders the pending commands. -/
def RenderContext.run (context : RenderContext) (state : RenderState) :
    List Command → RenderState
  | [] => state
  | command :: rest =>
    let step := context.renderStep state rest command
    context.run step.1 (step.2 ++ rest)
  termination_by commands => Command.weights commands
  decreasing_by
    have := context.renderStep_lt state rest command
    simp only [Command.weights_append, Command.weights_cons]
    omega

/-- Renders `doc` after the text that `out` holds. -/
def Doc.renderInto (doc : Doc) (config : Config) (out : Emitter) : Emitter :=
  (RenderContext.run ⟨config, doc.breaks⟩ { out := out } [⟨.none, .broken, doc⟩]).out

/-- Renders `doc`. -/
def Doc.render (doc : Doc) (config : Config) : String :=
  (doc.renderInto config {}).text

end MarkupFormat.Layout
