import MarkupFormat.Proofs.Layout.LineFit
import MarkupFormat.Proofs.Text.Characters

/-!
# The current column

A renderer counts columns on its own, apart from the text that it writes: a text adds its width, a new line begins
after the columns that its indentation counts, and a trim subtracts what it takes back. For documents without
control characters other than tabs the count is the width of the current line, except that a trim subtracts one
column for each blank, also for a tab. `column_eq_lineWidth_iff` says that this is the only way for the count to
go wrong.
-/

namespace MarkupFormat.Layout

open Text (Ordinary Ruler Within displayWidth displayWidth_append isLineBlank takeEnd totalColumns)

/-! ### Documents -/

/-- The text that an alignment adds is made up of some characters. -/
def AlignKind.WritesIn (p : Char → Prop) : AlignKind → Prop
  | text content => Within p content.toList
  | width _ | dedent | dedentToRoot | markAsRoot => True

namespace Doc

mutual

/-- The texts and the alignments of a document are made up of some characters. -/
def WritesIn (p : Char → Prop) : Doc → Prop
  | text _ content => Within p content.toList
  | align _ kind body => kind.WritesIn p ∧ body.WritesIn p
  | concat _ parts | fill _ parts => AllWriteIn p parts
  | indent _ body | group _ _ body | indentIfBreak _ body _ _ | label _ _ body => body.WritesIn p
  | choice _ _ body first others => body.WritesIn p ∧ first.WritesIn p ∧ AllWriteIn p others
  | ifBreak _ broken flat _ => broken.WritesIn p ∧ flat.WritesIn p
  | line .. | breakParent _ | trim _ => True

def AllWriteIn (p : Char → Prop) : List Doc → Prop
  | [] => True
  | doc :: docs => doc.WritesIn p ∧ AllWriteIn p docs

end

theorem allWriteIn_iff {p : Char → Prop} {docs : List Doc} :
    AllWriteIn p docs ↔ ∀ doc ∈ docs, doc.WritesIn p := by
  induction docs with
  | nil => simp [AllWriteIn]
  | cons doc docs ih => simp [AllWriteIn, ih]

end Doc

/-! ### Indentation -/

namespace Indentation

variable {config : Config} {indentation : Indentation}

namespace Replay

variable {replay : Replay}

/-- What was written takes the columns that were counted. -/
structure Counted (config : Config) (replay : Replay) : Prop where
  written : Within Ordinary replay.value.toList
  length : replay.length = displayWidth replay.value config.ruler

theorem Counted.append {content : String} (counted : replay.Counted config)
    (ordinary : Within Ordinary content.toList) :
    Counted config { replay with
      value := replay.value ++ content
      length := replay.length + displayWidth content config.ruler } := by
  obtain ⟨written, length⟩ := counted
  refine ⟨Text.within_string_append written ordinary, ?_⟩
  rw [displayWidth_append _ written ordinary, length]

theorem within_run {c : Char} (ordinary : Ordinary c) (count : Nat) : Within Ordinary (run c count).toList := by
  intro d member
  rw [run, String.toList_ofList] at member
  rw [List.eq_of_mem_replicate member]
  exact ordinary

theorem displayWidth_run {c : Char} (ordinary : Ordinary c) (count : Nat) (ruler : Ruler) :
    displayWidth (run c count) ruler = ruler.columns c * count := by
  have within := within_run ordinary count
  rw [run, String.toList_ofList] at within
  rw [run, Text.displayWidth_eq_totalColumns _ within, Text.totalColumns_replicate, Nat.mul_comm]

theorem Counted.addTabs (counted : replay.Counted config) (count : Nat) :
    (replay.addTabs config count).Counted config := by
  have tab : Ordinary '\t' := .inl rfl
  have added := counted.append (within_run tab count)
  rw [displayWidth_run tab] at added
  exact added

theorem Counted.addSpaces (counted : replay.Counted config) (count : Nat) :
    (replay.addSpaces count).Counted config := by
  have space : Ordinary ' ' := .inr (by decide)
  have added := counted.append (within_run space count)
  rw [displayWidth_run space, Text.columns_space, Nat.one_mul] at added
  exact added

theorem Counted.flush (counted : replay.Counted config) : (replay.flush config).Counted config := by
  unfold Replay.flush
  split
  · exact ⟨(counted.addTabs _).written, (counted.addTabs _).length⟩
  · exact ⟨(counted.addSpaces _).written, (counted.addSpaces _).length⟩

theorem Counted.step {step : IndentStep} (counted : replay.Counted config)
    (ordinary : ∀ content, step = .text content → Within Ordinary content.toList) :
    (replay.step config step).Counted config := by
  cases step with
  | indent =>
    unfold Replay.step
    dsimp only
    split
    · exact counted.flush.addTabs 1
    · exact counted.flush.addSpaces _
  | text content => exact counted.flush.append (ordinary content rfl)
  | columns count => exact ⟨counted.written, counted.length⟩

theorem Counted.foldl {steps : List IndentStep} (counted : replay.Counted config)
    (ordinary : ∀ content, .text content ∈ steps → Within Ordinary content.toList) :
    (steps.foldl (Replay.step config) replay).Counted config := by
  induction steps generalizing replay with
  | nil => exact counted
  | cons step steps ih =>
    refine ih (counted.step fun content same => ?_) fun content member => ?_
    · exact ordinary content (same ▸ List.mem_cons_self)
    · exact ordinary content (List.mem_cons_of_mem _ member)

end Replay

/-- An indentation takes the columns that it counts, as does every root it can go back to. -/
inductive Counted (config : Config) : Indentation → Prop
  | intro {value : String} {length : Nat} {steps : List IndentStep} {root : Option Indentation}
      (written : Within Ordinary value.toList) (same : length = displayWidth value config.ruler)
      (texts : ∀ content, .text content ∈ steps → Within Ordinary content.toList)
      (around : ∀ outer, root = some outer → Counted config outer) : Counted config ⟨value, length, steps, root⟩

theorem Counted.written (counted : indentation.Counted config) : Within Ordinary indentation.value.toList := by
  cases counted with
  | intro written => exact written

theorem Counted.length (counted : indentation.Counted config) :
    indentation.length = displayWidth indentation.value config.ruler := by
  cases counted with
  | intro _ same => exact same

theorem Counted.texts (counted : indentation.Counted config) {content : String}
    (member : .text content ∈ indentation.steps) : Within Ordinary content.toList := by
  cases counted with
  | intro _ _ texts => exact texts content member

theorem Counted.root (counted : indentation.Counted config) {outer : Indentation}
    (root : indentation.root = some outer) : outer.Counted config := by
  cases counted with
  | intro _ _ _ around => exact around outer root

theorem counted_none : none.Counted config :=
  .intro (fun _ member => absurd member List.not_mem_nil) rfl (fun _ member => absurd member List.not_mem_nil) nofun

theorem counted_ofSteps {steps : List IndentStep} {root : Option Indentation}
    (texts : ∀ content, .text content ∈ steps → Within Ordinary content.toList)
    (around : ∀ outer, root = some outer → outer.Counted config) : (ofSteps config steps root).Counted config := by
  have start : Replay.Counted config {} := ⟨fun _ member => absurd member List.not_mem_nil, rfl⟩
  obtain ⟨written, length⟩ := (start.foldl texts).addSpaces (steps.foldl (Replay.step config) {}).spaces
  exact .intro written length texts around

theorem Counted.push {step : IndentStep} (counted : indentation.Counted config)
    (ordinary : ∀ content, step = .text content → Within Ordinary content.toList) :
    (indentation.push config step).Counted config := by
  refine counted_ofSteps (fun content member => ?_) fun outer root => counted.root root
  rcases List.mem_append.mp member with member | member
  · exact counted.texts member
  · exact ordinary content (List.mem_singleton.mp member).symm

theorem Counted.indent (counted : indentation.Counted config) : (indentation.indent config).Counted config :=
  counted.push nofun

theorem Counted.align {kind : AlignKind} (counted : indentation.Counted config) (writes : kind.WritesIn Ordinary) :
    (indentation.align config kind).Counted config := by
  cases kind with
  | width columns =>
    unfold Indentation.align
    dsimp only
    split
    · exact counted
    · exact counted.push nofun
  | text content =>
    unfold Indentation.align
    dsimp only
    split
    · exact counted
    · refine counted.push fun other same => ?_
      cases same
      exact writes
  | dedent =>
    refine counted_ofSteps (fun content member => ?_) fun outer root => counted.root root
    exact counted.texts (List.dropLast_subset _ member)
  | dedentToRoot =>
    unfold Indentation.align
    cases root : indentation.root with
    | none => exact counted_none
    | some outer => exact counted.root root
  | markAsRoot =>
    cases counted with
    | intro written same texts around =>
      refine .intro written same texts fun outer isRoot => ?_
      cases isRoot
      exact .intro written same texts around

end Indentation

/-! ### The current line -/

/-- Whether a character is part of a line ending. -/
def endsLine (c : Char) : Bool :=
  c = '\n' || c = '\r'

namespace Emitter

variable {out : Emitter} {ruler : Ruler}

/-- The characters after the last line ending. -/
def currentLine (out : Emitter) : List Char :=
  takeEnd (fun c => !endsLine c) out.chars

/-- The columns that the current line takes. -/
def lineWidth (out : Emitter) (ruler : Ruler) : Nat :=
  displayWidth (String.ofList out.currentLine) ruler

/-- The blanks that a trim takes back. -/
def blanks (out : Emitter) : List Char :=
  takeEnd isLineBlank out.chars

theorem takeEnd_append {p : Char → Bool} {cs ds : List Char} (all : ∀ c ∈ ds, p c = true) :
    takeEnd p (cs ++ ds) = takeEnd p cs ++ ds := by
  unfold takeEnd
  rw [List.reverse_append, List.takeWhile_append_of_pos (by simpa using all), List.reverse_append,
    List.reverse_reverse]

theorem endsLine_of_ordinary {c : Char} (ordinary : Ordinary c) : endsLine c = false := by
  have noEnd : c ≠ '\n' ∧ c ≠ '\r' := by
    constructor
    all_goals
      rintro rfl
      exact absurd ordinary (by unfold Ordinary; decide)
  simp [endsLine, noEnd]

theorem currentLine_emit {s : String} (ordinary : Within Ordinary s.toList) :
    (out.emit s).currentLine = out.currentLine ++ s.toList := by
  unfold currentLine
  rw [chars_emit]
  refine takeEnd_append fun c member => ?_
  rw [endsLine_of_ordinary (ordinary c member)]
  rfl

theorem currentLine_newline (ending : Text.LineEnding) : (out.newline ending).currentLine = [] := by
  unfold currentLine newline takeEnd
  rw [chars_emit]
  cases ending <;> simp [Text.LineEnding.text, endsLine]

theorem chars_eq_trim_append (out : Emitter) : out.chars = out.trim.chars ++ out.blanks := by
  unfold trim blanks takeEnd chars
  rw [List.reverse_reverse, ← List.reverse_append, List.takeWhile_append_dropWhile]

theorem all_blanks (out : Emitter) : ∀ c ∈ out.blanks, isLineBlank c = true := by
  intro c member
  unfold blanks takeEnd at member
  exact List.all_eq_true.mp List.all_takeWhile c (List.mem_reverse.mp member)

theorem currentLine_eq (out : Emitter) : out.currentLine = out.trim.currentLine ++ out.blanks := by
  have blank : ∀ c ∈ out.blanks, (!endsLine c) = true := by
    intro c member
    rw [endsLine_of_ordinary (Text.ordinary_of_isLineBlank (out.all_blanks c member))]
    rfl
  unfold currentLine
  rw [chars_eq_trim_append]
  exact takeEnd_append blank

theorem length_blanks (out : Emitter) : out.blanks.length = out.trailingBlanks := by
  unfold blanks takeEnd chars trailingBlanks
  rw [List.reverse_reverse, List.length_reverse]

/-- A trim subtracts the columns that it takes back: none of the blanks is a tab, or tabs are one column wide, or
they have no width and stand on an empty line. -/
def TrimsExactly (out : Emitter) (ruler : Ruler) : Prop :=
  '\t' ∈ out.blanks → ruler.tab = 1 ∨ (ruler.tab = 0 ∧ out.trim.lineWidth ruler = 0)

theorem lineWidth_eq (ruler : Ruler) (ordinary : Within Ordinary out.currentLine) :
    out.lineWidth ruler = out.trim.lineWidth ruler + totalColumns ruler out.blanks := by
  unfold lineWidth
  rw [currentLine_eq] at ordinary ⊢
  obtain ⟨front, back⟩ := List.forall_mem_append.mp ordinary
  rw [Text.displayWidth_eq_totalColumns _ ordinary, Text.displayWidth_eq_totalColumns _ front,
    Text.totalColumns_append]

theorem trim_column_eq_iff (ordinary : Within Ordinary out.currentLine) :
    out.lineWidth ruler - out.trailingBlanks = out.trim.lineWidth ruler ↔ out.TrimsExactly ruler := by
  have width := lineWidth_eq ruler ordinary
  have taken := Text.totalColumns_of_all_blank ruler out.all_blanks
  have tabs : '\t' ∈ out.blanks ↔ 0 < out.blanks.count '\t' := List.count_pos_iff.symm
  have few : out.blanks.count '\t' ≤ out.blanks.length := List.count_le_length
  rw [length_blanks] at taken few
  unfold TrimsExactly
  rw [tabs]
  rcases Nat.lt_trichotomy ruler.tab 1 with none | one | wide
  · have zero : ruler.tab = 0 := by omega
    rw [zero] at taken
    omega
  · rw [one] at taken
    omega
  · rcases Nat.eq_zero_or_pos (out.blanks.count '\t') with zero | some
    · rw [zero, Nat.mul_zero] at taken
      omega
    · have more : 2 * out.blanks.count '\t' ≤ ruler.tab * out.blanks.count '\t' := Nat.mul_le_mul_right _ wide
      omega

end Emitter

/-! ### Moments of a rendering -/

/-- A command that writes nothing but ordinary characters, after an indentation that is counted right. -/
structure Command.Ordinary (config : Config) (command : Command) : Prop where
  doc : command.doc.WritesIn Text.Ordinary
  indentation : command.indentation.Counted config

/-- The current line has ordinary characters alone, and what waits writes no others. -/
structure Moment.Ordinary (config : Config) (moment : Moment) : Prop where
  line : Within Text.Ordinary moment.state.out.currentLine
  pending : ∀ command ∈ moment.pending, command.Ordinary config

/-- The column is the width of the current line. -/
def RenderState.Aligned (ruler : Ruler) (state : RenderState) : Prop :=
  state.column = state.out.lineWidth ruler

namespace RenderContext

variable {context : RenderContext} {state : RenderState} {command : Command} {rest : List Command}

theorem exists_openGroup (context : RenderContext) (state : RenderState) (rest : List Command) (command : Command)
    (mark : Mark) (info : GroupInfo) (body : Doc) (alternatives : List Doc) :
    ∃ mode, ∃ doc ∈ body :: alternatives,
      (context.openGroup state rest command mark info body alternatives).2 = command.on mode doc := by
  unfold openGroup chooseMeasured
  dsimp only
  split
  · split
    · exact ⟨.flat, body, List.mem_cons_self, rfl⟩
    · split
      · exact ⟨.broken, body, List.mem_cons_self, rfl⟩
      · next expanded last =>
        split
        · next doc found =>
          split at found
          · cases found
          · refine ⟨.flat, doc, List.mem_cons_of_mem _ ?_, rfl⟩
            exact List.mem_of_mem_tail (List.mem_of_find?_eq_some found)
        · exact ⟨.broken, expanded, List.mem_cons_of_mem _ (List.mem_of_getLast? last), rfl⟩
  · exact ⟨_, body, List.mem_cons_self, rfl⟩

theorem ordinary_openFill {mark : Mark} {parts : List Doc} (counted : command.indentation.Counted context.config)
    (writes : ∀ part ∈ parts, part.WritesIn Ordinary) :
    ∀ other ∈ context.openFill state command mark parts, other.Ordinary context.config := by
  intro other member
  rcases mem_openFill member with ⟨mode, part, inside, rfl⟩ | ⟨before, later, rfl, rfl⟩
  · exact ⟨writes part inside, counted⟩
  · have others : ∀ part ∈ later, part.WritesIn Ordinary := fun part inside =>
      writes part (List.mem_append_right before inside)
    exact ⟨Doc.allWriteIn_iff.mpr others, counted⟩

theorem ordinary_renderStep (ordinary : command.Ordinary context.config) :
    ∀ other ∈ (context.renderStep state rest command).2, other.Ordinary context.config := by
  obtain ⟨indentation, mode, doc⟩ := command
  obtain ⟨writes, counted⟩ := ordinary
  dsimp only at writes counted
  have one {other : Command} (here : other.Ordinary context.config) :
      ∀ command ∈ [other], command.Ordinary context.config := by
    intro command member
    rwa [List.mem_singleton.mp member]
  cases doc with
  | text mark content => nofun
  | concat mark parts =>
    intro other member
    obtain ⟨part, inside, rfl⟩ := List.mem_map.mp member
    exact ⟨Doc.allWriteIn_iff.mp writes part inside, counted⟩
  | indent mark body => exact one ⟨writes, counted.indent⟩
  | align mark kind body => exact one ⟨writes.2, counted.align writes.1⟩
  | group mark info body =>
    obtain ⟨mode, doc, member, same⟩ :=
      exists_openGroup context state rest ⟨indentation, mode, .group mark info body⟩ mark info body []
    obtain rfl := List.mem_singleton.mp member
    unfold renderStep
    dsimp only
    rw [same]
    exact one ⟨writes, counted⟩
  | choice mark info body first others =>
    obtain ⟨mode, doc, member, same⟩ := exists_openGroup context state rest
      ⟨indentation, mode, .choice mark info body first others⟩ mark info body (first :: others)
    have all : Doc.AllWriteIn Ordinary (body :: first :: others) := writes
    unfold renderStep
    dsimp only
    rw [same]
    exact one ⟨Doc.allWriteIn_iff.mp all doc member, counted⟩
  | fill mark parts => exact ordinary_openFill counted (Doc.allWriteIn_iff.mp writes)
  | line mark kind => nofun
  | breakParent mark => nofun
  | ifBreak mark broken flat id =>
    refine one ⟨?_, counted⟩
    show Doc.WritesIn Ordinary (if _ then broken else flat)
    split
    · exact writes.1
    · exact writes.2
  | indentIfBreak mark body id negate =>
    refine one ?_
    dsimp only
    split
    · exact ⟨writes, counted⟩
    · exact ⟨writes, counted.indent⟩
  | trim mark => nofun
  | label mark name body => exact one ⟨writes, counted⟩

theorem currentLine_breakLine (state : RenderState) {indentation : Indentation} (kind : LineKind)
    (counted : indentation.Counted context.config) :
    Within Ordinary (context.breakLine state kind indentation).out.currentLine ∧
      (context.breakLine state kind indentation).Aligned context.config.ruler := by
  have begun {out : Emitter} {indentation : Indentation} (counted : indentation.Counted context.config) :
      ((out.newline context.config.lineEnding).emit indentation.value).currentLine = indentation.value.toList := by
    rw [Emitter.currentLine_emit counted.written, Emitter.currentLine_newline, List.nil_append]
  unfold breakLine
  dsimp only
  split
  · cases root : indentation.root with
    | none =>
      dsimp only
      rw [Emitter.currentLine_newline]
      refine ⟨fun c member => absurd member List.not_mem_nil, ?_⟩
      unfold RenderState.Aligned Emitter.lineWidth
      rw [Emitter.currentLine_newline]
      rfl
    | some outer =>
      have counted := counted.root root
      dsimp only
      rw [begun counted]
      refine ⟨counted.written, ?_⟩
      unfold RenderState.Aligned Emitter.lineWidth
      rw [begun counted, String.ofList_toList]
      exact counted.length
  · dsimp only
    rw [begun counted]
    refine ⟨counted.written, ?_⟩
    unfold RenderState.Aligned Emitter.lineWidth
    rw [begun counted, String.ofList_toList]
    exact counted.length

theorem aligned_emit {s : String} (line : Within Ordinary state.out.currentLine) (within : Within Ordinary s.toList) :
    Within Ordinary (state.out.emit s).currentLine ∧
      (state.Aligned context.config.ruler → RenderState.Aligned context.config.ruler
        { state with
          out := state.out.emit s
          column := state.column + displayWidth s context.config.ruler }) := by
  have inside := Text.within_append line within
  rw [← Emitter.currentLine_emit within] at inside
  refine ⟨inside, fun before => ?_⟩
  unfold RenderState.Aligned Emitter.lineWidth at before ⊢
  dsimp only
  rw [Emitter.currentLine_emit within, String.ofList_append, String.ofList_toList,
    displayWidth_append _ (Text.within_ofList line) within, before]

theorem aligned_writeText {content : String} (line : Within Ordinary state.out.currentLine)
    (writes : Within Ordinary content.toList) :
    Within Ordinary (context.writeText state content).out.currentLine ∧
      (state.Aligned context.config.ruler →
        (context.writeText state content).Aligned context.config.ruler) := by
  have noFeed : '\n' ∉ content.toList := fun member =>
    absurd (Emitter.endsLine_of_ordinary (writes _ member)) (by decide)
  have after : context.writeText state content =
      { state with
        out := state.out.emit content
        column := state.column + displayWidth content context.config.ruler } := by
    rw [writeText, writeLineEndings_of_no_lineFeed noFeed]
  rw [after]
  exact aligned_emit line writes

theorem aligned_writeLine {indentation : Indentation} (line : Within Ordinary state.out.currentLine)
    (counted : indentation.Counted context.config) (mode : Mode) (kind : LineKind) :
    Within Ordinary (context.writeLine state kind indentation mode).out.currentLine ∧
      (state.Aligned context.config.ruler →
        (context.writeLine state kind indentation mode).Aligned context.config.ruler) := by
  have broken (remeasure : Bool) := currentLine_breakLine { state with remeasure := remeasure } kind counted
  unfold writeLine
  split
  · exact ⟨line, id⟩
  · have space : Within Ordinary " ".toList := by
      intro c member
      obtain rfl := List.mem_singleton.mp member
      exact .inr (by decide)
    have one : displayWidth " " context.config.ruler = 1 := by
      rw [displayWidth, if_pos (by decide)]
      rfl
    have written := @aligned_emit context state _ line space
    rw [one] at written
    exact written
  · exact ⟨(broken true).1, fun _ => (broken true).2⟩
  · exact ⟨(broken state.remeasure).1, fun _ => (broken state.remeasure).2⟩

/-- What a step does to the current line and the column: both grow alike, or a line begins, unless the step trims. -/
theorem aligned_renderStep (ordinary : command.Ordinary context.config)
    (line : Within Ordinary state.out.currentLine) :
    Within Ordinary (context.renderStep state rest command).1.out.currentLine ∧
      (state.Aligned context.config.ruler →
        ((context.renderStep state rest command).1.Aligned context.config.ruler ↔
          (∀ mark, command.doc = .trim mark → state.out.TrimsExactly context.config.ruler))) := by
  obtain ⟨indentation, mode, doc⟩ := command
  obtain ⟨writes, counted⟩ := ordinary
  dsimp only at writes counted
  have moved {after : RenderState} (inside : Within Ordinary after.out.currentLine)
      (aligned : state.Aligned context.config.ruler → after.Aligned context.config.ruler)
      (other : ∀ mark, doc ≠ .trim mark) :
      Within Ordinary after.out.currentLine ∧
        (state.Aligned context.config.ruler → (after.Aligned context.config.ruler ↔
          (∀ mark, doc = .trim mark → state.out.TrimsExactly context.config.ruler))) :=
    ⟨inside, fun before => ⟨fun _ mark same => absurd same (other mark), fun _ => aligned before⟩⟩
  cases doc with
  | text mark content =>
    obtain ⟨inside, aligned⟩ := aligned_writeText line writes
    exact moved inside aligned (by rintro _ ⟨⟩)
  | line mark kind =>
    obtain ⟨inside, aligned⟩ := aligned_writeLine line counted mode kind
    exact moved inside aligned (by rintro _ ⟨⟩)
  | trim mark =>
    -- The one step that counts characters where the line counts columns.
    unfold renderStep
    dsimp only
    refine ⟨?_, fun before => ?_⟩
    · rw [Emitter.currentLine_eq] at line
      exact (List.forall_mem_append.mp line).1
    · unfold RenderState.Aligned at before ⊢
      dsimp only
      rw [before, Emitter.trim_column_eq_iff line]
      exact ⟨fun right _ _ => right, fun trims => trims mark rfl⟩
  | group mark info body =>
    unfold renderStep openGroup
    exact moved line id (by rintro _ ⟨⟩)
  | choice mark info body first others =>
    unfold renderStep openGroup
    exact moved line id (by rintro _ ⟨⟩)
  | concat | indent | align | fill | breakParent | ifBreak | indentIfBreak | label =>
    exact moved line id (by rintro _ ⟨⟩)

theorem ordinary_advance (ordinary : Moment.Ordinary context.config ⟨state, command :: rest⟩) :
    (context.advance state command rest).Ordinary context.config := by
  obtain ⟨line, pending⟩ := ordinary
  obtain ⟨first, others⟩ := List.forall_mem_cons.mp pending
  exact ⟨(aligned_renderStep first line).1, List.forall_mem_append.mpr ⟨ordinary_renderStep first, others⟩⟩

theorem aligned_advance_iff (ordinary : Moment.Ordinary context.config ⟨state, command :: rest⟩)
    (aligned : state.Aligned context.config.ruler) :
    (context.advance state command rest).state.Aligned context.config.ruler ↔
      ∀ mark, command.doc = .trim mark → state.out.TrimsExactly context.config.ruler :=
  (aligned_renderStep (ordinary.pending command List.mem_cons_self) ordinary.line).2 aligned

theorem aligned_of_reaches {first last : Moment} (reached : context.Reaches first last)
    (ordinary : first.Ordinary context.config) (aligned : first.state.Aligned context.config.ruler)
    (trims : ∀ state command rest, context.Reaches first ⟨state, command :: rest⟩ →
      context.Reaches (context.advance state command rest) last →
      ∀ mark, command.doc = .trim mark → state.out.TrimsExactly context.config.ruler) :
    last.state.Aligned context.config.ruler := by
  induction reached with
  | refl => exact aligned
  | step later ih =>
    refine ih (ordinary_advance ordinary) ?_ fun state command rest reached => trims state command rest (.step reached)
    exact (aligned_advance_iff ordinary aligned).mpr (trims _ _ _ (.refl _) later)

/-- A tab at the end of a line, and a trim after it. -/
def trimmedTab : Doc :=
  .concat 0 [.text 1 "a\t", .trim 2]

end RenderContext

end MarkupFormat.Layout
