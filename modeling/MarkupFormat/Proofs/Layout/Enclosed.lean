import MarkupFormat.Proofs.Layout.Sharing
import MarkupFormat.Proofs.Layout.Wrapping

/-!
# A fill between two tags

An element that holds a text is laid out as a fill between its tags, in groups that hold nothing else. Where it fits,
all of it stands on one line (`IsEnclosed.render_fits`). Where it does not or has to break, the tags have lines of their
own, and the fill is wrapped between them, one step of indentation further (`IsEnclosed.render_breaks`).
-/

namespace MarkupFormat.Layout

open Text (Ordinary Ruler Within displayWidth dropEnd isControl isLineBlank totalColumns)

/-- The columns of two tags and the words between them, also on a line that is indented. -/
def elementColumns (config : Config) (front : List Char) (words : List FillWord) (back : List Char) : Nat :=
  totalColumns config.ruler front + (config.tabWidth + wordColumns config.ruler words) + totalColumns config.ruler back

namespace Doc

/-! ### Documents without alternatives -/

mutual

def hasChoice : Doc → Bool
  | text .. | line .. | breakParent _ | trim _ => false
  | concat _ parts | fill _ parts => anyHasChoice parts
  | indent _ body | align _ _ body | group _ _ body | indentIfBreak _ body _ _ | label _ _ body => body.hasChoice
  | choice .. => true
  | ifBreak _ broken flat _ => broken.hasChoice || flat.hasChoice

def anyHasChoice : List Doc → Bool
  | [] => false
  | doc :: docs => doc.hasChoice || anyHasChoice docs

end

mutual

theorem hasChoice_unfolded : ∀ doc : Doc, doc.unfolded.hasChoice = doc.hasChoice
  | text .. | line .. | trim .. | breakParent .. | choice .. => rfl
  | concat _ parts | fill _ parts => anyHasChoice_unfolded parts
  | indent _ body | align _ _ body | group _ _ body | indentIfBreak _ body _ _ | label _ _ body =>
    hasChoice_unfolded body
  | ifBreak _ broken flat _ => congrArg₂ (· || ·) (hasChoice_unfolded broken) (hasChoice_unfolded flat)

theorem anyHasChoice_unfolded : ∀ docs : List Doc, anyHasChoice (unfoldedAll docs) = anyHasChoice docs
  | [] => rfl
  | doc :: docs => congrArg₂ (· || ·) (hasChoice_unfolded doc) (anyHasChoice_unfolded docs)

end

theorem anyHasChoice_eq_true_iff {docs : List Doc} :
    anyHasChoice docs = true ↔ ∃ doc ∈ docs, doc.hasChoice = true := by
  induction docs with
  | nil => simp [anyHasChoice]
  | cons doc docs ih => simp [anyHasChoice, ih]

theorem hasChoice_of_child {doc child : Doc} (below : child ∈ doc.children true) (choice : child.hasChoice = true) :
    doc.hasChoice = true := by
  cases doc with
  | text | line | breakParent | trim => cases below
  | concat _ parts | fill _ parts => exact anyHasChoice_eq_true_iff.mpr ⟨child, below, choice⟩
  | indent | align | group | indentIfBreak | label => exact List.mem_singleton.mp below ▸ choice
  | choice => rfl
  | ifBreak _ broken flat _ =>
    refine Bool.or_eq_true_iff.mpr ?_
    rcases List.mem_pair.mp below with rfl | rfl
    · exact .inl choice
    · exact .inr choice

theorem hasChoice_of_contains {doc node : Doc} (contains : doc.Contains node) (choice : node.hasChoice = true) :
    doc.hasChoice = true := by
  induction contains with
  | here => exact choice
  | down _ below _ ih => exact hasChoice_of_child below (ih choice)

/-- Without alternatives, a document is rendered as its tree shows. -/
theorem render_eq_of_unfolded {doc tree : Doc} (apart : doc.MarksTellApart) (same : doc.unfolded = tree)
    (plain : tree.hasChoice = false) (config : Config) :
    doc.render config = (RenderContext.run ⟨config, {}⟩ {} [⟨.none, .broken, tree.settled⟩]).out.text := by
  have bodies (mark : Mark) (info : GroupInfo) (body first : Doc) (others : List Doc)
      (contains : doc.Contains (.choice mark info body first others)) : body = first := by
    rw [← same, hasChoice_unfolded, hasChoice_of_contains contains rfl] at plain
    cases plain
  rw [IsGraph.render_eq ⟨apart, bodies⟩, ← settled_unfolded doc, same]

/-! ### Groups with nothing else in them -/

/-- A document stands in groups, each of which must break or need not. -/
inductive Wraps (mustBreak : Bool) (inner : Doc) : Doc → Prop
  | here : Wraps mustBreak inner inner
  | concat {doc : Doc} : Wraps mustBreak inner doc → Wraps mustBreak inner (.concat 0 [doc])
  | group {doc : Doc} (id : Option GroupId) : Wraps mustBreak inner doc →
    Wraps mustBreak inner (.group 0 ⟨id, mustBreak⟩ doc)

section

variable {inner doc : Doc}

theorem Wraps.forces (wraps : Wraps false inner doc) : doc.forces = inner.forces := by
  induction wraps with
  | here => rfl
  | concat _ ih => simp [Doc.forces, forcesAny, ih]
  | group _ _ ih => simp [Doc.forces, ih]

theorem Wraps.settled (wraps : Wraps false inner doc) : Wraps inner.forces inner.settled doc.settled := by
  induction wraps with
  | here => exact .here
  | concat _ ih => exact .concat ih
  | @group body id wraps ih =>
    have outside : (Doc.group 0 ⟨id, false⟩ body).settled = .group 0 ⟨id, inner.forces⟩ body.settled := by
      rw [← wraps.forces]
      rfl
    rw [outside]
    exact .group id ih

theorem Wraps.hasChoice (wraps : Wraps false inner doc) : doc.hasChoice = inner.hasChoice := by
  induction wraps with
  | here => rfl
  | concat _ ih => simp [Doc.hasChoice, anyHasChoice, ih]
  | group _ _ ih => exact ih

theorem Wraps.level (wraps : Wraps false inner doc) (ruler : Ruler) :
    doc.isLevel {} = inner.isLevel {} ∧ doc.levelWidth ruler = inner.levelWidth ruler := by
  induction wraps with
  | here => exact ⟨rfl, rfl⟩
  | concat _ ih => simp [isLevel, areLevel, levelWidth, levelWidths, ih]
  | group id _ ih => simp [isLevel, levelWidth, BreakSet.isBroken_empty, ih]

end

/-! ### Texts as trees -/

mutual

theorem plain_of_isTexts : ∀ doc : Doc, doc.isTexts = true → doc.hasChoice = false ∧ doc.forces = false
  | text .., _ => ⟨rfl, rfl⟩
  | concat _ parts, texts => plain_of_areTexts parts texts

theorem plain_of_areTexts : ∀ docs : List Doc, areTexts docs = true → anyHasChoice docs = false ∧ forcesAny docs = false
  | [], _ => ⟨rfl, rfl⟩
  | doc :: docs, texts => by
    obtain ⟨here, behind⟩ := Bool.and_eq_true_iff.mp texts
    obtain ⟨choice, force⟩ := plain_of_isTexts doc here
    obtain ⟨choices, forced⟩ := plain_of_areTexts docs behind
    exact ⟨by rw [anyHasChoice, choice, choices]; rfl, by rw [forcesAny, force, forced]; rfl⟩

end

mutual

theorem texts_settled : ∀ doc : Doc, doc.isTexts = true → doc.settled.isTexts = true ∧
    doc.settled.content = doc.content ∧ ∀ ruler : Ruler, doc.settled.levelWidth ruler = doc.levelWidth ruler
  | text .., _ => ⟨rfl, rfl, fun _ => rfl⟩
  | concat _ parts, texts => allTexts_settled parts texts

theorem allTexts_settled : ∀ docs : List Doc, areTexts docs = true → areTexts (settledAll docs) = true ∧
    contents (settledAll docs) = contents docs ∧
      ∀ ruler : Ruler, levelWidths ruler (settledAll docs) = levelWidths ruler docs
  | [], _ => ⟨rfl, rfl, fun _ => rfl⟩
  | doc :: docs, texts => by
    obtain ⟨here, behind⟩ := Bool.and_eq_true_iff.mp texts
    obtain ⟨isTexts, content, width⟩ := texts_settled doc here
    obtain ⟨areTexts, contents, widths⟩ := allTexts_settled docs behind
    refine ⟨Bool.and_eq_true_iff.mpr ⟨isTexts, areTexts⟩, congrArg₂ (· ++ ·) content contents, fun ruler => ?_⟩
    exact congrArg₂ (· + ·) (width ruler) (widths ruler)

end

/-! ### The document of an element -/

def forcedBreak : Doc :=
  .concat 0 [.line 0 .hard, .breakParent 0]

/-- What breaks the groups around it, if they have to break. -/
def breakIf (breaks : Bool) : Doc :=
  if breaks then .breakParent 0 else .text 0 ""

/-- A fill between two tags, with lines around it. -/
def enclosed (tags : GroupId) (opening : Doc) (breaks : Bool) (parts : List Doc) (closing : Doc) : Doc :=
  .concat 0 [.group 0 ⟨some tags, false⟩ opening,
    .concat 0 [breakIf breaks, .indent 0 (.concat 0 [.line 0 .soft, .concat 0 [.fill 0 parts]]), .line 0 .soft],
    closing]

/-- A document that is written as a tag. -/
structure IsTag (cs : List Char) (tag : Doc) : Prop where
  texts : tag.isTexts = true
  content : tag.content = cs
  ordinary : Within Ordinary cs
  solid : ∃ last, cs.getLast? = some last ∧ isLineBlank last = false

theorem IsTag.clean {cs : List Char} {tag : Doc} (isTag : IsTag cs tag) :
    '\n' ∉ tag.content := by
  intro feed
  rcases isTag.ordinary '\n' (isTag.content ▸ feed) with tab | visible
  · exact absurd tab (by decide)
  · exact absurd visible (by decide)

theorem IsTag.width {cs : List Char} {tag : Doc} (isTag : IsTag cs tag) (ruler : Ruler) :
    tag.levelWidth ruler = totalColumns ruler cs := by
  rw [levelWidth_eq_totalColumns tag isTag.texts (isTag.content ▸ isTag.ordinary), isTag.content]

/-- A tag ends with no blank, and so does what ends with the tag. -/
theorem IsTag.solid_append {cs : List Char} {tag : Doc} (isTag : IsTag cs tag)
    (before : List Char) : ∀ c ∈ (before ++ cs).getLast?, isLineBlank c = false := by
  obtain ⟨last, isLast, noBlank⟩ := isTag.solid
  intro c member
  rw [List.getLast?_append, isLast] at member
  exact Option.some.inj member ▸ noBlank

/-- A tree is that of an element on lines of its own, whose tags enclose words. -/
inductive IsEnclosed (ruler : Ruler) (front : List Char) (breaks : Bool) (words : List FillWord) (back : List Char) :
    Doc → Prop
  | mk {tags : GroupId} {opening closing inner : Doc} {parts : List Doc}
      (wraps : Wraps false (enclosed tags opening breaks parts closing) inner) (opens : IsTag front opening)
      (alternate : Alternate ruler words parts) (closes : IsTag back closing) :
    IsEnclosed ruler front breaks words back (.concat 0 [.group 0 ⟨none, false⟩ inner, forcedBreak])

section

variable {ruler : Ruler} {tags : GroupId} {opening closing : Doc} {parts : List Doc} {words : List FillWord}
  {front back : List Char} {breaks : Bool}

theorem IsTag.settled {cs : List Char} {tag : Doc} (isTag : IsTag cs tag) : IsTag cs tag.settled := by
  obtain ⟨texts, content, -⟩ := texts_settled tag isTag.texts
  exact ⟨texts, content.trans isTag.content, isTag.ordinary, isTag.solid⟩

theorem Spells.settled {word : FillWord} {doc : Doc} (spells : doc.Spells ruler word) :
    doc.settled.Spells ruler word := by
  obtain ⟨texts, content, width⟩ := texts_settled doc spells.texts
  exact ⟨texts, content.trans spells.content, (width ruler).trans spells.width⟩

end

end Doc

section

variable {ruler : Ruler} {words : List FillWord} {parts : List Doc}

theorem Parting.settled {forced : Bool} {separator : Doc} (parting : Parting forced separator) :
    Parting forced separator.settled := by
  cases parting with
  | line => exact .line 0
  | hardline => exact .hardline 0 0 0

theorem Parting.plain {forced : Bool} {separator : Doc} (parting : Parting forced separator) :
    separator.hasChoice = false ∧ separator.forces = forced := by
  cases parting with
  | line => exact ⟨rfl, rfl⟩
  | hardline => exact ⟨rfl, rfl⟩

theorem Alternate.settled (alternate : Alternate ruler words parts) :
    Alternate ruler words (Doc.settledAll parts) := by
  induction alternate with
  | nil => exact .nil
  | single spells => exact .single spells.settled
  | cons spells parting _ ih => exact .cons spells.settled parting.settled ih

theorem Alternate.plain (alternate : Alternate ruler words parts) : Doc.anyHasChoice parts = false := by
  induction alternate with
  | nil => rfl
  | single spells => simp [Doc.anyHasChoice, (Doc.plain_of_isTexts _ spells.texts).1]
  | cons spells parting _ ih =>
    rw [Doc.anyHasChoice, (Doc.plain_of_isTexts _ spells.texts).1, Doc.anyHasChoice, parting.plain.1, ih]
    rfl

theorem Alternate.calm (alternate : Alternate ruler words parts) (free : ∀ word ∈ words, word.forced = false) :
    Doc.forcesAny parts = false := by
  induction alternate with
  | nil => rfl
  | single spells => simp [Doc.forcesAny, (Doc.plain_of_isTexts _ spells.texts).2]
  | @cons word next words doc separator other parts spells parting later ih =>
    obtain ⟨_, others⟩ := List.forall_mem_cons.mp free
    rw [Doc.forcesAny, (Doc.plain_of_isTexts _ spells.texts).2, Doc.forcesAny, parting.plain.2,
      others next List.mem_cons_self, ih others]
    rfl

end

namespace Doc

section

variable {ruler : Ruler} {tags : GroupId} {opening closing : Doc} {parts : List Doc} {words : List FillWord}
  {front back : List Char} {breaks : Bool}

theorem settled_enclosed (opens : opening.isTexts = true) :
    (enclosed tags opening breaks parts closing).settled =
      enclosed tags opening.settled breaks (settledAll parts) closing.settled := by
  have first : (breakIf breaks).settled = breakIf breaks := by cases breaks <;> rfl
  simp [enclosed, Doc.settled, settledAll, first, (plain_of_isTexts opening opens).2]

theorem hasChoice_enclosed (opens : opening.isTexts = true) (closes : closing.isTexts = true)
    (alternate : Alternate ruler words parts) :
    (enclosed tags opening breaks parts closing).hasChoice = false := by
  have first : (breakIf breaks).hasChoice = false := by cases breaks <;> rfl
  simp [enclosed, Doc.hasChoice, anyHasChoice, first, (plain_of_isTexts opening opens).1,
    (plain_of_isTexts closing closes).1, alternate.plain]

theorem forces_enclosed (opens : opening.isTexts = true) (closes : closing.isTexts = true)
    (alternate : Alternate ruler words parts) (free : breaks = false → ∀ word ∈ words, word.forced = false) :
    (enclosed tags opening breaks parts closing).forces = breaks := by
  cases breaks with
  | true => simp [enclosed, Doc.forces, forcesAny, breakIf]
  | false =>
    simp [enclosed, Doc.forces, forcesAny, breakIf, (plain_of_isTexts opening opens).2,
      (plain_of_isTexts closing closes).2, alternate.calm (free rfl)]

/-- An element without forced lines is level. Its columns are those of its tags and those of the words on one line. -/
theorem level_enclosed {word : FillWord} {later : List FillWord} (opens : IsTag front opening)
    (closes : IsTag back closing) (alternate : Alternate ruler (word :: later) parts)
    (free : ∀ other ∈ word :: later, other.forced = false) :
    (enclosed tags opening false parts closing).isLevel {} = true ∧
      (enclosed tags opening false parts closing).levelWidth ruler = totalColumns ruler front +
        (⟨0, word, later⟩ : WordLine).width ruler + totalColumns ruler back := by
  obtain ⟨level, width⟩ := @Alternate.level ruler {} _ _ alternate free
  constructor
  · simp [enclosed, breakIf, isLevel, areLevel, BreakSet.isBroken_empty, LineKind.isHard, level,
      isLevel_of_isTexts _ opens.texts, isLevel_of_isTexts _ closes.texts]
  · have empty : displayWidth "" ruler = 0 := rfl
    simp only [enclosed, breakIf, levelWidth, levelWidths, opens.width ruler, closes.width ruler,
      width word later rfl, empty, if_neg Bool.false_ne_true]
    omega

end

end Doc

namespace RenderContext

variable {context : RenderContext} {state : RenderState} {indentation : Indentation} {mode : Mode} {rest : List Command}

/-! ### Single steps -/

theorem run_concat (mark : Mark) (parts : List Doc) :
    context.run state (⟨indentation, mode, .concat mark parts⟩ :: rest) =
      context.run state (parts.map (⟨indentation, mode, ·⟩) ++ rest) :=
  run_eq_of_reaches (.step (.refl _))

theorem run_indent (mark : Mark) (body : Doc) :
    context.run state (⟨indentation, mode, .indent mark body⟩ :: rest) =
      context.run state (⟨indentation.indent context.config, mode, body⟩ :: rest) :=
  run_eq_of_reaches (.step (.refl _))

theorem run_breakIf (breaks : Bool) :
    context.run state (⟨indentation, mode, Doc.breakIf breaks⟩ :: rest) = context.run state rest := by
  cases breaks with
  | false => exact run_texts _ state indentation mode rest rfl List.not_mem_nil
  | true => exact run_eq_of_reaches (.step (.refl _))

theorem run_flatSoftline (mark : Mark) :
    context.run state (⟨indentation, .flat, .line mark .soft⟩ :: rest) = context.run state rest :=
  run_eq_of_reaches (.step (.refl _))

theorem run_brokenSoftline (mark : Mark) :
    context.run state (⟨indentation, .broken, .line mark .soft⟩ :: rest) =
      context.run (context.breakLine state .soft indentation) rest :=
  run_eq_of_reaches (.step (.refl _))

theorem exists_run_group (context : RenderContext) (state : RenderState) (indentation : Indentation) (mode : Mode)
    (rest : List Command) (info : GroupInfo) (body : Doc) :
    ∃ opened, context.run state (⟨indentation, mode, .group 0 info body⟩ :: rest) =
        context.run opened (⟨indentation,
          context.groupMode state rest ⟨indentation, mode, .group 0 info body⟩ 0 info body, body⟩ :: rest) ∧
      opened.out = state.out ∧ opened.column = state.column ∧
      (state.remeasure = false → opened.remeasure = false) := by
  let opened := context.openGroup state rest ⟨indentation, mode, .group 0 info body⟩ 0 info body []
  refine ⟨opened.1, ?_, rfl, rfl, fun fresh => by simp [opened, openGroup, fresh]⟩
  have chosen : opened.2 = ⟨indentation,
      context.groupMode state rest ⟨indentation, mode, .group 0 info body⟩ 0 info body, body⟩ :=
    openGroup_nil 0 info body
  rw [run_cons, ← chosen]
  rfl

/-- What stands in groups that are all laid out in one mode is laid out in this mode. -/
theorem exists_run_wraps {mustBreak : Bool} {inner doc : Doc} (wraps : Doc.Wraps mustBreak inner doc)
    (fresh : state.remeasure = false)
    (stays : ∀ (other : RenderState) (id : Option GroupId) (body : Doc), other.column = state.column →
      other.remeasure = false → Doc.Wraps mustBreak inner body →
      context.groupMode other rest ⟨indentation, mode, .group 0 ⟨id, mustBreak⟩ body⟩ 0 ⟨id, mustBreak⟩ body = mode) :
    ∃ after, context.run state (⟨indentation, mode, doc⟩ :: rest) =
        context.run after (⟨indentation, mode, inner⟩ :: rest) ∧
      after.out = state.out ∧ after.column = state.column := by
  induction wraps generalizing state with
  | here => exact ⟨state, rfl, rfl, rfl⟩
  | concat _ ih =>
    rw [run_concat]
    exact ih fresh stays
  | @group body id wraps ih =>
    -- Opening a group writes nothing, so the groups inside it are measured from the same column.
    obtain ⟨opened, ran, out, column, kept⟩ := context.exists_run_group state indentation mode rest ⟨id, mustBreak⟩ body
    rw [stays state id body rfl fresh wraps] at ran
    obtain ⟨after, later, outAfter, columnAfter⟩ := ih (kept fresh) fun other id body same =>
      stays other id body (same.trans column)
    exact ⟨after, ran.trans later, outAfter.trans out, columnAfter.trans column⟩

/-! ### Elements -/

theorem indent_none (config : Config) (spaces : config.useTabs = false) :
    (Indentation.none.indent config).value.toList = List.replicate config.tabWidth ' ' ∧
      (Indentation.none.indent config).length = config.tabWidth := by
  simp [Indentation.indent, Indentation.push, Indentation.ofSteps, Indentation.none, Indentation.Replay.step,
    Indentation.Replay.flush, Indentation.Replay.flushSpaces, Indentation.Replay.addSpaces, Indentation.Replay.run,
    spaces]

section

variable {tags : GroupId} {opening closing inner : Doc} {breaks : Bool} {parts : List Doc} {front back : List Char}
  {word : FillWord} {later : List FillWord}

/-- The opening tag is written in whatever mode, and the fill is next, with a line on each side. -/
theorem exists_run_opening (opens : Doc.IsTag front opening) (state : RenderState) (mode : Mode)
    (rest : List Command) :
    ∃ opened : RenderState,
      context.run state (⟨.none, mode, Doc.enclosed tags opening breaks parts closing⟩ :: rest) =
        context.run opened (⟨Indentation.none.indent context.config, mode, .line 0 .soft⟩ ::
          ⟨Indentation.none.indent context.config, mode, .concat 0 [.fill 0 parts]⟩ ::
          ⟨.none, mode, .line 0 .soft⟩ :: ⟨.none, mode, closing⟩ :: rest) ∧
      opened.out.chars = state.out.chars ++ front ∧
      opened.column = state.column + totalColumns context.config.ruler front := by
  let body : Doc :=
    .concat 0 [Doc.breakIf breaks, .indent 0 (.concat 0 [.line 0 .soft, .concat 0 [.fill 0 parts]]), .line 0 .soft]
  obtain ⟨grouped, ran, out, column, -⟩ := context.exists_run_group state .none mode
    (⟨.none, mode, body⟩ :: ⟨.none, mode, closing⟩ :: rest) ⟨some tags, false⟩ opening
  refine ⟨grouped.wrote opening.content (opening.levelWidth context.config.ruler), ?_, ?_, ?_⟩
  · rw [Doc.enclosed, run_concat]
    simp only [List.map_cons, List.map_nil, List.cons_append, List.nil_append]
    rw [ran, run_texts opening grouped _ _ _ opens.texts opens.clean, run_concat]
    simp only [List.map_cons, List.map_nil, List.cons_append, List.nil_append]
    rw [run_breakIf, run_indent, run_concat]
    rfl
  · rw [RenderState.chars_wrote, out, opens.content]
  · rw [RenderState.column_wrote, column, opens.width context.config.ruler]

/-- The closing tag ends what is written, together with a line. -/
theorem chars_run_closing (closes : Doc.IsTag back closing) (state : RenderState) (mode : Mode)
    (lf : context.config.lineEnding = .lf) :
    (context.run state [⟨.none, mode, closing⟩, ⟨.none, .broken, Doc.forcedBreak⟩]).out.chars =
      state.out.chars ++ back ++ ['\n'] := by
  rw [run_texts closing state _ _ _ closes.texts closes.clean, Doc.forcedBreak, out_run_hardline,
    Emitter.newline, Emitter.chars_emit, Emitter.chars_trim, RenderState.chars_wrote, closes.content,
    Text.dropEnd_of_last (closes.solid_append _), lf]
  rfl

/-- An element that is broken has its tags on lines of their own, and the lines of the fill between them. -/
theorem chars_run_broken (lf : context.config.lineEnding = .lf) (spaces : context.config.useTabs = false)
    (opens : Doc.IsTag front opening)
    (alternate : Alternate context.config.ruler (word :: later) parts)
    (clean : ∀ other ∈ word :: later, '\n' ∉ other.content.toList)
    (closes : Doc.IsTag back closing)
    (told : (∀ other ∈ later, other.forced = true) ∨
      context.config.Tells (elementColumns context.config front (word :: later) back))
    {state : RenderState} (empty : state.out = {}) :
    (context.run state [⟨.none, .broken, Doc.enclosed tags opening breaks parts closing⟩,
        ⟨.none, .broken, Doc.forcedBreak⟩]).out.chars =
      front ++ ['\n'] ++ ['\n'].intercalate ((wrapAfter context.config context.config.tabWidth
        ⟨context.config.tabWidth, word, []⟩ later).map (dropEnd isLineBlank ·.text)) ++ ['\n'] ++ back ++ ['\n'] := by
  obtain ⟨opened, ranOpening, charsOpened, -⟩ :=
    @exists_run_opening context tags opening closing breaks parts _ opens state .broken
      [⟨.none, .broken, Doc.forcedBreak⟩]
  obtain ⟨indented, columns⟩ := indent_none context.config spaces
  let broken := context.breakLine opened .soft (Indentation.none.indent context.config)
  have charsBroken : broken.out.chars = front ++ ['\n'] ++ List.replicate context.config.tabWidth ' ' := by
    rw [chars_breakLine (by decide : LineKind.soft ≠ .literal), charsOpened, empty,
      Text.dropEnd_of_last (opens.solid_append _), lf, indented]
    rfl
  have written : broken.out.chars ++ word.content.toList =
      front ++ ['\n'] ++ (⟨context.config.tabWidth, word, []⟩ : WordLine).text := by
    simp [charsBroken, WordLine.text]
  have column : broken.column + displayWidth word.content context.config.ruler =
      (⟨context.config.tabWidth, word, []⟩ : WordLine).width context.config.ruler := by
    show (Indentation.none.indent context.config).length + _ = _
    rw [columns]
    rfl
  have onLine : (⟨context.config.tabWidth, word, []⟩ : WordLine).width context.config.ruler +
      wordColumns context.config.ruler later ≤ elementColumns context.config front (word :: later) back := by
    rw [← column, elementColumns, wordColumns_cons]
    show (Indentation.none.indent context.config).length + _ + _ ≤ _
    rw [columns]
    omega
  have onNext : context.config.tabWidth + wordColumns context.config.ruler later ≤
      elementColumns context.config front (word :: later) back := by
    rw [elementColumns, wordColumns_cons]
    omega
  -- The first line of the fill begins behind a line ending, so no blank before it is taken back with its own.
  have solid : ∀ c ∈ (front ++ ['\n']).getLast?, isLineBlank c = false := by
    intro c member
    rw [List.getLast?_concat] at member
    exact Option.some.inj member ▸ rfl
  obtain ⟨filled, ranFill, charsFilled⟩ := @exists_run_fill context _ (Indentation.none.indent context.config) .broken
    _ _ _ _ 0 indented columns alternate clean _ _ rfl _ _ solid written column told onLine onNext
    [⟨.none, .broken, .line 0 .soft⟩, ⟨.none, .broken, closing⟩, ⟨.none, .broken, Doc.forcedBreak⟩]
  rw [ranOpening, run_brokenSoftline, run_concat]
  simp only [List.map_cons, List.map_nil, List.cons_append, List.nil_append]
  rw [ranFill, run_brokenSoftline, chars_run_closing closes _ _ lf,
    chars_breakLine (by decide : LineKind.soft ≠ .literal), charsFilled, lf]
  obtain ⟨head, lines, wraps, -⟩ := exists_wrapAfter context.config context.config.tabWidth
    ⟨context.config.tabWidth, word, []⟩ later
  have nonempty : (wrapAfter context.config context.config.tabWidth
      ⟨context.config.tabWidth, word, []⟩ later).map WordLine.text ≠ [] := by
    simp [wraps]
  have ends := dropEnd_intercalate_trimEnded nonempty solid
  rw [List.map_map] at ends
  show dropEnd isLineBlank (front ++ ['\n'] ++ ['\n'].intercalate _) ++ ['\n'] ++ [] ++ back ++ ['\n'] = _
  rw [ends, List.append_nil]
  rfl

/-- An element that is flat stands on one line. -/
theorem chars_run_level (lf : context.config.lineEnding = .lf) (spaces : context.config.useTabs = false)
    (opens : Doc.IsTag front opening)
    (alternate : Alternate context.config.ruler (word :: later) parts)
    (free : ∀ other ∈ word :: later, other.forced = false) (solid : word.IsSolid)
    (clean : ∀ other ∈ word :: later, '\n' ∉ other.content.toList)
    (closes : Doc.IsTag back closing)
    (told : context.config.Tells (elementColumns context.config front (word :: later) back))
    (fits : totalColumns context.config.ruler front +
      (⟨0, word, later⟩ : WordLine).width context.config.ruler ≤ context.config.printWidth)
    {state : RenderState} (empty : state.out = {}) (start : state.column = 0) :
    (context.run state [⟨.none, .flat, Doc.enclosed tags opening breaks parts closing⟩,
        ⟨.none, .broken, Doc.forcedBreak⟩]).out.chars =
      front ++ (⟨0, word, later⟩ : WordLine).text ++ back ++ ['\n'] := by
  obtain ⟨opened, ranOpening, charsOpened, columnOpened⟩ :=
    @exists_run_opening context tags opening closing breaks parts _ opens state .flat
      [⟨.none, .broken, Doc.forcedBreak⟩]
  obtain ⟨indented, columns⟩ := indent_none context.config spaces
  -- The opening tag and the first word count as one word, with which the line begins.
  let together : FillWord := ⟨false, String.ofList (front ++ word.content.toList)⟩
  have atFront : opened.out.chars = front := by
    rw [charsOpened, empty]
    rfl
  have written : opened.out.chars ++ word.content.toList = [] ++ (⟨0, together, []⟩ : WordLine).text := by
    simp [atFront, WordLine.text, together]
  have column : opened.column + displayWidth word.content context.config.ruler =
      (⟨0, together, []⟩ : WordLine).width context.config.ruler := by
    obtain ⟨ordinary, columnsWord⟩ := totalColumns_word solid context.config.ruler
    have joined : displayWidth together.content context.config.ruler =
        totalColumns context.config.ruler front + displayWidth word.content context.config.ruler := by
      rw [Text.displayWidth_eq_totalColumns _ (Text.within_append opens.ordinary ordinary), Text.totalColumns_append,
        columnsWord]
    show opened.column + _ = 0 + displayWidth together.content context.config.ruler
    rw [joined, columnOpened, start]
    omega
  have nothing : ∀ c ∈ ([] : List Char).getLast?, isLineBlank c = false := by simp
  have onLine : (⟨0, together, []⟩ : WordLine).width context.config.ruler + wordColumns context.config.ruler later ≤
      elementColumns context.config front (word :: later) back := by
    rw [← column, columnOpened, start, elementColumns, wordColumns_cons]
    omega
  have onNext : context.config.tabWidth + wordColumns context.config.ruler later ≤
      elementColumns context.config front (word :: later) back := by
    rw [elementColumns, wordColumns_cons]
    omega
  obtain ⟨filled, ranFill, charsFilled⟩ := @exists_run_fill context _ (Indentation.none.indent context.config) .flat
    _ _ _ _ 0 indented columns alternate clean _ _ rfl _ _ nothing written column (.inr told) onLine onNext
    [⟨.none, .flat, .line 0 .soft⟩, ⟨.none, .flat, closing⟩, ⟨.none, .broken, Doc.forcedBreak⟩]
  have whole : wrapAfter context.config context.config.tabWidth ⟨0, together, []⟩ later = [⟨0, together, later⟩] := by
    refine wrapAfter_of_fits (List.forall_mem_cons.mp free).2 ?_
    rw [← column, columnOpened, start, Nat.zero_add, foldl_width]
    simpa only [WordLine.width, Nat.zero_add] using fits
  rw [ranOpening, run_flatSoftline, run_concat]
  simp only [List.map_cons, List.map_nil, List.cons_append, List.nil_append]
  rw [ranFill, run_flatSoftline, chars_run_closing closes _ _ lf, charsFilled, whole]
  simp [trimEnded, WordLine.text, together]

end

end RenderContext

/-! ### Rendering an element -/

namespace Doc.IsEnclosed

variable {config : Config} {doc tree : Doc} {word : FillWord} {later : List FillWord} {front back : List Char}
  {breaks : Bool}

/-- The settled tree is that of the element again, in groups that have to break if the element has to. -/
theorem exists_settled {ruler : Ruler} {words : List FillWord}
    (isEnclosed : IsEnclosed ruler front breaks words back tree)
    (free : breaks = false → ∀ other ∈ words, other.forced = false) :
    ∃ tags opening parts closing inner, tree.hasChoice = false ∧
      tree.settled = .concat 0 [.group 0 ⟨none, breaks⟩ inner, forcedBreak] ∧
      Wraps breaks (enclosed tags opening breaks parts closing) inner ∧ IsTag front opening ∧
      Alternate ruler words parts ∧ IsTag back closing := by
  obtain @⟨tags, _, _, inner, _, wraps, opens, alternate, closes⟩ := isEnclosed
  have forces := @forces_enclosed _ tags _ _ _ _ _ opens.texts closes.texts alternate free
  refine ⟨tags, _, _, _, inner.settled, ?_, ?_, ?_, opens.settled, alternate.settled, closes.settled⟩
  · simp [hasChoice, anyHasChoice, forcedBreak, wraps.hasChoice, hasChoice_enclosed opens.texts closes.texts alternate]
  · simp only [settled, settledAll, wraps.forces, forces, forcedBreak, Bool.false_or]
  · have inside := wraps.settled
    rwa [forces, settled_enclosed opens.texts] at inside

theorem fits {tags : GroupId} {opening closing body : Doc} {parts : List Doc}
    (wraps : Wraps false (enclosed tags opening false parts closing) body)
    (opens : IsTag front opening) (alternate : Alternate config.ruler (word :: later) parts)
    (closes : IsTag back closing) (free : ∀ other ∈ word :: later, other.forced = false)
    (told : config.Tells (elementColumns config front (word :: later) back))
    {state : RenderState} (atStart : state.column = 0) :
    (⟨config, {}⟩ : RenderContext).fits state false [⟨.none, .flat, body⟩, ⟨.none, .broken, forcedBreak⟩] =
      decide (totalColumns config.ruler front + (⟨0, word, later⟩ : WordLine).width config.ruler +
        totalColumns config.ruler back ≤ config.printWidth) := by
  obtain ⟨level, columns⟩ := wraps.level config.ruler
  obtain ⟨isLevel, width⟩ := @level_enclosed config.ruler tags opening closing parts front back _ _ opens closes
    alternate free
  have whole : state.column + body.levelWidth config.ruler = totalColumns config.ruler front +
      (⟨0, word, later⟩ : WordLine).width config.ruler + totalColumns config.ruler back := by
    rw [atStart, columns, width, Nat.zero_add]
  have tells : config.Tells (state.column + body.levelWidth config.ruler) := by
    have onLine : (⟨0, word, later⟩ : WordLine).width config.ruler =
        0 + displayWidth word.content config.ruler + wordColumns config.ruler later := WordLine.width_eq ..
    refine told.of_le ?_
    rw [whole, onLine, elementColumns, wordColumns_cons]
    omega
  rw [← whole]
  exact @RenderContext.fits_level ⟨config, {}⟩ state body (level.trans isLevel) tells false .none _ fun _ _ =>
    Lookahead.fits_forcedLine

/-- Where the element has to break or does not fit, the tags have lines of their own. -/
theorem render_breaks (isEnclosed : IsEnclosed config.ruler front breaks (word :: later) back tree)
    (apart : doc.MarksTellApart) (same : doc.unfolded = tree) (lf : config.lineEnding = .lf)
    (spaces : config.useTabs = false) (clean : ∀ other ∈ word :: later, '\n' ∉ other.content.toList)
    (told : (breaks = true ∧ ∀ other ∈ later, other.forced = true) ∨
      config.Tells (elementColumns config front (word :: later) back))
    (overflows : breaks = false → (∀ other ∈ word :: later, other.forced = false) ∧
      config.printWidth < totalColumns config.ruler front +
        (⟨0, word, later⟩ : WordLine).width config.ruler + totalColumns config.ruler back) :
    doc.render config = String.ofList (front ++ ['\n'] ++ ['\n'].intercalate ((wrapAfter config config.tabWidth
      ⟨config.tabWidth, word, []⟩ later).map (dropEnd isLineBlank ·.text)) ++ ['\n'] ++ back ++ ['\n']) := by
  obtain ⟨tags, opening, parts, closing, inner, plain, shape, wraps, opens, alternate, closes⟩ :=
    isEnclosed.exists_settled fun calm => (overflows calm).1
  let context : RenderContext := ⟨config, {}⟩
  let outside : List Command := [⟨.none, .broken, forcedBreak⟩]
  have stays (other : RenderState) (id : Option GroupId) (body : Doc) (column : other.column = 0)
      (inside : Wraps breaks (enclosed tags opening breaks parts closing) body) :
      context.groupMode other outside ⟨.none, .broken, .group 0 ⟨id, breaks⟩ body⟩ 0 ⟨id, breaks⟩ body = .broken := by
    unfold RenderContext.groupMode
    rw [BreakSet.isBroken_empty]
    cases breaks with
    | true => simp
    | false =>
      obtain ⟨free, wide⟩ := overflows rfl
      have tells := told.resolve_left fun forced => Bool.false_ne_true forced.1
      have misfit : context.fits other false (⟨.none, .flat, body⟩ :: outside) = false :=
        (fits inside opens alternate closes free tells column).trans (decide_eq_false (Nat.not_le_of_lt wide))
      simp [Command.on, misfit]
  obtain ⟨after, ran, out, -⟩ := @RenderContext.exists_run_wraps context {} .none .broken outside _ _ _
    (Wraps.group none wraps) rfl fun other id body column _ => stays other id body column
  rw [render_eq_of_unfolded apart same plain, shape, Emitter.text, RenderContext.run_concat]
  simp only [List.map_cons, List.map_nil, List.cons_append, List.nil_append]
  rw [ran, RenderContext.chars_run_broken lf spaces opens alternate clean closes (told.imp_left And.right) out]

/-- Where the element fits, it stands on one line. -/
theorem render_fits (isEnclosed : IsEnclosed config.ruler front false (word :: later) back tree)
    (apart : doc.MarksTellApart) (same : doc.unfolded = tree) (lf : config.lineEnding = .lf)
    (spaces : config.useTabs = false) (clean : ∀ other ∈ word :: later, '\n' ∉ other.content.toList)
    (free : ∀ other ∈ word :: later, other.forced = false) (solid : word.IsSolid)
    (told : config.Tells (elementColumns config front (word :: later) back))
    (room : totalColumns config.ruler front + (⟨0, word, later⟩ : WordLine).width config.ruler +
      totalColumns config.ruler back ≤ config.printWidth) :
    doc.render config =
      String.ofList (front ++ (⟨0, word, later⟩ : WordLine).text ++ back ++ ['\n']) := by
  obtain ⟨tags, opening, parts, closing, inner, plain, shape, wraps, opens, alternate, closes⟩ :=
    isEnclosed.exists_settled fun _ => free
  let context : RenderContext := ⟨config, {}⟩
  let outside : List Command := [⟨.none, .broken, forcedBreak⟩]
  obtain ⟨opened, ranGroup, outOpened, columnOpened, fresh⟩ :=
    context.exists_run_group {} .none .broken outside ⟨none, false⟩ inner
  have flat : context.groupMode {} outside ⟨.none, .broken, .group 0 ⟨none, false⟩ inner⟩ 0 ⟨none, false⟩ inner =
      .flat := by
    have fit : context.fits {} false (⟨.none, .flat, inner⟩ :: outside) = true :=
      (fits wraps opens alternate closes free told rfl).trans (decide_eq_true room)
    unfold RenderContext.groupMode
    rw [BreakSet.isBroken_empty]
    simp [Command.on, fit]
  have stays (other : RenderState) (id : Option GroupId) (body : Doc) (fresh : other.remeasure = false) :
      context.groupMode other outside ⟨.none, .flat, .group 0 ⟨id, false⟩ body⟩ 0 ⟨id, false⟩ body = .flat := by
    unfold RenderContext.groupMode
    rw [BreakSet.isBroken_empty]
    simp [fresh]
  obtain ⟨after, ran, out, column⟩ := @RenderContext.exists_run_wraps context opened .none .flat outside _ _ _ wraps
    (fresh rfl) fun other id body _ fresh _ => stays other id body fresh
  rw [flat] at ranGroup
  rw [render_eq_of_unfolded apart same plain, shape, Emitter.text, RenderContext.run_concat]
  simp only [List.map_cons, List.map_nil, List.cons_append, List.nil_append]
  rw [ranGroup, ran, RenderContext.chars_run_level lf spaces opens alternate free solid clean closes told
    (Nat.le_trans (Nat.le_add_right _ _) room) (out.trans outOpened) (column.trans columnOpened)]

end Doc.IsEnclosed

end MarkupFormat.Layout
