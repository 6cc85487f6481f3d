import MarkupFormat.Layout.Render
import MarkupFormat.Proofs.Layout.Built
import MarkupFormat.Proofs.Layout.Inked
import MarkupFormat.Proofs.Text.LineEndings

/-!
# Documents that are laid out in one way only

A document of texts and literal lines leaves nothing to the renderer: wherever it stands and whatever surrounds it,
the same characters are written (`run_of_verbatim?`).
-/

namespace MarkupFormat.Layout

open Text (writtenChars writtenChars_append)

namespace Doc

mutual

/-- The characters of a document that is made of texts and literal lines, with a line feed for each line. -/
def verbatim? : Doc → Option (List Char)
  | text _ content => some content.toList
  | line _ .literal => some ['\n']
  | breakParent _ => some []
  | group _ _ body => body.verbatim?
  | concat _ parts => verbatimAll? parts
  | _ => none

/-- The characters of several documents in order. -/
def verbatimAll? : List Doc → Option (List Char)
  | [] => some []
  | doc :: docs => do return (← doc.verbatim?) ++ (← verbatimAll? docs)

end

theorem verbatimAll?_cons_eq_some {doc : Doc} {docs : List Doc} {cs : List Char} :
    verbatimAll? (doc :: docs) = some cs ↔
      ∃ first others, doc.verbatim? = some first ∧ verbatimAll? docs = some others ∧ cs = first ++ others := by
  simp only [verbatimAll?, Option.bind_eq_bind, Option.bind_eq_some_iff, Option.pure_def, Option.some.injEq]
  constructor
  · rintro ⟨first, here, others, there, rfl⟩
    exact ⟨first, others, here, there, rfl⟩
  · rintro ⟨first, others, here, there, rfl⟩
    exact ⟨first, here, others, there, rfl⟩

theorem verbatimAll?_singleton {doc : Doc} {cs : List Char} (same : doc.verbatim? = some cs) :
    verbatimAll? [doc] = some cs :=
  verbatimAll?_cons_eq_some.mpr ⟨cs, [], same, rfl, (List.append_nil cs).symm⟩

theorem verbatimAll?_append {docs more : List Doc} {cs ds : List Char} (first : verbatimAll? docs = some cs)
    (second : verbatimAll? more = some ds) : verbatimAll? (docs ++ more) = some (cs ++ ds) := by
  induction docs generalizing cs with
  | nil =>
    cases first
    exact second
  | cons doc docs ih =>
    obtain ⟨here, others, isHere, rest, rfl⟩ := verbatimAll?_cons_eq_some.mp first
    exact verbatimAll?_cons_eq_some.mpr ⟨here, others ++ ds, isHere, ih rest, List.append_assoc ..⟩

theorem verbatimAll?_of_forall₂ {parts : List Doc} {texts : List (List Char)}
    (each : List.Forall₂ (fun text part => part.verbatim? = some text) texts parts) :
    verbatimAll? parts = some texts.flatten := by
  induction each with
  | nil => rfl
  | cons here _ ih => exact verbatimAll?_cons_eq_some.mpr ⟨_, _, here, ih, rfl⟩

theorem verbatimAll?_intersperse {separator : Doc} (line : separator.verbatim? = some ['\n']) {docs : List Doc}
    {lines : List (List Char)} (each : List.Forall₂ (fun text doc => doc.verbatim? = some text) lines docs) :
    verbatimAll? (docs.intersperse separator) = some (['\n'].intercalate lines) := by
  induction each with
  | nil => rfl
  | @cons first doc lines docs here rest ih =>
    cases rest with
    | nil => exact verbatimAll?_cons_eq_some.mpr ⟨_, _, here, rfl, rfl⟩
    | @cons second next lines docs there rest =>
      rw [List.intersperse_cons_cons, List.intercalate_cons_cons, List.append_assoc]
      have others := verbatimAll?_cons_eq_some.mpr ⟨_, _, line, ih, rfl⟩
      exact verbatimAll?_cons_eq_some.mpr ⟨_, _, here, others, rfl⟩

end Doc

/-! ### Rendering -/

namespace RenderContext

variable {context : RenderContext}

theorem run_cons (context : RenderContext) (state : RenderState) (command : Command) (rest : List Command) :
    context.run state (command :: rest) =
      context.run (context.renderStep state rest command).1 ((context.renderStep state rest command).2 ++ rest) := by
  rw [run]

/-- A group without alternatives lays out its body, in one mode or the other, and writes nothing itself. -/
theorem openGroup_body (state : RenderState) (rest : List Command) (command : Command) (mark : Mark) (info : GroupInfo)
    (body : Doc) :
    (context.openGroup state rest command mark info body []).1.out = state.out ∧
      ∃ mode, (context.openGroup state rest command mark info body []).2 = command.on mode body := by
  unfold openGroup
  refine ⟨rfl, ?_⟩
  dsimp only
  split
  · unfold chooseMeasured
    dsimp only
    split
    · exact ⟨.flat, rfl⟩
    · exact ⟨.broken, rfl⟩
  · exact ⟨_, rfl⟩

mutual

theorem run_of_verbatim? : ∀ (doc : Doc) (state : RenderState) (indentation : Indentation) (mode : Mode)
    (rest : List Command) {cs : List Char}, doc.verbatim? = some cs → indentation.root = none →
    ∃ after, context.run state (⟨indentation, mode, doc⟩ :: rest) = context.run after rest ∧
      after.out.chars = state.out.chars ++ writtenChars context.config.lineEnding cs
  | .text mark content, state, indentation, mode, rest, cs, same, _ => by
    cases same
    refine ⟨context.writeText state content, run_cons .., ?_⟩
    rw [writeText, Emitter.chars_emit, Text.toList_writeLineEndings]
  | .line mark .literal, state, indentation, mode, rest, cs, same, root => by
    cases same
    refine ⟨context.writeLine state .literal indentation mode, run_cons .., ?_⟩
    have written : writtenChars context.config.lineEnding ['\n'] = context.config.lineEnding.text.toList :=
      List.append_nil _
    cases mode <;> simp [writeLine, breakLine, root, Emitter.newline, written]
  | .breakParent mark, state, indentation, mode, rest, cs, same, _ => by
    cases same
    exact ⟨state, run_cons .., (List.append_nil _).symm⟩
  | .group mark info body, state, indentation, mode, rest, cs, same, root => by
    let command : Command := ⟨indentation, mode, .group mark info body⟩
    have opened : (context.openGroup state rest command mark info body []).1.out = state.out ∧ _ :=
      openGroup_body state rest command mark info body
    obtain ⟨kept, chosenMode, chosen⟩ := opened
    obtain ⟨after, ran, written⟩ := run_of_verbatim? body
      (context.openGroup state rest command mark info body []).1 indentation chosenMode rest same root
    refine ⟨after, ?_, by rw [written, kept]⟩
    rw [run_cons, ← ran]
    unfold renderStep
    dsimp only
    rw [chosen]
    rfl
  | .concat mark parts, state, indentation, mode, rest, cs, same, root => by
    obtain ⟨after, ran, written⟩ := run_of_verbatimAll? parts state indentation mode rest same root
    refine ⟨after, ?_, written⟩
    rw [run_cons, ← ran]
    rfl

theorem run_of_verbatimAll? : ∀ (docs : List Doc) (state : RenderState) (indentation : Indentation) (mode : Mode)
    (rest : List Command) {cs : List Char}, Doc.verbatimAll? docs = some cs → indentation.root = none →
    ∃ after, context.run state (docs.map (Command.mk indentation mode) ++ rest) = context.run after rest ∧
      after.out.chars = state.out.chars ++ writtenChars context.config.lineEnding cs
  | [], state, indentation, mode, rest, cs, same, _ => by
    cases same
    exact ⟨state, rfl, (List.append_nil _).symm⟩
  | doc :: docs, state, indentation, mode, rest, cs, same, root => by
    obtain ⟨first, others, here, there, rfl⟩ := Doc.verbatimAll?_cons_eq_some.mp same
    obtain ⟨middle, ran, written⟩ := run_of_verbatim? doc state indentation mode
      (docs.map (Command.mk indentation mode) ++ rest) here root
    obtain ⟨after, ranOthers, writtenOthers⟩ := run_of_verbatimAll? docs middle indentation mode rest there root
    refine ⟨after, ran.trans ranOthers, ?_⟩
    rw [writtenOthers, written, writtenChars_append, List.append_assoc]

end

end RenderContext

/-- Whatever is laid out before a document and after it, and however, the document adds these characters. Lines begin at
the margin. -/
def Doc.Writes (doc : Doc) (cs : List Char) : Prop :=
  ∀ (context : RenderContext) (state : RenderState) (indentation : Indentation) (mode : Mode) (rest : List Command),
    indentation.root = none → ∃ after, context.run state (⟨indentation, mode, doc⟩ :: rest) = context.run after rest ∧
      after.out.chars = state.out.chars ++ writtenChars context.config.lineEnding cs

theorem Doc.writes_of_verbatim? {doc : Doc} {cs : List Char} (same : doc.verbatim? = some cs) : doc.Writes cs :=
  fun _ state indentation mode rest root => RenderContext.run_of_verbatim? doc state indentation mode rest same root

/-! ### Building -/

namespace Build

theorem yields_of_makes {ε α : Type} {build : StateT Supply (Except ε) α} {holds : α → Prop}
    (makes : Makes build holds) : Yields build holds := by
  intro supply result ran
  obtain ⟨made, same, here⟩ := makes supply
  rwa [← Except.ok.inj (same.symm.trans ran)]

/-- A document is made that is laid out to these characters only. -/
abbrev Lays (build : Build Doc) (cs : List Char) : Prop :=
  Makes build fun doc => doc.verbatim? = some cs

theorem lays_text (content : String) : Lays (text content) content.toList :=
  makes_bind makes_freshMark fun _ _ => makes_pure rfl

theorem lays_concat {parts : List Doc} {cs : List Char} (all : Doc.verbatimAll? parts = some cs) :
    Lays (concat parts) cs :=
  makes_bind makes_freshMark fun _ _ => makes_pure all

theorem lays_group {body : Doc} {cs : List Char} (inside : body.verbatim? = some cs) : Lays (group body) cs :=
  makes_bind makes_freshMark fun _ _ => makes_pure inside

theorem lays_seq {parts : List (Build Doc)} {texts : List (List Char)} (each : List.Forall₂ Lays parts texts) :
    Lays (seq parts) texts.flatten := by
  have made : Makes (parts.mapM id)
      (List.Forall₂ (fun text part => Doc.verbatim? part = some text) texts) := by
    induction each with
    | nil => exact makes_pure .nil
    | cons first _ ih =>
      rw [List.mapM_cons]
      exact makes_bind first fun _ here => makes_bind ih fun _ others => makes_pure (.cons here others)
  exact makes_bind made fun _ all => lays_concat (Doc.verbatimAll?_of_forall₂ all)

theorem lays_literalline : Lays literalline ['\n'] := by
  refine makes_bind (makes_bareLine .literal) fun _ isLine => makes_bind makes_breakParent fun _ isBreak => ?_
  obtain ⟨_, rfl⟩ := isLine
  obtain ⟨_, rfl⟩ := isBreak
  exact lays_concat rfl

theorem lays_splitLines (content : String) {separator : Doc} (line : separator.verbatim? = some ['\n']) :
    Makes (splitLines content separator) fun docs => Doc.verbatimAll? docs = some content.toList := by
  have lines : Makes ((Text.splitOn (· = '\n') content).mapM text)
      (List.Forall₂ (fun text doc => Doc.verbatim? doc = some text)
        (Text.splitOnChars (· = '\n') content.toList)) := by
    have each : Makes ((Text.splitOn (· = '\n') content).mapM text)
        (List.Forall₂ (fun piece doc => Doc.verbatim? doc = some piece.toList)
          (Text.splitOn (· = '\n') content)) := makes_mapM fun piece _ => lays_text piece
    refine each.mono fun docs all => ?_
    unfold Text.splitOn at all
    rw [List.forall₂_map_left_iff] at all
    simpa only [String.toList_ofList] using all
  unfold splitLines
  refine makes_bind lines fun docs all => makes_pure ?_
  rw [Doc.verbatimAll?_intersperse line all, Text.intercalate_splitOnChars]

theorem lays_replaceLineEndings {mark : Mark} {content : String} {replacement : Doc}
    (line : replacement.verbatim? = some ['\n']) :
    Lays ((Doc.text mark content).replaceLineEndings replacement) content.toList := by
  unfold Doc.replaceLineEndings
  dsimp only
  rw [transform_text, bind_assoc]
  have applied : Lays (if '\n' ∈ content.toList then do concat (← splitLines content replacement)
      else return .text mark content) content.toList := by
    split
    · exact makes_bind (lays_splitLines content line) fun _ all => lays_concat all
    · exact makes_pure rfl
  exact makes_bind applied fun _ here => makes_pure here

end Build

end MarkupFormat.Layout
