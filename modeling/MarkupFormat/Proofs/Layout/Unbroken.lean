import MarkupFormat.Proofs.Layout.Moments
import MarkupFormat.Proofs.Text.LineEndings

/-!
# Documents without lines

A document that has no place for a line break is written as its texts stand in it, however its groups
are laid out. `render_line` gives what such a document and a line after it are rendered as.
-/

namespace MarkupFormat.Layout

open Text (LineEnding isLineBlank writtenChars)

namespace Doc

mutual

/-- Whether a document is made up of texts alone. -/
def isUnbroken : Doc → Bool
  | text .. => true
  | concat _ parts => areUnbroken parts
  | group _ _ body | indent _ body | align _ _ body | label _ _ body => body.isUnbroken
  | _ => false

def areUnbroken : List Doc → Bool
  | [] => true
  | doc :: docs => doc.isUnbroken && areUnbroken docs

end

mutual

/-- The texts of a document in order. -/
def content : Doc → List Char
  | text _ content => content.toList
  | concat _ parts => contents parts
  | group _ _ body | indent _ body | align _ _ body | label _ _ body => body.content
  | _ => []

def contents : List Doc → List Char
  | [] => []
  | doc :: docs => doc.content ++ contents docs

end

end Doc

namespace RenderContext

variable {context : RenderContext} {state : RenderState} {rest : List Command}

/-- What was written is followed by a text. -/
def Writes (context : RenderContext) (state : RenderState) (pending rest : List Command)
    (content : List Char) : Prop :=
  ∃ after, context.Reaches ⟨state, pending⟩ ⟨after, rest⟩ ∧
    after.out.chars = state.out.chars ++ writtenChars context.config.lineEnding content

theorem Writes.step {command : Command} {content : List Char}
    (writes : context.Writes (context.advance state command rest).state
      (context.advance state command rest).pending rest content)
    (same : (context.advance state command rest).state.out = state.out) :
    context.Writes state (command :: rest) rest content := by
  obtain ⟨after, reached, chars⟩ := writes
  rw [same] at chars
  exact ⟨after, .step reached, chars⟩

theorem chosen_openGroup (context : RenderContext) (state : RenderState) (rest : List Command)
    (command : Command) (mark : Mark) (info : GroupInfo) (body : Doc) :
    ∃ mode, (context.openGroup state rest command mark info body []).2 = command.on mode body := by
  unfold openGroup chooseMeasured
  dsimp only [List.getLast?]
  split
  · split
    · exact ⟨.flat, rfl⟩
    · exact ⟨.broken, rfl⟩
  · exact ⟨_, rfl⟩

theorem Writes.append {pending between : List Command} {content more : List Char}
    (first : context.Writes state pending between content)
    (second : ∀ after, context.Writes after between rest more) :
    context.Writes state pending rest (content ++ more) := by
  obtain ⟨middle, reached, chars⟩ := first
  obtain ⟨after, later, written⟩ := second middle
  refine ⟨after, reached.trans later, ?_⟩
  rw [written, chars, Text.writtenChars_append, List.append_assoc]

mutual

theorem writes_unbroken : ∀ (doc : Doc) (state : RenderState) (indentation : Indentation) (mode : Mode)
    (rest : List Command), doc.isUnbroken = true →
    context.Writes state (⟨indentation, mode, doc⟩ :: rest) rest doc.content
  | .text mark content, state, indentation, mode, rest, _ => by
    refine ⟨context.writeText state content, .step (.refl _), ?_⟩
    unfold writeText
    rw [Emitter.chars_emit, Text.toList_writeLineEndings]
    rfl
  | .concat mark parts, state, indentation, mode, rest, unbroken =>
    .step (writesAll_unbroken parts state ⟨indentation, mode, .concat mark parts⟩ mode rest unbroken) rfl
  | .group mark info body, state, indentation, mode, rest, unbroken => by
    obtain ⟨chosen, same⟩ := chosen_openGroup context state rest
      ⟨indentation, mode, .group mark info body⟩ mark info body
    refine .step ?_ rfl
    show context.Writes (context.openGroup state rest _ mark info body []).1
      ((context.openGroup state rest _ mark info body []).2 :: rest) rest body.content
    rw [same]
    exact writes_unbroken body _ indentation chosen rest unbroken
  | .indent mark body, state, indentation, mode, rest, unbroken =>
    .step (writes_unbroken body state _ mode rest unbroken) rfl
  | .align mark kind body, state, indentation, mode, rest, unbroken =>
    .step (writes_unbroken body state _ mode rest unbroken) rfl
  | .label mark name body, state, indentation, mode, rest, unbroken =>
    .step (writes_unbroken body state indentation mode rest unbroken) rfl
  | .choice .., _, _, _, _, unbroken | .fill .., _, _, _, _, unbroken | .line .., _, _, _, _, unbroken
  | .breakParent .., _, _, _, _, unbroken | .ifBreak .., _, _, _, _, unbroken
  | .indentIfBreak .., _, _, _, _, unbroken | .trim .., _, _, _, _, unbroken => nomatch unbroken

theorem writesAll_unbroken : ∀ (docs : List Doc) (state : RenderState) (command : Command) (mode : Mode)
    (rest : List Command), Doc.areUnbroken docs = true →
    context.Writes state (docs.map (command.on mode) ++ rest) rest (Doc.contents docs)
  | [], state, command, mode, rest, _ => ⟨state, .refl _, by simp [Doc.contents, writtenChars]⟩
  | doc :: docs, state, command, mode, rest, unbroken => by
    simp only [Doc.areUnbroken, Bool.and_eq_true] at unbroken
    exact (writes_unbroken doc state command.indentation mode _ unbroken.1).append fun after =>
      writesAll_unbroken docs after command mode rest unbroken.2

end

/-- A line at the end drops the blanks before it. -/
theorem out_run_hardline (context : RenderContext) (state : RenderState) (mark lineMark breakMark : Mark) :
    (context.run state
      [⟨.none, .broken, .concat mark [.line lineMark .hard, .breakParent breakMark]⟩]).out =
        state.out.trim.newline context.config.lineEnding := by
  simp [run, renderStep, writeLine, breakLine, Command.on, Indentation.none, Emitter.emit]

end RenderContext

/-! ### A line of text -/

theorem Emitter.trim_of_last {out : Emitter} {before : List Char} {c : Char}
    (last : out.chars = before ++ [c]) (solid : isLineBlank c = false) : out.trim = out := by
  have reversed : out.reversed = c :: before.reverse := by
    rw [← List.reverse_reverse out.reversed]
    show out.chars.reverse = _
    rw [last, List.reverse_append]
    rfl
  unfold trim
  rw [reversed, List.dropWhile_cons, solid]
  exact congrArg Emitter.mk reversed.symm

/-- A document without lines and a line after it, as they are rendered. -/
theorem render_line {doc : Doc} {config : Config} {mark lineMark innerMark breakMark : Mark}
    {before : List Char} {c : Char} (unbroken : doc.isUnbroken = true)
    (last : doc.content = before ++ [c]) (feed : c ≠ '\n') (solid : isLineBlank c = false) :
    (Doc.concat mark [doc, .concat innerMark [.line lineMark .hard, .breakParent breakMark]]).render config =
      Text.writeLineEndings config.lineEnding (String.ofList (doc.content ++ ['\n'])) := by
  let ending : Doc := .concat innerMark [.line lineMark .hard, .breakParent breakMark]
  unfold Doc.render Doc.renderInto
  -- Which groups have to break makes no difference where no line can break.
  generalize Doc.breaks _ = breaks
  have first : RenderContext.Writes ⟨config, breaks⟩ {} [⟨.none, .broken, doc⟩, ⟨.none, .broken, ending⟩]
      [⟨.none, .broken, ending⟩] doc.content :=
    RenderContext.writes_unbroken doc {} .none .broken _ unbroken
  obtain ⟨after, reached, chars⟩ := first
  have start : RenderContext.Reaches ⟨config, breaks⟩ (.start (.concat mark [doc, ending]) {})
      ⟨after, [⟨.none, .broken, ending⟩]⟩ := .step reached
  have whole : (RenderContext.run ⟨config, breaks⟩ { out := {} }
      [⟨.none, .broken, .concat mark [doc, ending]⟩]).out = after.out.trim.newline config.lineEnding :=
    (congrArg RenderState.out (RenderContext.run_eq_of_reaches start)).trans
      (RenderContext.out_run_hardline ..)
  have written : after.out.chars = writtenChars config.lineEnding before ++ [c] := by
    rw [chars, last, Text.writtenChars_append, Text.writtenChars_cons, if_neg feed]
    rfl
  rw [← String.toList_inj, Text.toList_writeLineEndings, String.toList_ofList, whole,
    Emitter.trim_of_last written solid]
  unfold Emitter.newline Emitter.text
  rw [String.toList_ofList, Emitter.chars_emit, written, last, Text.writtenChars_append,
    Text.writtenChars_append, Text.writtenChars_cons, Text.writtenChars_cons, if_neg feed, if_pos rfl]
  simp [writtenChars]

end MarkupFormat.Layout
