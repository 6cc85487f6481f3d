import MarkupFormat.Proofs.Layout.Built
import MarkupFormat.Proofs.Layout.Ink

/-!
# Line endings of rendered text

How lines end is only a matter of how they are written. A renderer that ends its lines differently takes the same
steps: it looks ahead and counts columns without looking at line endings, and the blanks that it takes back stand
after the last of them (`renderStep_endingWith`, `run_endingWith`). So the rendered text is the one with line feeds,
each of them written as the line ending (`render_endingWith`), and nothing else in it ends a line if nothing else in
the texts of the document does (`clean_render`).
-/

namespace MarkupFormat.Layout

open Text (LineEnding Within isLineBlank writeLineEndings writtenChars)

variable {ending : LineEnding}

/-! ### Written text -/

/-- The configuration under which lines end in a given way. -/
def Config.endingWith (ending : LineEnding) (config : Config) : Config :=
  { config with lineEnding := ending }

namespace Emitter

variable {out other : Emitter}

theorem eq_of_chars (same : out.chars = other.chars) : out = other := by
  cases out
  cases other
  exact congrArg Emitter.mk (List.reverse_inj.mp same)

/-- The text with each line feed written as a line ending. -/
def endingWith (ending : LineEnding) (out : Emitter) : Emitter :=
  ⟨out.reversed.flatMap fun c => if c = '\n' then ending.text.toList.reverse else [c]⟩

theorem chars_endingWith (ending : LineEnding) (out : Emitter) :
    (out.endingWith ending).chars = writtenChars ending out.chars := by
  unfold endingWith chars writtenChars
  rw [List.reverse_flatMap]
  refine congrArg (List.flatMap · _) (funext fun c => ?_)
  show List.reverse (if c = '\n' then ending.text.toList.reverse else [c]) = _
  split
  · exact List.reverse_reverse _
  · rfl

theorem endingWith_emit (s : String) :
    (out.emit s).endingWith ending = (out.endingWith ending).emit (writeLineEndings ending s) := by
  apply eq_of_chars
  rw [chars_endingWith, chars_emit, chars_emit, chars_endingWith, Text.writtenChars_append,
    Text.toList_writeLineEndings]

theorem writtenChars_of_all_blank {cs : List Char} (blank : cs.all isLineBlank = true) :
    writtenChars ending cs = cs := by
  induction cs with
  | nil => rfl
  | cons c cs ih =>
    rw [List.all_cons, Bool.and_eq_true] at blank
    have noFeed : c ≠ '\n' := by
      rintro rfl
      exact absurd blank.1 (by decide)
    rw [Text.writtenChars_cons, if_neg noFeed, ih blank.2]
    rfl

theorem endingWith_emit_blank {s : String} (blank : s.toList.all isLineBlank = true) :
    (out.emit s).endingWith ending = (out.endingWith ending).emit s := by
  apply eq_of_chars
  rw [chars_endingWith, chars_emit, chars_emit, chars_endingWith, Text.writtenChars_append,
    writtenChars_of_all_blank blank]

theorem endingWith_newline : (out.newline .lf).endingWith ending = (out.endingWith ending).newline ending := by
  apply eq_of_chars
  unfold newline
  rw [chars_endingWith, chars_emit, chars_emit, chars_endingWith, Text.writtenChars_append]
  exact congrArg (writtenChars ending out.chars ++ ·) (List.append_nil _)

/-- No line ending is taken back as a blank. -/
theorem endingWith_trim : out.trim.endingWith ending = (out.endingWith ending).trim := by
  -- The text is kept in reverse, so the blanks come first and stop at the last character of a line ending.
  have solid : ending.text.toList.reverse.head?.any (fun c => !isLineBlank c) = true := by
    cases ending <;> decide
  unfold trim endingWith
  refine congrArg Emitter.mk ?_
  dsimp only
  induction out.reversed with
  | nil => rfl
  | cons c cs ih =>
    rw [List.flatMap_cons]
    by_cases blank : isLineBlank c = true
    · have noFeed : c ≠ '\n' := by
        rintro rfl
        exact absurd blank (by decide)
      rw [List.dropWhile_cons_of_pos blank, if_neg noFeed, ih]
      exact (List.dropWhile_cons_of_pos blank).symm
    · rw [List.dropWhile_cons_of_neg blank, List.flatMap_cons]
      split
      · cases text : ending.text.toList.reverse with
        | nil =>
          rw [text] at solid
          cases solid
        | cons first others =>
          rw [text, List.head?_cons, Option.any_some, Bool.not_eq_true'] at solid
          exact (List.dropWhile_cons_of_neg (Bool.eq_false_iff.mp solid)).symm
      · exact (List.dropWhile_cons_of_neg blank).symm

end Emitter

theorem Indentation.Blank.written {indentation : Indentation} (blank : indentation.Blank) :
    indentation.value.toList.all isLineBlank = true := by
  cases blank with
  | intro written => exact written

/-! ### Steps -/

/-- What a renderer carries whose lines end in a given way. -/
def RenderState.endingWith (ending : LineEnding) (state : RenderState) : RenderState :=
  { state with out := state.out.endingWith ending }

namespace Lookahead

theorem fits_endingWith (look : Lookahead) (line : Line) (pending : List Command) :
    Lookahead.fits { look with config := look.config.endingWith ending } line pending = look.fits line pending := by
  have glances (line : Line) (command : Command) :
      Lookahead.glance { look with config := look.config.endingWith ending } line command =
        look.glance line command := rfl
  fun_induction Lookahead.fits look line pending with
  | case1 line pending full =>
    rw [Lookahead.fits.eq_def, if_pos full]
  | case2 line full =>
    rw [Lookahead.fits.eq_def, if_neg full]
  | case3 line full command rest answer seen =>
    have seen := (glances line command).trans seen
    rw [Lookahead.fits.eq_def, if_neg full]
    dsimp only
    split
    · next other settled =>
      rw [seen] at settled
      cases settled
      rfl
    · next goes =>
      rw [seen] at goes
      cases goes
  | case4 line full command rest after next seen ih =>
    have seen := (glances line command).trans seen
    rw [Lookahead.fits.eq_def, if_neg full]
    dsimp only
    split
    · next settled =>
      rw [seen] at settled
      cases settled
    · next goes =>
      rw [seen] at goes
      cases goes
      exact ih

end Lookahead

namespace RenderContext

variable {context : RenderContext} {state : RenderState} {command : Command} {rest : List Command}

/-- A renderer whose lines end in a given way. -/
def endingWith (ending : LineEnding) (context : RenderContext) : RenderContext :=
  { context with config := context.config.endingWith ending }

theorem fits_endingWith (ending : LineEnding) (context : RenderContext) (state : RenderState) :
    (context.endingWith ending).fits (state.endingWith ending) = (context.endingWith .lf).fits state := by
  have same (ending : LineEnding) : (context.endingWith ending).fits state = context.fits state :=
    funext fun mustBeFlat => funext fun pending =>
      Lookahead.fits_endingWith ⟨context.config, context.breaks, state.modes, mustBeFlat⟩
        { room := context.room state } pending
  exact (same ending).trans (same .lf).symm

theorem writeText_endingWith (content : String) :
    (context.endingWith ending).writeText (state.endingWith ending) content =
      ((context.endingWith .lf).writeText state content).endingWith ending := by
  unfold writeText RenderState.endingWith
  dsimp only
  rw [Emitter.endingWith_emit]
  rfl

theorem breakLine_endingWith {kind : LineKind} {indentation : Indentation} (blank : indentation.Blank) :
    (context.endingWith ending).breakLine (state.endingWith ending) kind indentation =
      ((context.endingWith .lf).breakLine state kind indentation).endingWith ending := by
  have newline (out : Emitter) := @Emitter.endingWith_newline ending out
  unfold breakLine
  dsimp only
  split
  · cases root : indentation.root with
    | none =>
      unfold RenderState.endingWith
      dsimp only
      rw [show (context.endingWith .lf).config.lineEnding = .lf from rfl, newline]
      rfl
    | some outer =>
      unfold RenderState.endingWith
      dsimp only
      rw [show (context.endingWith .lf).config.lineEnding = .lf from rfl,
        Emitter.endingWith_emit_blank (blank.root root).written, newline]
      rfl
  · unfold RenderState.endingWith
    dsimp only
    rw [show (context.endingWith .lf).config.lineEnding = .lf from rfl,
      Emitter.endingWith_emit_blank blank.written, newline, Emitter.endingWith_trim]
    rfl

theorem writeLine_endingWith {kind : LineKind} {indentation : Indentation} {mode : Mode} (blank : indentation.Blank) :
    (context.endingWith ending).writeLine (state.endingWith ending) kind indentation mode =
      ((context.endingWith .lf).writeLine state kind indentation mode).endingWith ending := by
  unfold writeLine
  split
  · rfl
  · unfold RenderState.endingWith
    dsimp only
    rw [Emitter.endingWith_emit_blank (by decide)]
  · have flat (state : RenderState) := @breakLine_endingWith ending context state kind indentation blank
    exact flat { state with remeasure := true }
  · exact breakLine_endingWith blank

/-- A step does not depend on how lines end, but for what it writes. -/
theorem renderStep_endingWith (steady : command.Steady) :
    (context.endingWith ending).renderStep (state.endingWith ending) rest command =
      (((context.endingWith .lf).renderStep state rest command).1.endingWith ending,
        ((context.endingWith .lf).renderStep state rest command).2) := by
  have self := steady.doc.self
  have fits := fits_endingWith ending context state
  unfold renderStep
  cases doc : command.doc <;> rw [doc] at self <;> dsimp only
  -- A trim takes back what was written, and alternatives are told apart by what fits: neither is steady.
  case trim => cases self
  case choice => cases self
  case text mark content => rw [writeText_endingWith]
  case line mark kind => rw [writeLine_endingWith steady.indentation]
  case group mark info body =>
    unfold openGroup chooseMeasured
    rw [fits]
    rfl
  case fill mark parts =>
    unfold openFill
    rw [fits]
  all_goals rfl

/-- A whole rendering does not depend on how lines end, but for what it writes. -/
theorem run_endingWith {pending : List Command} (steady : ∀ command ∈ pending, command.Steady) :
    (context.endingWith ending).run (state.endingWith ending) pending =
      ((context.endingWith .lf).run state pending).endingWith ending := by
  fun_induction RenderContext.run (context.endingWith .lf) state pending with
  | case1 state => rw [RenderContext.run]
  | case2 state command rest step ih =>
    obtain ⟨head, others⟩ := List.forall_mem_cons.mp steady
    rw [RenderContext.run, renderStep_endingWith head]
    exact ih (List.forall_mem_append.mpr ⟨steady_renderStep head, others⟩)

end RenderContext

/-! ### Characters of rendered text -/

variable {p : Char → Prop}

theorem Doc.TextsIn.child {doc child : Doc} (texts : doc.TextsIn p) (below : child ∈ doc.children false) :
    child.TextsIn p := by
  cases doc with
  | text | line | breakParent | trim => cases below
  | concat mark parts | fill mark parts => exact Doc.allTextsIn_iff.mp texts child below
  | indent | align | group | indentIfBreak | label =>
    rw [List.mem_singleton.mp below]
    exact texts
  | choice =>
    rw [List.mem_singleton.mp below]
    exact texts.1
  | ifBreak =>
    rcases List.mem_cons.mp below with rfl | below
    · exact texts.1
    · rw [List.mem_singleton.mp below]
      exact texts.2

namespace RenderContext

variable {context : RenderContext} {state : RenderState} {command : Command} {rest : List Command}

theorem textsIn_openFill {mark : Mark} {parts : List Doc} (texts : ∀ part ∈ parts, part.TextsIn p) :
    ∀ other ∈ context.openFill state command mark parts, other.doc.TextsIn p := by
  intro other member
  rcases mem_openFill member with ⟨mode, part, inside, rfl⟩ | ⟨before, later, rfl, rfl⟩
  · exact texts part inside
  · exact Doc.allTextsIn_iff.mpr fun part inside => texts part (List.mem_append_right before inside)

theorem textsIn_renderStep (steady : command.Steady) (texts : command.doc.TextsIn p) :
    ∀ other ∈ (context.renderStep state rest command).2, other.doc.TextsIn p := by
  have self := steady.doc.self
  have body {doc : Doc} {mode : Mode} {indentation : Indentation} (below : doc ∈ command.doc.children false) :
      ∀ other ∈ [(⟨indentation, mode, doc⟩ : Command)], other.doc.TextsIn p :=
    List.forall_mem_singleton.mpr (texts.child below)
  unfold renderStep
  cases doc : command.doc <;> rw [doc] at self body <;> dsimp only
  case text => nofun
  case line => nofun
  case breakParent => nofun
  case trim => cases self
  case choice => cases self
  case concat mark parts =>
    intro other member
    obtain ⟨part, inside, rfl⟩ := List.mem_map.mp member
    exact texts.child (by rw [doc]; exact inside)
  case fill mark parts => exact textsIn_openFill fun part inside => texts.child (by rw [doc]; exact inside)
  case group mark info inner =>
    obtain ⟨mode, same⟩ := chosen_openGroup context state rest command mark info inner
    rw [same]
    exact body List.mem_cons_self
  case ifBreak mark broken flat id =>
    refine body ?_
    split
    · exact List.mem_cons_self
    · exact List.mem_cons_of_mem _ List.mem_cons_self
  case indentIfBreak mark inner id negate => split <;> exact body List.mem_cons_self
  all_goals exact body List.mem_cons_self

theorem within_of_all_blank {cs : List Char} (admits : Text.Admits p) (blank : cs.all isLineBlank = true) :
    Within p cs := by
  intro c member
  refine admits c ?_
  rintro rfl
  exact absurd (List.all_eq_true.mp blank _ member) (by decide)

theorem within_trim {out : Emitter} (within : Within p out.chars) : Within p out.trim.chars := by
  intro c member
  exact within c (List.mem_reverse.mpr (List.dropWhile_subset _ (List.mem_reverse.mp member)))

theorem within_breakLine {kind : LineKind} {indentation : Indentation} (admits : Text.Admits p)
    (blank : indentation.Blank) (within : Within p state.out.chars) :
    Within p ((context.endingWith .lf).breakLine state kind indentation).out.chars := by
  have feed : Within p LineEnding.lf.text.toList := Text.within_of_clean admits (by decide)
  unfold breakLine
  dsimp only
  split
  · have ended : Within p (state.out.newline .lf).chars := by
      unfold Emitter.newline
      rw [Emitter.chars_emit]
      exact Text.within_append within feed
    cases root : indentation.root with
    | none => exact ended
    | some outer =>
      dsimp only
      rw [Emitter.chars_emit]
      exact Text.within_append ended (within_of_all_blank admits (blank.root root).written)
  · unfold Emitter.newline
    rw [Emitter.chars_emit, Emitter.chars_emit]
    exact Text.within_append (Text.within_append (within_trim within) feed) (within_of_all_blank admits blank.written)

/-- A step that ends its lines with line feeds writes nothing else that ends a line, unless a text has it. -/
theorem within_renderStep (admits : Text.Admits p) (steady : command.Steady) (texts : command.doc.TextsIn p)
    (within : Within p state.out.chars) :
    Within p ((context.endingWith .lf).renderStep state rest command).1.out.chars := by
  have self := steady.doc.self
  unfold renderStep
  cases doc : command.doc <;> rw [doc] at self texts <;> dsimp only
  case trim => cases self
  case choice => cases self
  case text mark content =>
    unfold writeText
    rw [Emitter.chars_emit, Text.toList_writeLineEndings]
    show Within p (_ ++ writtenChars .lf content.toList)
    rw [Text.writtenChars_lf]
    exact Text.within_append within texts
  case line mark kind =>
    unfold writeLine
    split
    · exact within
    · rw [Emitter.chars_emit]
      exact Text.within_append within (Text.within_of_clean admits (by decide))
    · exact within_breakLine admits steady.indentation within
    · exact within_breakLine admits steady.indentation within
  all_goals exact within

theorem within_run {pending : List Command} (admits : Text.Admits p) (steady : ∀ command ∈ pending, command.Steady)
    (texts : ∀ command ∈ pending, command.doc.TextsIn p) (within : Within p state.out.chars) :
    Within p ((context.endingWith .lf).run state pending).out.chars := by
  fun_induction RenderContext.run (context.endingWith .lf) state pending with
  | case1 state => exact within
  | case2 state command rest step ih =>
    obtain ⟨head, others⟩ := List.forall_mem_cons.mp steady
    obtain ⟨headTexts, otherTexts⟩ := List.forall_mem_cons.mp texts
    refine ih (List.forall_mem_append.mpr ⟨steady_renderStep head, others⟩)
      (List.forall_mem_append.mpr ⟨textsIn_renderStep head headTexts, otherTexts⟩) ?_
    exact within_renderStep admits head headTexts within

end RenderContext

namespace Doc

variable {doc : Doc}

/-- A rendered document is the same with any line endings, but for these. -/
theorem render_endingWith (steady : doc.Steady) (config : Config) (ending : LineEnding) :
    doc.render (config.endingWith ending) = writeLineEndings ending (doc.render (config.endingWith .lf)) := by
  have pending : ∀ command ∈ [(⟨.none, .broken, doc⟩ : Command)], command.Steady :=
    List.forall_mem_singleton.mpr ⟨steady, Indentation.blank_none⟩
  have ran : (RenderContext.endingWith ending ⟨config, doc.breaks⟩).run (RenderState.endingWith ending {})
        [⟨.none, .broken, doc⟩] =
      ((RenderContext.endingWith .lf ⟨config, doc.breaks⟩).run {} [⟨.none, .broken, doc⟩]).endingWith ending :=
    RenderContext.run_endingWith pending
  rw [← String.toList_inj, Text.toList_writeLineEndings]
  unfold render renderInto Emitter.text
  rw [String.toList_ofList, String.toList_ofList]
  exact (congrArg (fun state => state.out.chars) ran).trans (Emitter.chars_endingWith ending _)

/-- Rendering with line feeds makes no carriage return. -/
theorem clean_render (steady : doc.Steady) (texts : doc.TextsIn (· ≠ '\r')) (config : Config) :
    '\r' ∉ (doc.render (config.endingWith .lf)).toList := by
  have steadyStart : ∀ command ∈ [(⟨.none, .broken, doc⟩ : Command)], command.Steady :=
    List.forall_mem_singleton.mpr ⟨steady, Indentation.blank_none⟩
  have textsStart : ∀ command ∈ [(⟨.none, .broken, doc⟩ : Command)], command.doc.TextsIn (· ≠ '\r') :=
    List.forall_mem_singleton.mpr texts
  have clean : Within (· ≠ '\r') ((RenderContext.endingWith .lf ⟨config, doc.breaks⟩).run {}
      [⟨.none, .broken, doc⟩]).out.chars :=
    RenderContext.within_run (fun _ other => other) steadyStart textsStart fun _ member =>
      absurd member List.not_mem_nil
  unfold render renderInto Emitter.text
  rw [String.toList_ofList]
  exact fun member => clean _ member rfl

end Doc

end MarkupFormat.Layout
