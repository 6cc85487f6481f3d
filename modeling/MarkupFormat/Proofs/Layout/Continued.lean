import MarkupFormat.Layout.Render
import MarkupFormat.Proofs.Layout.Verbatim

/-!
# Rendering goes on from what was written

What was written before stays as it is, and the first line of a document comes right after it.

Of what was written before, a renderer can take back only blanks at the end. So a text that does not end in a blank
stays as it is while a document is rendered after it: each step writes the same, takes the same back and counts the same
columns as without it (`renderStep_following`), and what is added is what the document renders to by itself.
`renderInto_ofString_iff` says so of whole documents, and that no other text allows this.

If all that stands before the first line break of a document are texts and literal lines, then these are written first,
blanks at their end are taken back and a line is ended. Nothing that follows takes back any of it
(`toList_render_of_beginsLine`). Characters that are written before anything else stay at the front as well, if they
end in neither a blank nor a line (`toList_render_of_writesFirst`).
-/

namespace MarkupFormat.Layout

open Text (LineEnding dropEnd isLineBlank writtenChars writtenChars_append)

namespace Emitter

/-- What `out` holds, after what `before` holds. -/
def following (before out : Emitter) : Emitter :=
  ⟨out.reversed ++ before.reversed⟩

/-- No blank ends the text. -/
def IsSolid (out : Emitter) : Prop :=
  ∀ c, out.reversed.head? = some c → isLineBlank c = false

variable {before out : Emitter}

theorem text_following (before out : Emitter) : (before.following out).text = before.text ++ out.text := by
  unfold text chars following
  rw [List.reverse_append, String.ofList_append]

theorem emit_following (s : String) : (before.following out).emit s = before.following (out.emit s) := by
  simp only [emit, following, List.reverseAux_eq, List.append_assoc]

theorem newline_following (ending : LineEnding) :
    (before.following out).newline ending = before.following (out.newline ending) :=
  emit_following ending.text

theorem IsSolid.dropWhile_eq (solid : before.IsSolid) : before.reversed.dropWhile isLineBlank = before.reversed := by
  cases same : before.reversed with
  | nil => rfl
  | cons c cs => exact List.dropWhile_cons_of_neg (by rw [solid c (by rw [same]; rfl)]; decide)

theorem IsSolid.takeWhile_eq (solid : before.IsSolid) : before.reversed.takeWhile isLineBlank = [] := by
  cases same : before.reversed with
  | nil => rfl
  | cons c cs => exact List.takeWhile_cons_of_neg (by rw [solid c (by rw [same]; rfl)]; decide)

/-- A trim stops before a text that does not end in a blank, also if nothing but blanks was written after it. -/
theorem trim_following (solid : before.IsSolid) : (before.following out).trim = before.following out.trim := by
  unfold trim following
  rw [List.dropWhile_append, solid.dropWhile_eq]
  split
  · next empty => rw [List.isEmpty_iff.mp empty, List.nil_append]
  · rfl

theorem trailingBlanks_following (solid : before.IsSolid) :
    (before.following out).trailingBlanks = out.trailingBlanks := by
  unfold trailingBlanks following
  rw [List.takeWhile_append, solid.takeWhile_eq, List.append_nil]
  split
  · next all => exact all.symm
  · rfl

theorem isSolid_ofString_iff (written : String) :
    (ofString written).IsSolid ↔ ∀ c, written.toList.getLast? = some c → c ≠ ' ' ∧ c ≠ '\t' := by
  unfold IsSolid ofString
  simp only [List.head?_reverse, isLineBlank, Bool.or_eq_false_iff, decide_eq_false_iff_not]

theorem isSolid_of_trim_eq (same : out.trim = out) : out.IsSolid := by
  intro c last
  have stops := List.head?_dropWhile_not isLineBlank out.reversed
  rw [show out.reversed.dropWhile isLineBlank = out.reversed from congrArg reversed same, last] at stops
  exact stops

theorem text_ofString (written : String) : (ofString written).text = written := by
  rw [text, chars, ofString, List.reverse_reverse, String.ofList_toList]

theorem eq_of_text_eq (same : before.text = out.text) : before = out := by
  have chars := congrArg String.toList same
  rw [text, text, String.toList_ofList, String.toList_ofList] at chars
  exact congrArg Emitter.mk (List.reverse_inj.mp chars)

end Emitter

/-- What a renderer carries that writes after the text that `before` holds. -/
def RenderState.following (before : Emitter) (state : RenderState) : RenderState :=
  { state with out := before.following state.out }

namespace RenderContext

variable {context : RenderContext} {state : RenderState} {before : Emitter}

theorem breakLine_following (solid : before.IsSolid) (kind : LineKind) (indentation : Indentation) :
    context.breakLine (state.following before) kind indentation =
      (context.breakLine state kind indentation).following before := by
  unfold breakLine RenderState.following
  dsimp only
  split
  · cases indentation.root with
    | none =>
      dsimp only
      rw [Emitter.newline_following]
    | some root =>
      dsimp only
      rw [Emitter.newline_following, Emitter.emit_following]
  · dsimp only
    rw [Emitter.trim_following solid, Emitter.newline_following, Emitter.emit_following]

theorem writeLine_following (solid : before.IsSolid) (kind : LineKind) (indentation : Indentation) (mode : Mode) :
    context.writeLine (state.following before) kind indentation mode =
      (context.writeLine state kind indentation mode).following before := by
  have breaks (state : RenderState) :
      context.breakLine (state.following before) kind indentation =
        (context.breakLine state kind indentation).following before :=
    breakLine_following solid kind indentation
  unfold writeLine
  split
  · rfl
  · unfold RenderState.following
    dsimp only
    rw [Emitter.emit_following]
  · exact breaks { state with remeasure := true }
  · exact breaks state

/-- A step decides and counts the same whatever was written before. -/
theorem renderStep_following (solid : before.IsSolid) (rest : List Command) (command : Command) :
    context.renderStep (state.following before) rest command =
      ((context.renderStep state rest command).1.following before, (context.renderStep state rest command).2) := by
  unfold renderStep
  cases command.doc <;> dsimp only
  case text mark content =>
    unfold writeText RenderState.following
    dsimp only
    rw [Emitter.emit_following]
  case line mark kind => rw [writeLine_following solid]
  case trim mark =>
    unfold RenderState.following
    dsimp only
    rw [Emitter.trim_following solid, Emitter.trailingBlanks_following solid]
  all_goals rfl

theorem run_following (solid : before.IsSolid) (pending : List Command) :
    context.run (state.following before) pending = (context.run state pending).following before := by
  fun_induction RenderContext.run context state pending with
  | case1 state => rw [RenderContext.run]
  | case2 state command rest step ih =>
    rw [RenderContext.run, renderStep_following solid]
    exact ih

end RenderContext

theorem Doc.renderInto_trim (mark : Mark) (config : Config) (out : Emitter) :
    (Doc.trim mark).renderInto config out = out.trim := by
  unfold Doc.renderInto
  rw [RenderContext.run, List.append_nil]
  show (RenderContext.run _ _ []).out = _
  rw [RenderContext.run]
  rfl

/-- A document is rendered after a text as it is by itself, whatever the document, exactly if the text does not end in
a space or a tab. -/
theorem Doc.renderInto_ofString_iff (written : String) :
    (∀ (doc : Doc) (config : Config),
      (doc.renderInto config (.ofString written)).text = written ++ doc.render config) ↔
        ∀ c, written.toList.getLast? = some c → c ≠ ' ' ∧ c ≠ '\t' := by
  rw [← Emitter.isSolid_ofString_iff]
  constructor
  · intro appends
    have trimmed := appends (.trim 0) {}
    rw [Doc.render, renderInto_trim, renderInto_trim] at trimmed
    refine Emitter.isSolid_of_trim_eq (Emitter.eq_of_text_eq ?_)
    rw [trimmed, Emitter.text_ofString]
    exact String.append_empty
  · intro solid doc config
    have start : ({ out := .ofString written } : RenderState) = RenderState.following (.ofString written) {} := rfl
    unfold Doc.render Doc.renderInto
    rw [start, RenderContext.run_following solid]
    show ((Emitter.ofString written).following _).text = _
    rw [Emitter.text_following, Emitter.text_ofString]

/-! ### The first line break of a document -/

namespace Emitter

theorem chars_trim (out : Emitter) : out.trim.chars = dropEnd isLineBlank out.chars := by
  unfold trim chars dropEnd
  rw [List.reverse_reverse]

theorem chars_following (before out : Emitter) : (before.following out).chars = before.chars ++ out.chars := by
  unfold chars following
  rw [List.reverse_append]

theorem isSolid_iff {out : Emitter} : out.IsSolid ↔ ∀ c, out.chars.getLast? = some c → isLineBlank c = false := by
  unfold IsSolid chars
  simp only [List.getLast?_reverse]

theorem isSolid_newline (out : Emitter) (ending : LineEnding) : (out.newline ending).IsSolid := by
  rw [isSolid_iff]
  intro c ends
  unfold newline at ends
  rw [chars_emit] at ends
  cases ending <;> simp [LineEnding.text] at ends <;> subst ends <;> rfl

end Emitter

namespace RenderContext

variable {context : RenderContext}

/-- What is laid out later stands behind what does not end in a blank. -/
theorem exists_chars_run (context : RenderContext) {state : RenderState} (solid : state.out.IsSolid)
    (pending : List Command) :
    ∃ more, (context.run state pending).out.chars = state.out.chars ++ more := by
  have start : state = RenderState.following state.out { state with out := {} } := by
    unfold RenderState.following Emitter.following
    simp
  refine ⟨(context.run { state with out := {} } pending).out.chars, ?_⟩
  rw [start, run_following solid]
  exact Emitter.chars_following _ _

end RenderContext

/-! ### Beginnings -/

/-- Laid out at the margin, some documents first add these characters, take back the blanks before the end and end a
line. -/
def BeginsLine (docs : List Doc) (cs : List Char) : Prop :=
  ∀ (context : RenderContext) (state : RenderState) (mode : Mode) (rest : List Command),
    ∃ after pending, context.run state (docs.map (Command.mk .none mode) ++ rest) = context.run after pending ∧
      ∃ before : Emitter, after.out = before.newline context.config.lineEnding ∧
        before.chars = dropEnd isLineBlank (state.out.chars ++ writtenChars context.config.lineEnding cs)

variable {doc : Doc} {docs : List Doc} {cs ds : List Char}

theorem beginsLine_append (begins : BeginsLine docs cs) (more : List Doc) : BeginsLine (docs ++ more) cs := by
  intro context state mode rest
  rw [List.map_append, List.append_assoc]
  exact begins context state mode _

/-- What is laid out in one way only is written before the first line break after it. -/
theorem beginsLine_of_verbatimAll? (same : Doc.verbatimAll? docs = some cs) {more : List Doc}
    (begins : BeginsLine more []) : BeginsLine (docs ++ more) cs := by
  intro context state mode rest
  let behind := more.map (Command.mk .none mode) ++ rest
  obtain ⟨middle, ran, written⟩ : ∃ middle, context.run state (docs.map (Command.mk .none mode) ++ behind) =
      context.run middle behind ∧ _ := RenderContext.run_of_verbatimAll? docs state .none mode behind same rfl
  obtain ⟨after, pending, later, before, ended, chars⟩ := begins context middle mode rest
  refine ⟨after, pending, ?_, before, ended, ?_⟩
  · rw [List.map_append, List.append_assoc, ran, later]
  · rw [chars, written]
    simp [writtenChars]

theorem beginsLine_concat (mark : Mark) (begins : BeginsLine docs cs) : BeginsLine [.concat mark docs] cs := by
  intro context state mode rest
  rw [List.map_singleton, List.singleton_append, RenderContext.run_cons]
  exact begins context state mode rest

theorem beginsLine_group (mark : Mark) (info : GroupInfo) (begins : BeginsLine [doc] cs) :
    BeginsLine [.group mark info doc] cs := by
  intro context state mode rest
  let command : Command := ⟨.none, mode, .group mark info doc⟩
  obtain ⟨kept, chosenMode, chosen⟩ : (context.openGroup state rest command mark info doc []).1.out = state.out ∧ _ :=
    RenderContext.openGroup_body state rest command mark info doc
  obtain ⟨after, pending, ran, before, ended, chars⟩ :=
    begins context (context.openGroup state rest command mark info doc []).1 chosenMode rest
  refine ⟨after, pending, ?_, before, ended, by rw [chars, kept]⟩
  rw [← ran, List.map_singleton, List.singleton_append, RenderContext.run_cons]
  unfold RenderContext.renderStep
  dsimp only
  rw [chosen]
  rfl

theorem beginsLine_line (mark : Mark) : BeginsLine [.line mark .hard] [] := by
  intro context state mode rest
  refine ⟨context.writeLine state .hard .none mode, rest, RenderContext.run_cons .., state.out.trim, ?_, ?_⟩
  · cases mode <;> simp [RenderContext.writeLine, RenderContext.breakLine, Indentation.none, Emitter.emit]
  · rw [Emitter.chars_trim]
    simp [writtenChars]

/-- Some documents are laid out to these characters only, or these come before their first line break. -/
def StartsWith (docs : List Doc) (cs : List Char) : Prop :=
  Doc.verbatimAll? docs = some cs ∨ BeginsLine docs cs

theorem startsWith_of_verbatim? (same : doc.verbatim? = some cs) : StartsWith [doc] cs :=
  .inl (Doc.verbatimAll?_singleton same)

theorem startsWith_append (starts : StartsWith docs cs) {more : List Doc} (begins : BeginsLine more []) :
    BeginsLine (docs ++ more) cs := by
  obtain same | first := starts
  · exact beginsLine_of_verbatimAll? same begins
  · exact beginsLine_append first more

theorem startsWith_concat (mark : Mark) (starts : StartsWith docs cs) : StartsWith [.concat mark docs] cs := by
  obtain same | begins := starts
  · exact startsWith_of_verbatim? same
  · exact .inr (beginsLine_concat mark begins)

theorem startsWith_group (mark : Mark) (info : GroupInfo) (starts : StartsWith [doc] cs) :
    StartsWith [.group mark info doc] cs := by
  obtain same | begins := starts
  · obtain ⟨first, others, here, none, rfl⟩ := Doc.verbatimAll?_cons_eq_some.mp same
    cases none
    rw [List.append_nil]
    exact startsWith_of_verbatim? here
  · exact .inr (beginsLine_group mark info begins)

/-- What begins with a text and a line break is rendered with the text, but for blanks at its end, and a line break at
its front. -/
theorem toList_render_of_beginsLine (begins : BeginsLine [doc] cs) (config : Config) :
    ∃ more, (doc.render config).toList =
      dropEnd isLineBlank (writtenChars config.lineEnding cs) ++ (config.lineEnding.text.toList ++ more) := by
  obtain ⟨after, pending, ran, before, ended, chars⟩ := begins ⟨config, doc.breaks⟩ {} .broken []
  have solid : after.out.IsSolid := by
    rw [ended]
    exact Emitter.isSolid_newline before _
  obtain ⟨more, whole⟩ := RenderContext.exists_chars_run ⟨config, doc.breaks⟩ solid pending
  refine ⟨more, ?_⟩
  unfold Doc.render Doc.renderInto Emitter.text
  rw [String.toList_ofList]
  change (RenderContext.run _ {} ([doc].map (Command.mk .none .broken) ++ [])).out.chars = _
  rw [ran, whole, ended]
  unfold Emitter.newline
  rw [Emitter.chars_emit, chars, List.append_assoc]
  rfl

/-! ### Fronts -/

/-- Laid out at the margin, some documents write these characters before anything else. -/
def WritesFirst (docs : List Doc) (cs : List Char) : Prop :=
  ∀ (context : RenderContext) (state : RenderState) (mode : Mode) (rest : List Command),
    ∃ after pending, context.run state (docs.map (Command.mk .none mode) ++ rest) = context.run after pending ∧
      after.out.chars = state.out.chars ++ writtenChars context.config.lineEnding cs

theorem writesFirst_of_verbatim? (same : doc.verbatim? = some cs) : WritesFirst [doc] cs := by
  intro context state mode rest
  obtain ⟨after, ran, written⟩ := Doc.writes_of_verbatim? same context state .none mode rest rfl
  exact ⟨after, rest, ran, written⟩

theorem WritesFirst.append (writes : WritesFirst docs cs) (more : List Doc) : WritesFirst (docs ++ more) cs := by
  intro context state mode rest
  rw [List.map_append, List.append_assoc]
  exact writes context state mode _

theorem WritesFirst.concat (writes : WritesFirst docs cs) (mark : Mark) : WritesFirst [.concat mark docs] cs := by
  intro context state mode rest
  rw [List.map_singleton, List.singleton_append, RenderContext.run_cons]
  exact writes context state mode rest

theorem WritesFirst.group (writes : WritesFirst [doc] cs) (mark : Mark) (info : GroupInfo) :
    WritesFirst [.group mark info doc] cs := by
  intro context state mode rest
  let command : Command := ⟨.none, mode, .group mark info doc⟩
  obtain ⟨kept, chosenMode, chosen⟩ : (context.openGroup state rest command mark info doc []).1.out = state.out ∧ _ :=
    RenderContext.openGroup_body state rest command mark info doc
  obtain ⟨after, pending, ran, written⟩ :=
    writes context (context.openGroup state rest command mark info doc []).1 chosenMode rest
  refine ⟨after, pending, ?_, by rw [written, kept]⟩
  rw [← ran, List.map_singleton, List.singleton_append, RenderContext.run_cons]
  unfold RenderContext.renderStep
  dsimp only
  rw [chosen]
  rfl

/-- What some documents begin with, so does a document that is made of them. -/
structure Carries (begins : List Doc → Prop) : Prop where
  concat : ∀ {docs : List Doc} (mark : Mark), begins docs → begins [.concat mark docs]
  group : ∀ {doc : Doc} (mark : Mark) (info : GroupInfo), begins [doc] → begins [.group mark info doc]

theorem carries_startsWith (cs : List Char) : Carries (StartsWith · cs) :=
  ⟨startsWith_concat, startsWith_group⟩

theorem carries_writesFirst (cs : List Char) : Carries (WritesFirst · cs) :=
  ⟨fun mark writes => writes.concat mark, fun mark info writes => writes.group mark info⟩

/-- What ends in neither a blank nor a line is rendered at the front as it is, whatever comes behind it. -/
theorem toList_render_of_writesFirst {c : Char} (writes : WritesFirst [doc] (cs ++ [c])) (solid : isLineBlank c = false)
    (noFeed : c ≠ '\n') (config : Config) :
    ∃ more, (doc.render config).toList = writtenChars config.lineEnding cs ++ c :: more := by
  obtain ⟨after, pending, ran, written⟩ := writes ⟨config, doc.breaks⟩ {} .broken []
  have last : writtenChars config.lineEnding [c] = [c] :=
    Text.writtenChars_of_not_mem _ (by simpa using noFeed.symm)
  have front : after.out.chars = writtenChars config.lineEnding cs ++ [c] := by
    rw [written, writtenChars_append, last]
    rfl
  have ends : after.out.IsSolid := by
    rw [Emitter.isSolid_iff, front]
    intro d isLast
    rw [List.getLast?_concat] at isLast
    cases isLast
    exact solid
  obtain ⟨more, whole⟩ := RenderContext.exists_chars_run ⟨config, doc.breaks⟩ ends pending
  refine ⟨more, ?_⟩
  unfold Doc.render Doc.renderInto Emitter.text
  rw [String.toList_ofList]
  change (RenderContext.run _ {} ([doc].map (Command.mk .none .broken) ++ [])).out.chars = _
  rw [ran, whole, front, List.append_assoc]
  rfl

/-! ### Building -/

namespace Build

theorem makes_hardline : Makes hardline fun doc => BeginsLine [doc] [] := by
  refine makes_bind (makes_bareLine .hard) fun _ isLine => makes_bind makes_breakParent fun _ isBreak => ?_
  obtain ⟨mark, rfl⟩ := isLine
  refine makes_bind makes_freshMark fun _ _ => makes_pure ?_
  exact beginsLine_concat _ (beginsLine_append (beginsLine_line mark) _)

end Build

namespace Carries

variable {begins : List Doc → Prop} (carries : Carries begins)

include carries

theorem yields_concat (here : begins docs) : Build.Yields (Build.concat docs) fun doc => begins [doc] :=
  Build.yields_bind Build.yields_true fun mark _ => Build.yields_pure (carries.concat mark here)

theorem yields_groupWith (id : Option GroupId) (mustBreak : Bool) (here : begins [doc]) :
    Build.Yields (Build.groupWith doc id mustBreak) fun doc => begins [doc] :=
  Build.yields_bind Build.yields_true fun mark _ => Build.yields_pure (carries.group mark _ here)

end Carries

end MarkupFormat.Layout
