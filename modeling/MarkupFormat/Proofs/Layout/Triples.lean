import MarkupFormat.Proofs.Layout.Continued
import MarkupFormat.Proofs.Layout.ForcedBreaks
import MarkupFormat.Proofs.Layout.Upward
import MarkupFormat.Proofs.Layout.Verbatim

/-!
# What documents write

Assertions about the text that a renderer has produced, and how a document changes what they say.

What a document is laid out to depends on the room that is left, and still much can be said without knowing it. A
triple tells what holds of the text after a document, if something held of the text before it: wherever the document
stands, in either mode and whatever surrounds it (`Doc.Triple`). Only a group that forces a break is known to be laid
out broken (`triple_group`). A text that ends in no blank is never taken back, so what is shown once stays shown
(`triple_shown`), and a document shows whatever one of its parts shows, behind what is seen of the parts before it
(`Doc.Shows`).

Several texts stand in order in another one if they follow each other in it, with anything between them and around them
(`InOrder`). A document shows texts in order if they follow whatever was shown before it. As a text that ends in no
blank is never taken back, the texts that the parts of a document show add up to what the document shows
(`Doc.gathers_showsInOrder`).
-/

namespace MarkupFormat.Layout

open Text (LineEnding isLineBlank visible visible_append writtenChars writtenChars_append)

/-! ### Assertions -/

/-- The text ends in a character that is never taken back. -/
def EndsSolid (text : List Char) : Prop :=
  ∃ last, text.getLast? = some last ∧ isLineBlank last = false

/-- What may hold of a text whose lines end in some way. -/
abbrev Assertion := LineEnding → List Char → Prop

namespace Assertion

/-- These characters are seen. -/
def sees (seen : List Char) : Assertion :=
  fun _ cs => visible cs = seen

/-- The text has a wanted one in it that does not end in a blank, and these characters are seen before that. -/
def shown (seen : List Char) (wanted : Assertion) : Assertion :=
  fun ending cs => ∃ front text back, visible front = seen ∧ wanted ending text ∧ cs = front ++ text ++ back ∧
    EndsSolid text

/-- What was written before is followed by these characters. -/
def followedBy (before : Assertion) (cs : List Char) : Assertion :=
  fun ending out => ∃ front, before ending front ∧ out = front ++ writtenChars ending cs

end Assertion

/-! ### Rendering to an end -/

namespace RenderContext

variable {state : RenderState} {before : Emitter}

/-- A step takes nothing back of a text that does not end in a blank. -/
theorem exists_following_renderStep (context : RenderContext) (solid : before.IsSolid) {more : Emitter}
    (follows : state.out = before.following more) (rest : List Command) (command : Command) :
    ∃ later, (context.renderStep state rest command).1.out = before.following later := by
  have same : state = RenderState.following before { state with out := more } := by
    unfold RenderState.following
    rw [← follows]
  rw [same, renderStep_following solid]
  exact ⟨_, rfl⟩

/-- What is pending is rendered before what is pending after it, and is seen as its ink. -/
theorem exists_run (context : RenderContext) (pending : List Command) (state : RenderState) (rest : List Command) :
    ∃ after, context.run state (pending ++ rest) = context.run after rest ∧
      (∀ before more : Emitter, before.IsSolid → state.out = before.following more →
        ∃ later, after.out = before.following later) ∧
      ((∀ command ∈ pending, command.Steady) →
        visible after.out.chars = visible state.out.chars ++ Command.ink pending) := by
  match pending with
  | [] => exact ⟨state, rfl, fun _ more _ follows => ⟨more, follows⟩, fun _ => (List.append_nil _).symm⟩
  | command :: others =>
    let step := context.renderStep state (others ++ rest) command
    obtain ⟨after, ran, keeps, sees⟩ := exists_run context (step.2 ++ others) step.1 rest
    refine ⟨after, ?_, fun before more solid follows => ?_, fun steady => ?_⟩
    · rw [List.cons_append, run_cons, ← ran, List.append_assoc]
    · obtain ⟨later, there⟩ := context.exists_following_renderStep solid follows (others ++ rest) command
      exact keeps before later solid there
    · obtain ⟨first, rest⟩ := List.forall_mem_cons.mp steady
      rw [sees (List.forall_mem_append.mpr ⟨steady_renderStep first, rest⟩), Command.ink_append, ← List.append_assoc,
        visible_renderStep first, List.append_assoc]
      rfl
  termination_by Command.weights pending
  decreasing_by
    have := context.renderStep_lt state (others ++ rest) command
    simp only [Command.weights_append, Command.weights_cons]
    omega

end RenderContext

/-! ### Triples -/

/-- The renderer knows which groups in a document have to break. -/
def RenderContext.Knows (context : RenderContext) (doc : Doc) : Prop :=
  ∀ mark info body, doc.Contains (.group mark info body) → body.Forces → context.breaks.isBroken mark info = true

theorem RenderContext.Knows.child {context : RenderContext} {doc child : Doc} (knows : context.Knows doc)
    (below : child ∈ doc.children true) : context.Knows child :=
  fun mark info body contains => knows mark info body (Doc.contains_iff.mpr (.inr ⟨child, below, contains⟩))

theorem RenderContext.knows_of_children {context : RenderContext} {doc : Doc} (noGroup : doc.isGroup = false)
    (each : ∀ child ∈ doc.children true, context.Knows child) : context.Knows doc := by
  intro mark info body contains forces
  obtain rfl | ⟨child, below, inside⟩ := Doc.contains_iff.mp contains
  · cases noGroup
  · exact each child below mark info body inside forces

theorem RenderContext.knows_breaks {doc : Doc} (apart : doc.MarksTellApart) (config : Config) :
    (RenderContext.mk config doc.breaks).Knows doc := by
  intro mark info body contains forces
  obtain ⟨search, same, exact_, settles⟩ := BreakSet.Search.exists_search apart
  have settled : search.Settles (.group mark info body) :=
    fun node inside => settles node (contains.trans inside)
  show doc.breaks.isBroken mark info = true
  rw [same]
  exact (BreakSet.Search.isBroken_eq_true_iff apart exact_ settled contains rfl rfl).mpr
    (Doc.forces_group.mpr (.inr forces))

/-- Lines begin at the margin or at an indentation that is blank. -/
structure Indentation.Ordinary (indentation : Indentation) : Prop where
  root : indentation.root = Option.none
  blank : indentation.Blank

theorem Indentation.Ordinary.indent {indentation : Indentation} (ordinary : indentation.Ordinary) (config : Config) :
    (indentation.indent config).Ordinary :=
  ⟨ordinary.root, blank_indent ordinary.blank⟩

theorem Indentation.ordinary_none : none.Ordinary :=
  ⟨rfl, blank_none⟩

/-- If something holds of the text before a document, then the document is laid out in one of some modes and something
holds of the text after it. -/
def Doc.TripleIn (modes : Mode → Prop) (doc : Doc) (before after : Assertion) : Prop :=
  ∀ (context : RenderContext) (state : RenderState) (indentation : Indentation) (mode : Mode) (rest : List Command),
    modes mode → context.Knows doc → indentation.Ordinary → before context.config.lineEnding state.out.chars →
      ∃ later, context.run state (⟨indentation, mode, doc⟩ :: rest) = context.run later rest ∧
        after context.config.lineEnding later.out.chars

/-- The same in whatever mode. -/
abbrev Doc.Triple : Doc → Assertion → Assertion → Prop :=
  Doc.TripleIn fun _ => True

/-- The same for documents that are laid out one after the other, each in a mode of its own. -/
inductive TriplesIn (modes : Mode → Prop) : List Doc → Assertion → Assertion → Prop where
  | nil {before after : Assertion} : (∀ ending cs, before ending cs → after ending cs) → TriplesIn modes [] before after
  | cons {doc : Doc} {docs : List Doc} {before between after : Assertion} :
    doc.TripleIn modes before between → TriplesIn modes docs between after → TriplesIn modes (doc :: docs) before after

abbrev Triples : List Doc → Assertion → Assertion → Prop :=
  TriplesIn fun _ => True

section Triples

variable {modes : Mode → Prop} {doc : Doc} {docs more : List Doc} {before between after wanted : Assertion}

theorem Doc.TripleIn.mono {stronger weaker : Assertion} (triple : doc.TripleIn modes before after)
    (pre : ∀ ending cs, stronger ending cs → before ending cs)
    (post : ∀ ending cs, after ending cs → weaker ending cs) : doc.TripleIn modes stronger weaker := by
  intro context state indentation mode rest isMode knows ordinary holds
  obtain ⟨later, ran, there⟩ := triple context state indentation mode rest isMode knows ordinary (pre _ _ holds)
  exact ⟨later, ran, post _ _ there⟩

theorem Doc.tripleIn_of_triple (triple : doc.Triple before after) : doc.TripleIn modes before after :=
  fun context state indentation mode rest _ => triple context state indentation mode rest trivial

theorem TriplesIn.weaken (triples : TriplesIn modes docs before after) {weaker : Assertion}
    (post : ∀ ending cs, after ending cs → weaker ending cs) : TriplesIn modes docs before weaker := by
  induction triples with
  | nil weakens => exact .nil fun ending cs holds => post ending cs (weakens ending cs holds)
  | cons here _ ih => exact .cons here (ih post)

theorem triples_singleton (here : doc.TripleIn modes before after) : TriplesIn modes [doc] before after :=
  .cons here (.nil fun _ _ holds => holds)

/-- A document is seen as its ink. -/
theorem Doc.triple_sees {cs : List Char} (inked : doc.Inked cs) (seen : List Char) :
    doc.TripleIn modes (.sees seen) (.sees (seen ++ cs)) := by
  rintro context state indentation mode rest - - ordinary rfl
  obtain ⟨later, ran, -, sees⟩ := context.exists_run [⟨indentation, mode, doc⟩] state rest
  have steady : ∀ command ∈ [(⟨indentation, mode, doc⟩ : Command)], command.Steady :=
    List.forall_mem_singleton.mpr ⟨inked.steady, ordinary.blank⟩
  have ink : Command.ink [⟨indentation, mode, doc⟩] = cs := (List.append_nil _).trans inked.ink
  exact ⟨later, ran, by rw [Assertion.sees, sees steady, ink]⟩

theorem Doc.triple_shown (doc : Doc) (seen : List Char) (wanted : Assertion) :
    doc.TripleIn modes (.shown seen wanted) (.shown seen wanted) := by
  intro context state indentation mode rest _ _ _ here
  obtain ⟨front, text, back, sees, wants, split, last, isLast, solid⟩ := here
  obtain ⟨later, ran, keeps, -⟩ := context.exists_run [⟨indentation, mode, doc⟩] state rest
  have isSolid : (Emitter.mk (front ++ text).reverse).IsSolid := by
    intro c head
    rw [List.head?_reverse, List.getLast?_append, isLast] at head
    obtain rfl : last = c := by simpa using head
    exact solid
  have follows : state.out = (Emitter.mk (front ++ text).reverse).following ⟨back.reverse⟩ := by
    refine congrArg Emitter.mk ?_
    rw [← List.reverse_append, ← split, Emitter.chars, List.reverse_reverse]
  obtain ⟨added, there⟩ := keeps _ _ isSolid follows
  refine ⟨later, ran, front, text, added.chars, sees, wants, ?_, last, isLast, solid⟩
  rw [there, Emitter.chars, Emitter.following, List.reverse_append, List.reverse_reverse]
  rfl

theorem triples_of_forall {kept : Assertion} (each : ∀ doc ∈ docs, doc.TripleIn modes kept kept) :
    TriplesIn modes docs kept kept := by
  induction docs with
  | nil => exact .nil fun _ _ holds => holds
  | cons doc docs ih =>
    obtain ⟨here, others⟩ := List.forall_mem_cons.mp each
    exact .cons here (ih others)

/-! ### What documents are made of -/

/-- However a document is laid out, it adds these characters. -/
abbrev Doc.Adds (doc : Doc) (cs : List Char) : Prop :=
  ∀ before : Assertion, doc.Triple before (before.followedBy cs)

theorem Doc.adds_of_verbatim? {cs : List Char} (same : doc.verbatim? = some cs) : doc.Adds cs := by
  intro before context state indentation mode rest _ _ ordinary holds
  obtain ⟨later, ran, written⟩ := Doc.writes_of_verbatim? same context state indentation mode rest ordinary.root
  exact ⟨later, ran, state.out.chars, holds, written⟩

theorem TriplesIn.run (triples : TriplesIn modes docs before after) (context : RenderContext) {state : RenderState}
    (indentation : Indentation) (mode : Mode) (rest : List Command) (isMode : modes mode)
    (knows : ∀ doc ∈ docs, context.Knows doc) (ordinary : indentation.Ordinary)
    (holds : before context.config.lineEnding state.out.chars) :
    ∃ later, context.run state (docs.map (Command.mk indentation mode) ++ rest) = context.run later rest ∧
      after context.config.lineEnding later.out.chars := by
  induction triples generalizing state with
  | nil weaker => exact ⟨state, rfl, weaker _ _ holds⟩
  | @cons doc docs _ _ _ here _ ih =>
    obtain ⟨knowsFirst, knowsOthers⟩ := List.forall_mem_cons.mp knows
    obtain ⟨middle, ran, between⟩ :=
      here context state indentation mode (docs.map (Command.mk indentation mode) ++ rest) isMode knowsFirst ordinary holds
    obtain ⟨later, ranOthers, there⟩ := ih knowsOthers between
    exact ⟨later, ran.trans ranOthers, there⟩

theorem Doc.triple_concat (mark : Mark) (triples : TriplesIn modes docs before after) :
    (Doc.concat mark docs).TripleIn modes before after := by
  intro context state indentation mode rest isMode knows ordinary holds
  obtain ⟨later, ran, there⟩ :=
    triples.run context indentation mode rest isMode (fun _ member => knows.child member) ordinary holds
  refine ⟨later, ?_, there⟩
  rw [RenderContext.run_cons, ← ran]
  rfl

theorem RenderContext.exists_opened (context : RenderContext) (state : RenderState) (indentation : Indentation)
    (mode : Mode) (rest : List Command) (mark : Mark) (info : GroupInfo) (body : Doc) :
    ∃ opened chosen, context.run state (⟨indentation, mode, .group mark info body⟩ :: rest) =
        context.run opened (⟨indentation, chosen, body⟩ :: rest) ∧ opened.out = state.out ∧
      (context.breaks.isBroken mark info = true → chosen = .broken) := by
  let command : Command := ⟨indentation, mode, .group mark info body⟩
  have opens : ∃ chosen, (context.openGroup state rest command mark info body []).2 = command.on chosen body ∧
      (context.breaks.isBroken mark info = true → chosen = .broken) := by
    unfold openGroup
    dsimp only
    split
    · unfold chooseMeasured
      dsimp only
      split
      · next fits => exact ⟨.flat, rfl, fun broken => by rw [broken] at fits; cases fits⟩
      · exact ⟨.broken, rfl, fun _ => rfl⟩
    · exact ⟨_, rfl, fun broken => if_pos broken⟩
  obtain ⟨chosen, isChosen, broken⟩ := opens
  refine ⟨(context.openGroup state rest command mark info body []).1, chosen, ?_, rfl, broken⟩
  rw [run_cons]
  unfold renderStep
  dsimp only
  rw [isChosen]
  rfl

/-- A group that forces a break is laid out broken, so nothing need be known of its body in flat mode. -/
theorem Doc.triple_group (mark : Mark) (info : GroupInfo) (triple : doc.TripleIn modes before after)
    (inBroken : modes .broken) (inFlat : modes .flat ∨ doc.Forces) : (Doc.group mark info doc).Triple before after := by
  intro context state indentation mode rest _ knows ordinary holds
  obtain ⟨opened, chosen, ran, kept, broken⟩ := context.exists_opened state indentation mode rest mark info doc
  have isMode : modes chosen := by
    cases chosen with
    | broken => exact inBroken
    | flat => exact inFlat.resolve_right fun forces => Mode.noConfusion (broken (knows mark info doc (.here _) forces))
  obtain ⟨later, ranBody, there⟩ := triple context opened indentation chosen rest isMode
    (knows.child (List.mem_singleton_self _)) ordinary (by rwa [kept])
  exact ⟨later, ran.trans ranBody, there⟩

theorem Doc.triple_indent (mark : Mark) (triple : doc.TripleIn modes before after) :
    (Doc.indent mark doc).TripleIn modes before after := by
  intro context state indentation mode rest isMode knows ordinary holds
  obtain ⟨later, ran, there⟩ := triple context state (indentation.indent context.config) mode rest isMode
    (knows.child (List.mem_singleton_self _)) (ordinary.indent context.config) holds
  refine ⟨later, ?_, there⟩
  rw [← ran, RenderContext.run_cons]
  rfl

theorem Doc.triple_indentIfBreak (mark : Mark) (id : GroupId) (negate : Bool) (triple : doc.Triple before after) :
    (Doc.indentIfBreak mark doc id negate).Triple before after := by
  intro context state indentation mode rest isMode knows ordinary holds
  have inside := knows.child (List.mem_singleton_self _)
  rw [RenderContext.run_cons]
  unfold RenderContext.renderStep
  dsimp only
  split
  · exact triple context state indentation mode rest isMode inside ordinary holds
  · exact triple context state (indentation.indent context.config) mode rest isMode inside
      (ordinary.indent context.config) holds

/-- A fill lays out its parts one after the other, in whatever modes. -/
theorem Doc.triple_fill (mark : Mark) {parts : List Doc} {before after : Assertion}
    (triples : Triples parts before after) : (Doc.fill mark parts).Triple before after := by
  intro context state indentation mode rest _ knows ordinary holds
  rw [RenderContext.run_cons]
  unfold RenderContext.renderStep
  dsimp only
  match parts, triples with
  | [], .nil weaker => exact ⟨state, rfl, weaker _ _ holds⟩
  | [_], .cons first (.nil weaker) =>
    have first := first.mono (fun _ _ holds => holds) weaker
    have knowsFirst := knows.child List.mem_cons_self
    unfold RenderContext.openFill
    dsimp only
    split
    · exact first context state indentation _ rest trivial knowsFirst ordinary holds
    · exact first context state indentation _ rest trivial knowsFirst ordinary holds
  | [_, _], .cons first (.cons second (.nil weaker)) =>
    have knowsFirst := knows.child List.mem_cons_self
    have knowsSecond := knows.child (List.mem_cons_of_mem _ List.mem_cons_self)
    obtain ⟨middle, ran, between⟩ := first context state indentation _ _ trivial knowsFirst ordinary holds
    obtain ⟨later, ranSecond, there⟩ := second context middle indentation _ rest trivial knowsSecond ordinary between
    exact ⟨later, ran.trans ranSecond, weaker _ _ there⟩
  | _ :: _ :: next :: others, .cons first (.cons second triples) =>
    have knowsFirst := knows.child List.mem_cons_self
    have knowsSecond := knows.child (List.mem_cons_of_mem _ List.mem_cons_self)
    have knowsOthers : context.Knows (Doc.fill mark (next :: others)) :=
      RenderContext.knows_of_children rfl fun _ member =>
        knows.child (List.mem_cons_of_mem _ (List.mem_cons_of_mem _ member))
    obtain ⟨one, ran, afterFirst⟩ := first context state indentation _ _ trivial knowsFirst ordinary holds
    obtain ⟨two, ranSecond, afterSecond⟩ := second context one indentation _ _ trivial knowsSecond ordinary afterFirst
    obtain ⟨later, ranOthers, there⟩ :=
      Doc.triple_fill mark triples context two indentation mode rest trivial knowsOthers ordinary afterSecond
    exact ⟨later, (ran.trans ranSecond).trans ranOthers, there⟩
  termination_by parts.length

theorem triples_of_verbatimAll? {cs : List Char} (same : Doc.verbatimAll? docs = some cs) (before : Assertion) :
    Triples docs before (before.followedBy cs) := by
  induction docs generalizing before cs with
  | nil =>
    cases same
    exact .nil fun ending out holds => ⟨out, holds, (List.append_nil out).symm⟩
  | cons doc docs ih =>
    obtain ⟨first, others, here, there, rfl⟩ := Doc.verbatimAll?_cons_eq_some.mp same
    refine .cons (Doc.adds_of_verbatim? here before) ((ih there _).weaken ?_)
    rintro ending _ ⟨_, ⟨front, holds, rfl⟩, rfl⟩
    exact ⟨front, holds, by rw [writtenChars_append, List.append_assoc]⟩

theorem Doc.triple_of_verbatim?_nil (same : doc.verbatim? = some []) (before : Assertion) :
    doc.TripleIn modes before before := by
  refine Doc.tripleIn_of_triple ((Doc.adds_of_verbatim? same before).mono (fun _ _ holds => holds) ?_)
  rintro ending _ ⟨front, holds, rfl⟩
  rwa [writtenChars, List.flatMap_nil, List.append_nil]

/-- After a text that does not end in a blank, a soft line at the margin adds nothing or a line break. -/
theorem Doc.triple_dedentedLine (mark lineMark : Mark) (solid : ∀ ending out, before ending out → EndsSolid out) :
    (Doc.align mark .dedentToRoot (.line lineMark .soft)).TripleIn modes before fun ending cs =>
      ∃ out lead, before ending out ∧ ((modes .flat ∧ lead = []) ∨ lead = ['\n']) ∧ cs = out ++ writtenChars ending lead := by
  intro context state indentation mode rest isMode _ ordinary holds
  refine ⟨context.writeLine state .soft .none mode, ?_, ?_⟩
  · rw [RenderContext.run_cons]
    unfold RenderContext.renderStep Indentation.align
    dsimp only
    rw [ordinary.root]
    exact RenderContext.run_cons ..
  · cases mode with
    | flat => exact ⟨_, [], holds, .inl ⟨isMode, rfl⟩, (List.append_nil _).symm⟩
    | broken =>
      obtain ⟨last, isLast, noBlank⟩ := solid _ _ holds
      have isSolid : state.out.IsSolid := by
        intro c head
        rw [← List.getLast?_reverse, show state.out.reversed.reverse.getLast? = _ from isLast] at head
        rwa [← Option.some.inj head]
      have kept : state.out.trim = state.out := congrArg Emitter.mk isSolid.dropWhile_eq
      refine ⟨_, ['\n'], holds, .inr rfl, ?_⟩
      have written : writtenChars context.config.lineEnding ['\n'] = context.config.lineEnding.text.toList :=
        List.append_nil _
      rw [written]
      simp [RenderContext.writeLine, RenderContext.breakLine, kept, Emitter.newline, Indentation.none, Emitter.chars,
        Emitter.emit]

/-! ### Showing -/

variable {lead cs : List Char}

/-- However a document is laid out, a wanted text is shown in it behind these characters. -/
abbrev Doc.Shows (wanted : Assertion) (lead : List Char) (doc : Doc) : Prop :=
  ∀ seen, doc.Triple (.sees seen) (.shown (seen ++ lead) wanted)

theorem EndsSolid.append (solid : EndsSolid cs) (front : List Char) : EndsSolid (front ++ cs) := by
  obtain ⟨last, isLast, noBlank⟩ := solid
  exact ⟨last, by rw [List.getLast?_append, isLast]; rfl, noBlank⟩

theorem EndsSolid.written (solid : EndsSolid cs) (ending : LineEnding) : EndsSolid (writtenChars ending cs) := by
  obtain ⟨last, isLast, noBlank⟩ := solid
  obtain ⟨front, rfl⟩ := List.getLast?_eq_some_iff.mp isLast
  rw [writtenChars_append]
  refine EndsSolid.append ?_ _
  by_cases feed : last = '\n'
  · subst feed
    cases ending <;> exact ⟨_, rfl, by decide⟩
  · rw [Text.writtenChars_of_not_mem ending (by simpa using Ne.symm feed)]
    exact ⟨last, rfl, noBlank⟩

theorem Doc.shows_of_adds {front run back : List Char} (adds : doc.Adds (front ++ run ++ back))
    (wants : ∀ ending, wanted ending (writtenChars ending run)) (solid : EndsSolid run) :
    doc.Shows wanted (visible front) := by
  refine fun seen => (adds (.sees seen)).mono (fun _ _ holds => holds) ?_
  rintro ending _ ⟨out, rfl, rfl⟩
  refine ⟨out ++ writtenChars ending front, _, writtenChars ending back, ?_, wants ending, ?_, solid.written ending⟩
  · rw [visible_append, Text.visible_writtenChars]
  · simp [writtenChars_append]

/-- One of the documents shows a wanted text, behind what is seen of those before it. -/
inductive ShowsAmong (wanted : Assertion) : List Char → List Doc → Prop where
  | here {lead : List Char} {doc : Doc} {docs : List Doc} : doc.Shows wanted lead → ShowsAmong wanted lead (doc :: docs)
  | there {cs lead : List Char} {doc : Doc} {docs : List Doc} : doc.Inked cs → ShowsAmong wanted lead docs →
    ShowsAmong wanted (cs ++ lead) (doc :: docs)

theorem ShowsAmong.ne_nil (among : ShowsAmong wanted lead docs) : docs ≠ [] := by
  cases among <;> exact List.cons_ne_nil _ _

theorem ShowsAmong.append (among : ShowsAmong wanted lead docs) (more : List Doc) :
    ShowsAmong wanted lead (docs ++ more) := by
  induction among with
  | here shows => exact .here shows
  | there inked _ ih => exact .there inked ih

theorem ShowsAmong.behind {front : List Doc} (among : ShowsAmong wanted lead docs) (inked : Doc.InkedAll cs front) :
    ShowsAmong wanted (cs ++ lead) (front ++ docs) := by
  induction front generalizing cs with
  | nil =>
    obtain rfl : [] = cs := inked.ink
    exact among
  | cons first front ih =>
    obtain ⟨steady, others⟩ := List.forall_mem_cons.mp inked.steady
    rw [← inked.ink, Doc.inkAll, List.append_assoc]
    exact .there ⟨steady, rfl⟩ (ih ⟨others, rfl⟩)

theorem ShowsAmong.intersperse {separator : Doc} (among : ShowsAmong wanted lead docs) (blank : separator.Inked []) :
    ShowsAmong wanted lead (docs.intersperse separator) := by
  induction among with
  | @here _ _ docs shows =>
    cases docs with
    | nil => exact .here shows
    | cons next docs => exact .here shows
  | @there _ _ _ docs inked among ih =>
    cases docs with
    | nil => exact absurd rfl among.ne_nil
    | cons next docs => exact .there inked (.there blank ih)

theorem ShowsAmong.triples (among : ShowsAmong wanted lead docs) (seen : List Char) :
    Triples docs (.sees seen) (.shown (seen ++ lead) wanted) := by
  induction among generalizing seen with
  | here shows => exact .cons (shows seen) (triples_of_forall fun doc _ => doc.triple_shown _ wanted)
  | there inked _ ih =>
    rw [← List.append_assoc]
    exact .cons (Doc.triple_sees inked seen) (ih _)

/-- Whatever a document shows is in the text that it is rendered to. -/
theorem Doc.shown_render (shows : doc.Shows wanted lead) (apart : doc.MarksTellApart) (config : Config) :
    wanted.shown lead config.lineEnding (doc.render config).toList := by
  have knows := RenderContext.knows_breaks apart config
  obtain ⟨later, ran, there⟩ :=
    shows [] ⟨config, doc.breaks⟩ {} .none .broken [] trivial knows Indentation.ordinary_none rfl
  unfold Doc.render Doc.renderInto Emitter.text
  rw [String.toList_ofList, ran, RenderContext.run]
  exact there

/-! ### Building -/

namespace Build

theorem triple_concat (triples : TriplesIn modes docs before after) :
    Yields (concat docs) fun doc => doc.TripleIn modes before after :=
  yields_bind yields_freshMark fun mark _ => yields_pure (Doc.triple_concat mark triples)

theorem triple_groupWith (triple : doc.TripleIn modes before after) (inBroken : modes .broken)
    (inFlat : modes .flat ∨ doc.Forces) (id : Option GroupId) (mustBreak : Bool) :
    Yields (groupWith doc id mustBreak) fun doc => doc.Triple before after :=
  yields_bind yields_freshMark fun mark _ => yields_pure (Doc.triple_group mark _ triple inBroken inFlat)

theorem triple_indent (triple : doc.TripleIn modes before after) :
    Yields (indent doc) fun doc => doc.TripleIn modes before after :=
  yields_bind yields_freshMark fun mark _ => yields_pure (Doc.triple_indent mark triple)

theorem triple_fill (triples : Triples docs before after) : Yields (fill docs) fun doc => doc.Triple before after := by
  unfold fill
  split
  · exact yields_throw
  · exact yields_bind yields_freshMark fun mark _ => yields_pure (Doc.triple_fill mark triples)

theorem triple_triple {first second third : Build Doc} {start stop : Assertion}
    (one : Yields first fun doc => doc.TripleIn modes start before)
    (two : Yields second fun doc => doc.TripleIn modes before after)
    (three : Yields third fun doc => doc.TripleIn modes after stop) :
    Yields (seq [first, second, third]) fun doc => doc.TripleIn modes start stop := by
  have parts : Yields ([first, second, third].mapM id) fun docs => TriplesIn modes docs start stop := by
    simp only [List.mapM_cons, List.mapM_nil, id]
    refine yields_bind one fun _ one => yields_bind ?_ fun _ rest => yields_pure (.cons one rest)
    refine yields_bind two fun _ two => yields_bind ?_ fun _ rest => yields_pure (.cons two rest)
    refine yields_bind three fun _ three => yields_bind (yields_pure ?_) fun _ rest => yields_pure (.cons three rest)
    exact .nil fun _ _ holds => holds
  exact yields_bind parts fun _ => triple_concat

variable {lead : List Char}

theorem shows_concat (among : ShowsAmong wanted lead docs) : Yields (concat docs) (Doc.Shows wanted lead) :=
  yields_bind yields_freshMark fun mark _ => yields_pure fun seen => Doc.triple_concat mark (among.triples seen)

theorem shows_triple {first second third : Build Doc} {front : List Char} (one : Inks first front)
    (two : Yields second (Doc.Shows wanted lead)) :
    Yields (seq [first, second, third]) (Doc.Shows wanted (front ++ lead)) := by
  have parts : Yields ([first, second, third].mapM id) (ShowsAmong wanted (front ++ lead)) := by
    rw [List.mapM_cons, List.mapM_cons]
    refine yields_bind one fun _ inked => yields_bind ?_ fun _ among => yields_pure (.there inked among)
    exact yields_bind two fun _ shows => yields_bind yields_true fun _ _ => yields_pure (.here shows)
  exact yields_bind parts fun _ => shows_concat

theorem shows_fill (among : ShowsAmong wanted lead docs) : Yields (fill docs) (Doc.Shows wanted lead) := by
  unfold fill
  split
  · exact yields_throw
  · exact yields_bind yields_freshMark fun mark _ => yields_pure fun seen => Doc.triple_fill mark (among.triples seen)

theorem shows_groupWith (shows : doc.Shows wanted lead) (id : Option GroupId) (mustBreak : Bool) :
    Yields (groupWith doc id mustBreak) (Doc.Shows wanted lead) :=
  yields_bind yields_freshMark fun mark _ =>
    yields_pure fun seen => Doc.triple_group mark _ (shows seen) trivial (.inl trivial)

theorem shows_indent (shows : doc.Shows wanted lead) : Yields (indent doc) (Doc.Shows wanted lead) :=
  yields_bind yields_freshMark fun mark _ => yields_pure fun seen => Doc.triple_indent mark (shows seen)

theorem shows_indentIfBreak (shows : doc.Shows wanted lead) (id : GroupId) (negate : Bool) :
    Yields (indentIfBreak doc id negate) (Doc.Shows wanted lead) :=
  yields_bind yields_freshMark fun mark _ =>
    yields_pure fun seen => Doc.triple_indentIfBreak mark id negate (shows seen)

end Build

end Triples

/-! ### Texts in order -/

/-- The texts follow each other in the characters, and none overlaps the next. -/
def InOrder : List (List Char) → List Char → Prop
  | [], _ => True
  | text :: texts, cs => ∃ front back, cs = front ++ text ++ back ∧ InOrder texts back

variable {doc : Doc} {docs : List Doc} {texts later : List (List Char)} {text cs front back : List Char}

theorem InOrder.before (front : List Char) (ordered : InOrder texts back) : InOrder texts (front ++ back) := by
  cases texts with
  | nil => trivial
  | cons text texts =>
    obtain ⟨between, behind, rfl, others⟩ := ordered
    exact ⟨front ++ between, behind, by simp only [List.append_assoc], others⟩

theorem InOrder.append (first : InOrder texts front) (second : InOrder later back) :
    InOrder (texts ++ later) (front ++ back) := by
  induction texts generalizing front with
  | nil => exact second.before front
  | cons text texts ih =>
    obtain ⟨between, behind, rfl, others⟩ := first
    exact ⟨between, behind ++ back, List.append_assoc .., ih others⟩

/-- The last of the texts ends where nothing is taken back. -/
theorem InOrder.exists_solid (solid : ∀ text ∈ texts, EndsSolid text) (ordered : InOrder texts cs) :
    ∃ front back, cs = front ++ back ∧ InOrder texts front ∧ (front = [] ∨ EndsSolid front) := by
  induction texts generalizing cs with
  | nil => exact ⟨[], cs, rfl, trivial, .inl rfl⟩
  | cons text texts ih =>
    obtain ⟨here, others⟩ := List.forall_mem_cons.mp solid
    obtain ⟨between, behind, rfl, rest⟩ := ordered
    obtain ⟨front, back, rfl, inFront, ends⟩ := ih others rest
    refine ⟨between ++ text ++ front, back, by simp only [List.append_assoc], ⟨between, front, rfl, inFront⟩, .inr ?_⟩
    obtain rfl | ⟨last, isLast, noBlank⟩ := ends
    · obtain ⟨last, isLast, noBlank⟩ := here
      exact ⟨last, by rw [List.append_nil, List.getLast?_append, isLast]; rfl, noBlank⟩
    · exact ⟨last, by rw [List.getLast?_append, isLast]; rfl, noBlank⟩

/-! ### Documents that show texts -/

/-- The texts are shown in order, with the line endings that are asked for. -/
def Assertion.inOrder (texts : List (List Char)) : Assertion :=
  fun ending cs => InOrder (texts.map (writtenChars ending)) cs

/-- Texts that end in no blank, whatever the line endings. -/
def Solid (texts : List (List Char)) : Prop :=
  ∀ ending, ∀ text ∈ texts, EndsSolid (writtenChars ending text)

/-- Whatever was shown before a document, it shows the texts after that. -/
structure Doc.ShowsInOrder (texts : List (List Char)) (doc : Doc) : Prop where
  solid : Solid texts
  shows : ∀ earlier, Solid earlier → doc.Triple (.inOrder earlier) (.inOrder (earlier ++ texts))

theorem solid_nil : Solid [] :=
  fun _ _ member => absurd member List.not_mem_nil

theorem Solid.append (first : Solid texts) (second : Solid later) : Solid (texts ++ later) :=
  fun ending => List.forall_mem_append.mpr ⟨first ending, second ending⟩

theorem Doc.triple_inOrder (doc : Doc) (solid : Solid texts) : doc.Triple (.inOrder texts) (.inOrder texts) := by
  intro context state indentation mode rest _ _ _ ordered
  have written : ∀ text ∈ texts.map (writtenChars context.config.lineEnding), EndsSolid text :=
    List.forall_mem_map.mpr (solid _)
  obtain ⟨front, back, split, inFront, ends⟩ := InOrder.exists_solid written ordered
  obtain ⟨later, ran, keeps, -⟩ := context.exists_run [⟨indentation, mode, doc⟩] state rest
  have isSolid : (Emitter.mk front.reverse).IsSolid := by
    intro c head
    obtain rfl | ⟨last, isLast, noBlank⟩ := ends
    · cases head
    · rw [List.head?_reverse, isLast] at head
      rwa [← Option.some.inj head]
  have follows : state.out = (Emitter.mk front.reverse).following ⟨back.reverse⟩ := by
    refine congrArg Emitter.mk ?_
    rw [← List.reverse_append, ← split, Emitter.chars, List.reverse_reverse]
  obtain ⟨added, there⟩ := keeps _ _ isSolid follows
  refine ⟨later, ran, ?_⟩
  have kept : later.out.chars = front ++ added.chars := by
    rw [there, Emitter.chars, Emitter.following, List.reverse_append, List.reverse_reverse]
    rfl
  have whole : InOrder (_ ++ []) (front ++ added.chars) := inFront.append trivial
  rwa [List.append_nil, ← kept] at whole

theorem Doc.showsInOrder_nil (doc : Doc) : doc.ShowsInOrder [] :=
  ⟨solid_nil, fun earlier solid => (List.append_nil earlier).symm ▸ doc.triple_inOrder solid⟩

theorem Doc.showsInOrder_of_adds (adds : doc.Adds text) (solid : Solid [text]) : doc.ShowsInOrder [text] := by
  refine ⟨solid, fun earlier _ => (adds (.inOrder earlier)).mono (fun _ _ holds => holds) ?_⟩
  rintro ending _ ⟨front, ordered, rfl⟩
  unfold Assertion.inOrder
  rw [List.map_append]
  exact ordered.append ⟨[], [], (List.append_nil _).symm, trivial⟩

theorem triples_of_inTurn (inTurn : InTurn Doc.ShowsInOrder texts docs) :
    Solid texts ∧ ∀ earlier, Solid earlier → Triples docs (.inOrder earlier) (.inOrder (earlier ++ texts)) := by
  induction inTurn with
  | nil => exact ⟨solid_nil, fun earlier _ => .nil fun ending cs ordered => by rwa [List.append_nil]⟩
  | @cons texts _ _ _ here _ ih =>
    refine ⟨here.solid.append ih.1, fun earlier solid => .cons (here.shows earlier solid) ?_⟩
    rw [← List.append_assoc]
    exact ih.2 (earlier ++ texts) (solid.append here.solid)

theorem Doc.gathers_showsInOrder : Doc.Gathers Doc.ShowsInOrder where
  nothing := Doc.showsInOrder_nil
  concat mark _ _ inTurn :=
    ⟨(triples_of_inTurn inTurn).1, fun earlier solid => Doc.triple_concat mark ((triples_of_inTurn inTurn).2 earlier solid)⟩
  group mark info _ _ here :=
    ⟨here.solid, fun earlier solid => Doc.triple_group mark info (here.shows earlier solid) trivial (.inl trivial)⟩
  indent mark _ _ here := ⟨here.solid, fun earlier solid => Doc.triple_indent mark (here.shows earlier solid)⟩
  indentIfBreak mark _ _ id negate here :=
    ⟨here.solid, fun earlier solid => Doc.triple_indentIfBreak mark id negate (here.shows earlier solid)⟩

/-- What a document shows in order stands in order in the text that it is rendered to. -/
theorem Doc.inOrder_render (shows : doc.ShowsInOrder texts) (apart : doc.MarksTellApart) (config : Config) :
    InOrder (texts.map (writtenChars config.lineEnding)) (doc.render config).toList := by
  have knows := RenderContext.knows_breaks apart config
  obtain ⟨later, ran, there⟩ :=
    shows.shows [] solid_nil ⟨config, doc.breaks⟩ {} .none .broken [] trivial knows Indentation.ordinary_none trivial
  unfold Doc.render Doc.renderInto Emitter.text
  rw [String.toList_ofList, ran, RenderContext.run]
  exact there

end MarkupFormat.Layout
