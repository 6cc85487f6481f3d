import MarkupFormat.Proofs.Layout.Moments
import MarkupFormat.Proofs.Layout.Stripped
import MarkupFormat.Proofs.Layout.Unbroken

/-!
# Documents that seem to be empty

`Doc.isEmpty` looks at the bodies of groups with alternatives and not at the alternatives (`isEmpty_iff`), but a
renderer lays out one of these where the group has to break or its body does not fit. `render_of_isEmpty` tells that
nothing else makes such a document write something, and when no group can do so: if the alternatives that are laid out
by force are empty too, and looking ahead never comes to the end of the line.
-/

namespace MarkupFormat.Layout

open Text (Ruler displayWidth)

theorem walk_of_stops {visitor : Visitor Unit} {p : Doc → Bool}
    (stops : ∀ state node, visitor.enter state node = (if p node then .proceed else .stop, ())) (alternatives : Bool)
    (frames : List Frame) :
    (walk visitor alternatives () frames).1 = true ↔
      ∀ doc, .enter doc ∈ frames → doc.Throughout (Doc.children alternatives) (p · = true) := by
  fun_induction walk visitor alternatives () frames with
  | case1 => simp
  | case2 state doc frames ih => simpa using ih
  | case3 state doc frames after entered =>
    rw [stops] at entered
    split at entered
    · cases entered
    · next other =>
      refine iff_of_false nofun fun all => other ?_
      exact (Doc.throughout_iff.mp (all doc List.mem_cons_self)).1
  | case4 state doc frames after entered =>
    rw [stops] at entered
    split at entered <;> cases entered
  | case5 state doc frames after entered ih =>
    rw [stops] at entered
    split at entered
    · next here =>
      rw [ih]
      simp only [List.mem_append, List.mem_map, Frame.enter.injEq, exists_eq_right, List.mem_cons, reduceCtorEq,
        false_or, or_imp, forall_and, forall_eq]
      rw [Doc.throughout_iff]
      exact and_congr_left fun _ => (and_iff_right here).symm
    · cases entered

namespace Doc

/-- Whether a node writes nothing beside what is below it, however it is laid out. -/
def isBare : Doc → Bool
  | text _ content => content = ""
  | line .. | breakParent _ | trim _ => false
  | _ => true

theorem isEmpty_iff {doc : Doc} : doc.isEmpty = true ↔ doc.Throughout (children false) (isBare · = true) := by
  unfold isEmpty Doc.walk
  rw [@walk_of_stops _ isBare]
  · simp
  · intro _ node
    cases node with
    | text mark content => by_cases none : content = "" <;> simp [isBare, none]
    | _ => rfl

/-- The nodes below a node that a renderer may lay out in its place, given which groups have to break: the body of a
group with alternatives, and the most expanded alternative if the group has to break. -/
def laidOut (forced : Mark → GroupInfo → Bool) : Doc → List Doc
  | choice mark info body first others => if forced mark info then [body, others.getLastD first] else [body]
  | doc => doc.children false

/-- Nothing that may be laid out of a document writes anything. -/
abbrev LaysOutNothing (forced : Mark → GroupInfo → Bool) (doc : Doc) : Prop :=
  doc.Throughout (laidOut forced) (isBare · = true)

theorem isEmpty_iff_laysOutNothing {doc : Doc} : doc.isEmpty = true ↔ doc.LaysOutNothing fun _ _ => false := by
  have bodies : laidOut (fun _ _ => false) = children false := by
    funext doc
    cases doc <;> rfl
  unfold LaysOutNothing
  rw [bodies]
  exact isEmpty_iff

theorem laysOutNothing_of_isEmpty {doc : Doc} {forced : Mark → GroupInfo → Bool} (empty : doc.isEmpty = true)
    (expanded : ∀ mark info body first others, doc.Descends (laidOut forced) (.choice mark info body first others) →
      forced mark info = true → (others.getLastD first).isEmpty = true) :
    doc.LaysOutNothing forced := by
  suffices empties : doc.Throughout (laidOut forced) (·.isEmpty = true) from
    fun node descends => (throughout_iff.mp (isEmpty_iff.mp (empties node descends))).1
  intro node descends
  induction descends with
  | here => exact empty
  | @down doc child last member _ ih =>
    refine ih ?_ fun mark info body first others inside => expanded mark info body first others (.down member inside)
    have below (inside : child ∈ doc.children false) : child.isEmpty = true :=
      isEmpty_iff.mpr ((throughout_iff.mp (isEmpty_iff.mp empty)).2 child inside)
    cases doc with
    | choice mark info body first others =>
      have last := expanded mark info body first others (.here _)
      simp only [laidOut] at member
      split at member
      · next force =>
        rcases List.mem_cons.mp member with rfl | member
        · exact below List.mem_cons_self
        · rw [List.mem_singleton.mp member]
          exact last force
      · exact below member
    | _ => exact below member

/-! ### Columns -/

mutual

/-- The columns that looking ahead at a document can take. Of a group with alternatives it may look at the body or at
the most expanded alternative. -/
def extent (ruler : Ruler) : Doc → Nat
  | text _ content => displayWidth content ruler
  | line _ kind => if kind = .plain then 1 else 0
  | breakParent _ | trim _ => 0
  | concat _ parts | fill _ parts => extents ruler parts
  | indent _ body | align _ _ body | group _ _ body | indentIfBreak _ body _ _ | label _ _ body => body.extent ruler
  | choice _ _ body first others => max (body.extent ruler) (lastExtent ruler (first.extent ruler) others)
  | ifBreak _ broken flat _ => max (broken.extent ruler) (flat.extent ruler)

/-- The columns of several documents. -/
def extents (ruler : Ruler) : List Doc → Nat
  | [] => 0
  | doc :: docs => doc.extent ruler + extents ruler docs

/-- The columns of the last of several documents, if there is one. -/
def lastExtent (ruler : Ruler) (none : Nat) : List Doc → Nat
  | [] => none
  | doc :: docs => lastExtent ruler (doc.extent ruler) docs

end

theorem lastExtent_eq (ruler : Ruler) (first : Doc) (others : List Doc) :
    lastExtent ruler (first.extent ruler) others = (others.getLastD first).extent ruler := by
  induction others generalizing first with
  | nil => rfl
  | cons doc docs ih => rw [lastExtent, ih, List.getLastD_cons]

theorem extent_choice (ruler : Ruler) (mark : Mark) (info : GroupInfo) (body first : Doc) (others : List Doc) :
    (choice mark info body first others).extent ruler =
      max (body.extent ruler) ((others.getLastD first).extent ruler) := by
  rw [extent, lastExtent_eq]

end Doc

/-- The columns that looking ahead at commands can take. -/
def Command.extents (ruler : Ruler) (commands : List Command) : Nat :=
  Doc.extents ruler (commands.map (·.doc))

namespace Command

variable {ruler : Ruler}

theorem extents_cons (command : Command) (commands : List Command) :
    extents ruler (command :: commands) = command.doc.extent ruler + extents ruler commands := rfl

theorem extents_append (commands more : List Command) :
    extents ruler (commands ++ more) = extents ruler commands + extents ruler more := by
  induction commands with
  | nil => exact (Nat.zero_add _).symm
  | cons command commands ih => rw [List.cons_append, extents_cons, extents_cons, ih, Nat.add_assoc]

theorem extents_map_on (command : Command) (mode : Mode) (docs : List Doc) :
    extents ruler (docs.map (command.on mode)) = Doc.extents ruler docs := by
  unfold extents
  rw [List.map_map]
  exact congrArg _ (List.map_id docs)

end Command

namespace Lookahead

variable {look : Lookahead} {line : Line}

theorem extents_glance (lenient : look.mustBeFlat = false) (line : Line) (command : Command) :
    look.glance line command = .settled true ∨
      ∃ after next, look.glance line command = .go after next ∧
        line.room + Command.extents look.config.ruler next ≤
          after.room + command.doc.extent look.config.ruler := by
  obtain ⟨indentation, mode, doc⟩ := command
  have one {child : Doc} {next : Mode} (less : child.extent look.config.ruler ≤ doc.extent look.config.ruler) :
      line.room + Command.extents look.config.ruler [⟨indentation, next, child⟩] ≤
        line.room + doc.extent look.config.ruler := by
    rw [Command.extents_cons]
    simp only [Command.extents, List.map_nil, Doc.extents]
    omega
  cases doc with
  | text mark content =>
    have least : counted (displayWidth content look.config.ruler) ≤ displayWidth content look.config.ruler :=
      Nat.min_le_left _ _
    refine .inr ⟨_, _, rfl, ?_⟩
    simp only [Command.extents, List.map_nil, Doc.extents, Line.write, Doc.extent]
    omega
  | concat mark parts | fill mark parts =>
    refine .inr ⟨_, _, rfl, ?_⟩
    rw [Command.extents_map_on]
    exact Int.le_refl _
  | indent | align | indentIfBreak | label => exact .inr ⟨_, _, rfl, one (Nat.le_refl _)⟩
  | trim =>
    refine .inr ⟨_, _, rfl, ?_⟩
    simp only [Command.extents, List.map_nil, Doc.extents, Doc.extent]
    omega
  | breakParent => exact .inr ⟨_, _, rfl, Int.le_refl _⟩
  | group mark info body =>
    simp only [glance, lenient, Bool.false_and, if_neg Bool.false_ne_true]
    exact .inr ⟨_, _, rfl, one (Nat.le_refl _)⟩
  | choice mark info body first others =>
    simp only [glance, lenient, Bool.false_and, if_neg Bool.false_ne_true]
    split
    · exact .inr ⟨_, _, rfl, one (Doc.extent_choice .. ▸ Nat.le_max_right ..)⟩
    · exact .inr ⟨_, _, rfl, one (Doc.extent_choice .. ▸ Nat.le_max_left ..)⟩
  | ifBreak mark broken flat id =>
    refine .inr ⟨_, _, rfl, one ?_⟩
    split
    · exact Nat.le_max_left ..
    · exact Nat.le_max_right ..
  | line mark kind =>
    simp only [glance]
    split
    · exact .inl rfl
    · split
      · next plain =>
        refine .inr ⟨_, _, rfl, ?_⟩
        simp only [Command.extents, List.map_nil, Doc.extents, Doc.extent, plain, if_true]
        omega
      · refine .inr ⟨_, _, rfl, ?_⟩
        simp only [Command.extents, List.map_nil, Doc.extents]
        omega

theorem fits_of_extents (lenient : look.mustBeFlat = false) (pending : List Command)
    (enough : (Command.extents look.config.ruler pending : Int) ≤ line.room) : look.fits line pending = true := by
  fun_induction Lookahead.fits look line pending with
  | case1 line pending full => omega
  | case2 => rfl
  | case3 line room command rest answer settled =>
    rcases extents_glance lenient line command with same | ⟨after, next, same, _⟩
    · exact (Glance.settled.inj (settled.symm.trans same))
    · cases settled.symm.trans same
  | case4 line room command rest after next goes ih =>
    refine ih ?_
    rcases extents_glance lenient line command with same | ⟨after', next', same, bound⟩
    · cases goes.symm.trans same
    · cases goes.symm.trans same
      rw [Command.extents_cons] at enough
      rw [Command.extents_append]
      omega

end Lookahead

namespace RenderContext

variable {context : RenderContext} {state : RenderState} {rest : List Command} {command : Command} {mark : Mark}
  {info : GroupInfo} {body first : Doc} {others : List Doc}

/-! ### Steps -/

/-- A bare node leaves what is written and where. -/
theorem out_renderStep_of_bare (bare : command.doc.isBare = true) :
    (context.renderStep state rest command).1.out = state.out ∧
      (context.renderStep state rest command).1.column = state.column := by
  obtain ⟨indentation, mode, doc⟩ := command
  cases doc with
  | text mark content =>
    obtain rfl : content = "" := of_decide_eq_true bare
    have nothing : (Text.writeLineEndings context.config.lineEnding "").toList = [] :=
      Text.toList_writeLineEndings ..
    refine ⟨?_, rfl⟩
    show state.out.emit _ = state.out
    unfold Emitter.emit
    rw [nothing]
    rfl
  | line | breakParent | trim => cases bare
  | _ => exact ⟨rfl, rfl⟩

theorem extents_openFill (ruler : Ruler) (parts : List Doc) :
    Command.extents ruler (context.openFill state command mark parts) = Doc.extents ruler parts := by
  unfold openFill
  split
  · rfl
  · dsimp only
    split <;> rfl
  · rfl
  · simp [Command.extents, Command.on, Doc.extents, Doc.extent]

/-- What lays out nothing gives way to such nodes, if this is so for what is laid out of a group with alternatives. -/
theorem laysOutNothing_renderStep {forced : Mark → GroupInfo → Bool} (nothing : command.doc.LaysOutNothing forced)
    (chosen : ∀ mark info body first others, command.doc = .choice mark info body first others →
      (context.openGroup state rest command mark info body (first :: others)).2.doc.LaysOutNothing forced) :
    ∀ other ∈ (context.renderStep state rest command).2, other.doc.LaysOutNothing forced := by
  obtain ⟨bare, below⟩ := Doc.throughout_iff.mp nothing
  obtain ⟨indentation, mode, doc⟩ := command
  have one {child : Command} (member : child.doc ∈ doc.laidOut forced) :
      ∀ other ∈ [child], other.doc.LaysOutNothing forced :=
    List.forall_mem_singleton.mpr (below child.doc member)
  unfold renderStep
  cases doc with
  | text | line | breakParent | trim => exact fun _ member => absurd member List.not_mem_nil
  | concat mark parts =>
    intro other member
    obtain ⟨part, inside, rfl⟩ := List.mem_map.mp member
    exact below part inside
  | indent | align | label => exact one List.mem_cons_self
  | group mark info body =>
    obtain ⟨mode, same⟩ := chosen_openGroup context state rest ⟨indentation, mode, .group mark info body⟩ mark info body
    dsimp only
    rw [same]
    exact one List.mem_cons_self
  | choice mark info body first others => exact List.forall_mem_singleton.mpr (chosen _ _ _ _ _ rfl)
  | fill mark parts =>
    intro other member
    rcases mem_openFill member with ⟨mode, part, inside, rfl⟩ | ⟨before, later, rfl, rfl⟩
    · exact below part inside
    · exact Doc.throughout_iff.mpr ⟨rfl, fun part inside => below part (List.mem_append_right before inside)⟩
  | ifBreak mark broken flat id =>
    refine one ?_
    split
    · exact List.mem_cons_self
    · exact List.mem_cons_of_mem _ List.mem_cons_self
  | indentIfBreak mark body id negate =>
    refine one ?_
    split <;> exact List.mem_cons_self

/-- What a node gives way to takes no more columns than the node, if this is so for what is laid out of a group with
alternatives. -/
theorem extents_renderStep (ruler : Ruler)
    (chosen : ∀ mark info body first others, command.doc = .choice mark info body first others →
      (context.openGroup state rest command mark info body (first :: others)).2.doc.extent ruler ≤
        command.doc.extent ruler) :
    Command.extents ruler (context.renderStep state rest command).2 ≤ command.doc.extent ruler := by
  obtain ⟨indentation, mode, doc⟩ := command
  have one {child : Command} (less : child.doc.extent ruler ≤ doc.extent ruler) :
      Command.extents ruler [child] ≤ doc.extent ruler := by
    rw [Command.extents_cons]
    exact less
  unfold renderStep
  cases doc with
  | text | line | breakParent | trim => exact Nat.zero_le _
  | concat mark parts => exact Nat.le_of_eq (Command.extents_map_on ..)
  | indent | align | label => exact one (Nat.le_refl _)
  | group mark info body =>
    obtain ⟨mode, same⟩ := chosen_openGroup context state rest ⟨indentation, mode, .group mark info body⟩ mark info body
    dsimp only
    rw [same]
    exact one (Nat.le_refl _)
  | choice mark info body first others => exact one (chosen _ _ _ _ _ rfl)
  | fill mark parts => exact Nat.le_of_eq (extents_openFill ..)
  | ifBreak mark broken flat id =>
    refine one ?_
    split
    · exact Nat.le_max_left ..
    · exact Nat.le_max_right ..
  | indentIfBreak mark body id negate =>
    refine one ?_
    split <;> exact Nat.le_refl _

theorem doc_openGroup_of_broken (broken : context.breaks.isBroken mark info = true)
    (measured : command.mode = .broken ∨ state.remeasure = true) :
    (context.openGroup state rest command mark info body (first :: others)).2.doc = others.getLastD first := by
  have last : (first :: others).getLast? = some (others.getLastD first) := by
    rw [List.getLast?_cons, List.getLastD_eq_getLast?]
  simp [openGroup, chooseMeasured, broken, measured, last, Command.on]

end RenderContext

/-! ### Runs -/

/-- Nothing is written yet, and what waits seems to be empty. -/
structure Moment.SeemsEmpty (moment : Moment) : Prop where
  out_eq : moment.state.out = {}
  empty : ∀ command ∈ moment.pending, command.doc.isEmpty = true

/-- A group with alternatives is next, and instead of its body one of these is laid out that is not empty. -/
def Moment.Surprises (context : RenderContext) (moment : Moment) : Prop :=
  ∃ state command rest mark info body first others, moment = ⟨state, command :: rest⟩ ∧
    command.doc = .choice mark info body first others ∧ ¬context.TakesBody state rest command mark info body ∧
    let chosen := (context.openGroup state rest command mark info body (first :: others)).2
    chosen.doc ∈ first :: others ∧ chosen.doc.isEmpty = false

/-- Nothing is written yet, what may be laid out of what waits is empty, and all that looking ahead can come to fits on
the line. -/
structure Moment.StaysEmpty (context : RenderContext) (moment : Moment) : Prop where
  out_eq : moment.state.out = {}
  column_eq : moment.state.column = 0
  nothing : ∀ command ∈ moment.pending, command.doc.LaysOutNothing context.breaks.isBroken
  fits : Command.extents context.config.ruler moment.pending ≤ counted context.config.printWidth

namespace RenderContext

variable {context : RenderContext} {state : RenderState} {rest : List Command} {command : Command} {mark : Mark}
  {info : GroupInfo} {body first : Doc} {others : List Doc}

theorem seemsEmpty_advance (seems : Moment.SeemsEmpty ⟨state, command :: rest⟩)
    (expected : ¬Moment.Surprises context ⟨state, command :: rest⟩) :
    (context.advance state command rest).SeemsEmpty := by
  obtain ⟨here, behind⟩ := List.forall_mem_cons.mp seems.empty
  have chosen (mark : Mark) (info : GroupInfo) (body first : Doc) (others : List Doc)
      (same : command.doc = .choice mark info body first others) :
      (context.openGroup state rest command mark info body (first :: others)).2.doc.isEmpty = true := by
    obtain ⟨takes, other⟩ := context.doc_openGroup state rest command mark info body first others
    by_cases taken : context.TakesBody state rest command mark info body
    · rw [takes taken]
      rw [same] at here
      exact Doc.isEmpty_iff.mpr ((Doc.throughout_iff.mp (Doc.isEmpty_iff.mp here)).2 body List.mem_cons_self)
    · refine Bool.of_not_eq_false fun full => expected ?_
      exact ⟨state, command, rest, mark, info, body, first, others, rfl, same, taken, other taken, full⟩
  have bare : command.doc.isBare = true := (Doc.throughout_iff.mp (Doc.isEmpty_iff.mp here)).1
  refine ⟨(out_renderStep_of_bare bare).1.trans seems.out_eq, List.forall_mem_append.mpr ⟨?_, behind⟩⟩
  have nothing : ∀ other ∈ (context.renderStep state rest command).2, other.doc.LaysOutNothing fun _ _ => false := by
    refine laysOutNothing_renderStep (Doc.isEmpty_iff_laysOutNothing.mp here) fun mark info body first others same => ?_
    exact Doc.isEmpty_iff_laysOutNothing.mp (chosen mark info body first others same)
  exact fun other member => Doc.isEmpty_iff_laysOutNothing.mpr (nothing other member)

/-- What seems to be empty writes nothing unless a group with alternatives has a surprise. -/
theorem run_of_seemsEmpty (context : RenderContext) (state : RenderState) (pending : List Command)
    (seems : Moment.SeemsEmpty ⟨state, pending⟩) :
    (context.run state pending).out = {} ∨
      ∃ moment, context.Reaches ⟨state, pending⟩ moment ∧ moment.SeemsEmpty ∧ moment.Surprises context := by
  -- Up to the first surprise each step leaves nothing written and only what seems to be empty.
  fun_induction RenderContext.run context state pending with
  | case1 state => exact .inl seems.out_eq
  | case2 state command rest step ih =>
    by_cases surprise : Moment.Surprises context ⟨state, command :: rest⟩
    · exact .inr ⟨_, .refl _, seems, surprise⟩
    · refine (ih (seemsEmpty_advance seems surprise)).imp_right ?_
      rintro ⟨moment, reached, found⟩
      exact ⟨moment, .step reached, found⟩

theorem doc_openGroup_of_staysEmpty (stays : Moment.StaysEmpty context ⟨state, command :: rest⟩)
    (same : command.doc = .choice mark info body first others) :
    let chosen := (context.openGroup state rest command mark info body (first :: others)).2.doc
    chosen = body ∨ context.breaks.isBroken mark info = true ∧ chosen = others.getLastD first := by
  by_cases taken : context.TakesBody state rest command mark info body
  · exact .inl ((context.doc_openGroup state rest command mark info body first others).1 taken)
  -- Nothing is written, so the whole line is left, and what waits takes no more of it than before.
  have fits : context.fits state false (command.on .flat body :: rest) = true := by
    refine Lookahead.fits_of_extents rfl _ ?_
    have enough := stays.fits
    have less : body.extent context.config.ruler ≤ command.doc.extent context.config.ruler := by
      rw [same, Doc.extent_choice]
      exact Nat.le_max_left ..
    rw [Command.extents_cons] at enough ⊢
    have none : counted 0 = 0 := rfl
    show _ ≤ (counted context.config.printWidth : Int) - counted state.column
    rw [show state.column = 0 from stays.column_eq, none]
    simp only [Command.on]
    omega
  have broken : context.breaks.isBroken mark info = true :=
    Bool.of_not_eq_false fun free => taken (.inr ⟨free, fits⟩)
  have measured : command.mode = .broken ∨ state.remeasure = true := by
    cases mode : command.mode with
    | broken => exact .inl rfl
    | flat => exact .inr (Bool.of_not_eq_false fun kept => taken (.inl ⟨mode, kept⟩))
  exact .inr ⟨broken, doc_openGroup_of_broken broken measured⟩

theorem staysEmpty_advance (stays : Moment.StaysEmpty context ⟨state, command :: rest⟩) :
    (context.advance state command rest).StaysEmpty context := by
  obtain ⟨here, behind⟩ := List.forall_mem_cons.mp stays.nothing
  obtain ⟨bare, below⟩ := Doc.throughout_iff.mp here
  obtain ⟨out, column⟩ := @out_renderStep_of_bare context state rest command bare
  have after : ∀ other ∈ (context.renderStep state rest command).2,
      other.doc.LaysOutNothing context.breaks.isBroken := by
    refine laysOutNothing_renderStep here fun mark info body first others same => ?_
    rw [same] at below
    rcases doc_openGroup_of_staysEmpty stays same with taken | ⟨broken, taken⟩
    · rw [taken]
      refine below body ?_
      simp only [Doc.laidOut]
      split <;> exact List.mem_cons_self
    · rw [taken]
      refine below _ ?_
      simp only [Doc.laidOut, broken, if_true]
      exact List.mem_cons_of_mem _ List.mem_cons_self
  have narrower : Command.extents context.config.ruler (context.renderStep state rest command).2 ≤
      command.doc.extent context.config.ruler := by
    refine extents_renderStep _ fun mark info body first others same => ?_
    rw [same, Doc.extent_choice]
    rcases doc_openGroup_of_staysEmpty stays same with taken | ⟨_, taken⟩
    · rw [taken]
      exact Nat.le_max_left ..
    · rw [taken]
      exact Nat.le_max_right ..
  refine ⟨out.trans stays.out_eq, column.trans stays.column_eq, List.forall_mem_append.mpr ⟨after, behind⟩, ?_⟩
  have enough := stays.fits
  rw [Command.extents_cons] at enough
  show Command.extents _ (_ ++ rest) ≤ _
  rw [Command.extents_append]
  exact Nat.le_trans (Nat.add_le_add_right narrower _) enough

end RenderContext

/-! ### Documents -/

/-- A document that seems to be empty writes nothing, unless a group with alternatives is met before anything is written
of which not the body but an alternative is laid out that is not empty. No such group is met if the alternatives that
are laid out by force are empty too and the alternatives that looking ahead may look at fit on one line. -/
theorem Doc.render_of_isEmpty {doc : Doc} (empty : doc.isEmpty = true) (config : Config) :
    (doc.render config = "" ∨ ∃ moment, RenderContext.Reaches ⟨config, doc.breaks⟩ (.start doc {}) moment ∧
      moment.SeemsEmpty ∧ moment.Surprises ⟨config, doc.breaks⟩) ∧
    ((∀ mark info body first others, doc.Descends (laidOut doc.breaks.isBroken) (.choice mark info body first others) →
        doc.breaks.isBroken mark info = true → (others.getLastD first).isEmpty = true) →
      doc.extent config.ruler ≤ counted config.printWidth → doc.render config = "") := by
  constructor
  · have seems : (Moment.start doc {}).SeemsEmpty := ⟨rfl, List.forall_mem_singleton.mpr empty⟩
    exact (RenderContext.run_of_seemsEmpty ⟨config, doc.breaks⟩ _ _ seems).imp_left (congrArg Emitter.text)
  · intro expanded fits
    have stays : (Moment.start doc {}).StaysEmpty ⟨config, doc.breaks⟩ :=
      ⟨rfl, rfl, List.forall_mem_singleton.mpr (laysOutNothing_of_isEmpty empty expanded), fits⟩
    have last := (RenderContext.reaches_end ⟨config, doc.breaks⟩ _ _).preserves
      (fun _ _ _ => RenderContext.staysEmpty_advance) stays
    exact congrArg Emitter.text last.out_eq

/-- A group with an empty body and a word as its other alternative. -/
def hiddenWord (mustBreak : Bool) : Doc :=
  .choice 0 ⟨none, mustBreak⟩ (.text 1 "") (.text 1 "") [.text 2 "word"]

/-- The word is laid out where the group has to break. -/
theorem render_of_isEmpty_hiddenWord :
    ((hiddenWord true).isEmpty = true ∧ (hiddenWord true).render {} = "word" ∧
      ∃ moment, RenderContext.Reaches ⟨{}, (hiddenWord true).breaks⟩ (.start (hiddenWord true) {}) moment ∧
        moment.SeemsEmpty ∧ moment.Surprises ⟨{}, (hiddenWord true).breaks⟩) ∧
      (hiddenWord false).isEmpty = true ∧ (hiddenWord false).render {} = "" := by
  have empty (mustBreak : Bool) : (hiddenWord mustBreak).isEmpty = true := by
    cases mustBreak <;> decide +kernel
  have written : (hiddenWord true).render {} = "word" := by decide +kernel
  refine ⟨⟨empty true, written, ?_⟩, empty false, ?_⟩
  · refine (Doc.render_of_isEmpty (empty true) {}).1.resolve_left fun nothing => ?_
    exact absurd (written.symm.trans nothing) (by decide)
  · refine (Doc.render_of_isEmpty (empty false) {}).2 ?_ (by decide)
    intro mark info body first others descends broken
    have free : (hiddenWord false).breaks.isBroken 0 ⟨none, false⟩ = false := by decide +kernel
    cases descends with
    | here =>
      rw [free] at broken
      cases broken
    | down member further =>
      have body : (hiddenWord false).laidOut (hiddenWord false).breaks.isBroken = [.text 1 ""] :=
        if_neg (Bool.eq_false_iff.mp free)
      rw [body] at member
      obtain rfl := List.mem_singleton.mp member
      cases further with
      | down member => cases member

end MarkupFormat.Layout
