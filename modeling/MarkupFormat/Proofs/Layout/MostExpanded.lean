import MarkupFormat.Proofs.Layout.CurrentColumn
import MarkupFormat.Proofs.Layout.Sharing

/-!
# Groups with alternatives that have to break

Looking ahead measures such a group by its most expanded alternative. The renderer lays this out where it measures the
group, but within a flat node it lays out the body. `pending_brokenChoice` tells when the two differ, and that this
takes another group with alternatives, or a fill, around the group.
-/

namespace MarkupFormat.Layout

namespace Doc

def isFill : Doc → Bool
  | fill .. => true
  | _ => false

/-- A node stands below an alternative or below a part of a fill: these alone are laid out flat although something in
them has to break. -/
def Shelters (doc node : Doc) : Prop :=
  ∃ holder, doc.Contains holder ∧ (holder.isChoice = true ∨ holder.isFill = true) ∧
    ∃ child ∈ holder.children true, child.Contains node

/-- What can be pending while a document is rendered: a node of it, or what is left of a fill. -/
def Leaves (doc pending : Doc) : Prop :=
  doc.Contains pending ∨ ∃ mark before parts, pending = .fill mark parts ∧ doc.Contains (.fill mark (before ++ parts))

variable {doc node target child : Doc}

theorem contains_of_leaves (leaves : doc.Leaves node) (whole : node.isFill = false) : doc.Contains node := by
  rcases leaves with contains | ⟨mark, before, parts, rfl, _⟩
  · exact contains
  · cases whole

theorem contains_child_of_leaves (leaves : doc.Leaves node) (below : child ∈ node.children true) :
    doc.Contains child := by
  rcases leaves with contains | ⟨mark, before, parts, rfl, contains⟩
  · exact contains_child contains below
  · exact contains_child contains (List.mem_append_right before below)

/-- A path that nothing shelters passes through no group with alternatives. -/
theorem leadsTo_of_not_shelters (bare : ¬doc.Shelters target) (inside : doc.Contains node)
    (contains : node.Contains target) : node.LeadsTo target := by
  induction contains with
  | here => exact .here _
  | @down node child target _ below rest ih =>
    have passes : node.isChoice = false := by
      by_contra choice
      exact bare ⟨node, inside, .inl (Bool.not_eq_false _ ▸ choice), child, below, rest⟩
    exact .down passes below (ih bare (contains_child inside below))

end Doc

/-- What is pending comes from a document, and a node of it is in nothing that is to be flat. -/
structure Command.Spares (doc target : Doc) (command : Command) : Prop where
  leaves : doc.Leaves command.doc
  flat : command.mode = .flat → ¬command.doc.Contains target

namespace RenderContext

variable {context : RenderContext} {state : RenderState} {command : Command} {rest : List Command}
  {doc target child : Doc}

theorem spares_child {mode : Mode} {indentation : Indentation} (spares : command.Spares doc target)
    (same : mode = command.mode) (below : child ∈ command.doc.children true) :
    Command.Spares doc target ⟨indentation, mode, child⟩ := by
  refine ⟨.inl (Doc.contains_child_of_leaves spares.leaves below), fun flat contains => ?_⟩
  exact spares.flat (same ▸ flat) (.down trivial below contains)

theorem spares_of_not_shelters {holder : Doc} {mode : Mode} {indentation : Indentation}
    (bare : ¬doc.Shelters target) (inside : doc.Contains holder)
    (holds : holder.isChoice = true ∨ holder.isFill = true) (below : child ∈ holder.children true) :
    Command.Spares doc target ⟨indentation, mode, child⟩ :=
  ⟨.inl (Doc.contains_child inside below), fun _ contains => bare ⟨holder, inside, holds, child, below, contains⟩⟩

theorem spares_openFill {mark : Mark} {before parts : List Doc} (bare : ¬doc.Shelters target)
    (choice : target.isChoice = true) (inside : doc.Contains (.fill mark (before ++ parts))) :
    ∀ other ∈ context.openFill state command mark parts, other.Spares doc target := by
  intro other member
  rcases mem_openFill member with ⟨mode, part, here, rfl⟩ | ⟨taken, later, rfl, rfl⟩
  · exact spares_of_not_shelters bare inside (.inr rfl) (List.mem_append_right before here)
  · have left : before ++ (taken ++ later) = (before ++ taken) ++ later := (List.append_assoc ..).symm
    refine ⟨.inr ⟨mark, before ++ taken, later, rfl, left ▸ inside⟩, fun _ contains => ?_⟩
    rcases Doc.contains_iff.mp contains with rfl | ⟨child, below, contains⟩
    · cases choice
    · have below : child ∈ before ++ (taken ++ later) :=
        List.mem_append_right before (List.mem_append_right taken below)
      exact bare ⟨_, inside, .inr rfl, child, below, contains⟩

theorem isBroken_eq_false_of_flat {mark : Mark} {info : GroupInfo} {body : Doc}
    (flat : context.groupMode state rest command mark info body = .flat) :
    context.breaks.isBroken mark info = false := by
  unfold groupMode at flat
  cases broken : context.breaks.isBroken mark info with
  | false => rfl
  | true =>
    rw [broken] at flat
    dsimp only at flat
    split at flat <;> cases flat

/-- A step does not lay out flat what contains a node that has to break, unless it is sheltered. -/
theorem spares_renderStep (tells : context.breaks.Tells doc) (bare : ¬doc.Shelters target)
    (choice : target.isChoice = true) (asks : target.asksForBreak = true) (spares : command.Spares doc target) :
    ∀ other ∈ (context.renderStep state rest command).2, other.Spares doc target := by
  obtain ⟨indentation, mode, node⟩ := command
  have one {child : Doc} {inner : Indentation} (below : child ∈ node.children true) :
      ∀ other ∈ [(⟨inner, mode, child⟩ : Command)], other.Spares doc target :=
    List.forall_mem_singleton.mpr (spares_child spares rfl below)
  unfold renderStep
  cases node with
  | text | line | trim | breakParent => simp
  | indent | align | label => exact one List.mem_cons_self
  | concat mark parts =>
    intro other member
    obtain ⟨part, inside, rfl⟩ := List.mem_map.mp member
    exact spares_child spares rfl inside
  | ifBreak mark broken flat id =>
    refine one ?_
    split
    · exact List.mem_cons_self
    · exact List.mem_cons_of_mem _ List.mem_cons_self
  | indentIfBreak mark body id negate =>
    dsimp only
    split
    · exact one List.mem_cons_self
    · exact one List.mem_cons_self
  | fill mark parts =>
    rcases spares.leaves with inside | ⟨_, before, _, same, inside⟩
    · exact @spares_openFill context state _ doc target mark [] parts bare choice inside
    · cases same
      exact spares_openFill bare choice inside
  | group mark info body =>
    have inside : doc.Contains (.group mark info body) := Doc.contains_of_leaves spares.leaves rfl
    dsimp only
    rw [openGroup_nil]
    refine List.forall_mem_singleton.mpr ⟨.inl (Doc.contains_child inside List.mem_cons_self), fun flat contains => ?_⟩
    have calm : false = Doc.forces (.group mark info body) :=
      (isBroken_eq_false_of_flat flat).symm.trans (tells.groups _ info inside rfl)
    have forced : Doc.Forces (.group mark info body) :=
      ⟨target, Doc.leadsTo_of_not_shelters bare inside (.down trivial List.mem_cons_self contains), asks⟩
    rw [(Doc.forces_eq_true_iff_forces _).mpr forced] at calm
    cases calm
  | choice mark info body first others =>
    have inside : doc.Contains (.choice mark info body first others) := Doc.contains_of_leaves spares.leaves rfl
    obtain rfl : body = first := tells.bodies mark info body first others inside
    obtain ⟨mode, chosen, member, same⟩ := exists_openGroup context state rest
      ⟨indentation, mode, .choice mark info body body others⟩ mark info body (body :: others)
    have below : chosen ∈ (Doc.choice mark info body body others).children true := by
      rcases List.mem_cons.mp member with rfl | member
      · exact List.mem_cons_self
      · exact member
    dsimp only
    rw [same]
    exact List.forall_mem_singleton.mpr (spares_of_not_shelters bare inside (.inl rfl) below)

/-- Nothing but a group with alternatives or a fill around it makes a node flat that has to break. -/
theorem shelters_of_flat {out : Emitter} {indentation : Indentation} (graph : doc.IsGraph)
    (known : context.breaks = doc.breaks) (choice : target.isChoice = true) (asks : target.asksForBreak = true)
    (reached : context.Reaches (.start doc out) ⟨state, ⟨indentation, .flat, target⟩ :: rest⟩) :
    doc.Shelters target := by
  by_contra bare
  have tells : context.breaks.Tells doc := known ▸ BreakSet.tells_of_graph graph
  -- Carried along the run: what is pending and flat does not contain the node.
  let Spared (moment : Moment) : Prop := ∀ command ∈ moment.pending, command.Spares doc target
  have start : Spared (.start doc out) := by
    refine List.forall_mem_singleton.mpr ⟨.inl (.here doc), fun flat => ?_⟩
    cases flat
  have kept : ∀ state command rest, Spared ⟨state, command :: rest⟩ → Spared (context.advance state command rest) := by
    intro state command rest spared
    obtain ⟨here, behind⟩ := List.forall_mem_cons.mp spared
    exact List.forall_mem_append.mpr ⟨spares_renderStep tells bare choice asks here, behind⟩
  have spared : Spared ⟨state, ⟨indentation, .flat, target⟩ :: rest⟩ := reached.preserves kept start
  exact (spared _ List.mem_cons_self).flat rfl (.here target)

variable {mark : Mark} {info : GroupInfo} {body first : Doc} {others : List Doc}

theorem glance_brokenChoice (must : info.mustBreak = true) (look : Lookahead) (lenient : look.mustBeFlat = false)
    (line : Line) (indentation : Indentation) (mode : Mode) :
    look.glance line ⟨indentation, mode, .choice mark info body first others⟩ =
      .go line [⟨indentation, .broken, others.getLastD first⟩] := by
  have broken : look.breaks.isBroken mark info = true := BreakSet.isBroken_iff.mpr (.inl must)
  simp [Lookahead.glance, broken, lenient, Command.on]

theorem pending_advance_brokenChoice (must : info.mustBreak = true) (indentation : Indentation) (mode : Mode) :
    (context.advance state ⟨indentation, mode, .choice mark info body first others⟩ rest).pending =
      ⟨indentation, .broken,
        if mode = .broken ∨ state.remeasure = true then others.getLastD first else body⟩ :: rest := by
  have broken : context.breaks.isBroken mark info = true := BreakSet.isBroken_iff.mpr (.inl must)
  have last : (first :: others).getLast? = some (others.getLastD first) := by
    rw [List.getLast?_cons, List.getLastD_eq_getLast?]
  unfold advance renderStep openGroup chooseMeasured
  dsimp only
  rw [broken, last]
  by_cases measured : mode = .broken ∨ state.remeasure = true
  · simp [measured, Command.on]
  · simp [measured, Command.on]

/-- Looking ahead measures a group with alternatives that has to break by its most expanded alternative. The renderer
lays this out, broken, where it measures the group, and the body elsewhere, so the two agree only where the group is
measured or the body is the most expanded alternative. A group that is not in a group with alternatives or in a fill is
always measured. -/
theorem pending_brokenChoice (must : info.mustBreak = true) (context : RenderContext) (state : RenderState)
    (indentation : Indentation) (mode : Mode) (rest : List Command) :
    (∀ (look : Lookahead) (line : Line), look.mustBeFlat = false →
      look.glance line ⟨indentation, mode, .choice mark info body first others⟩ =
        .go line [⟨indentation, .broken, others.getLastD first⟩]) ∧
    (∃ shown, (context.advance state ⟨indentation, mode, .choice mark info body first others⟩ rest).pending =
        ⟨indentation, .broken, shown⟩ :: rest ∧
      (mode = .broken ∨ state.remeasure = true → shown = others.getLastD first) ∧
      (mode = .flat → state.remeasure = false → shown = body) ∧
      (shown = others.getLastD first ↔ mode = .broken ∨ state.remeasure = true ∨ body = others.getLastD first)) ∧
    ∀ doc out, doc.IsGraph → context.breaks = doc.breaks →
      context.Reaches (.start doc out) ⟨state, ⟨indentation, mode, .choice mark info body first others⟩ :: rest⟩ →
      mode = .flat → doc.Shelters (.choice mark info body first others) := by
  refine ⟨fun look line lenient => glance_brokenChoice must look lenient line indentation mode,
    ⟨_, pending_advance_brokenChoice must indentation mode, ?_, ?_, ?_⟩, ?_⟩
  · intro measured
    exact if_pos measured
  · rintro rfl skipped
    simp [skipped]
  · by_cases measured : mode = .broken ∨ state.remeasure = true
    · rw [if_pos measured]
      exact ⟨fun _ => measured.imp_right .inl, fun _ => rfl⟩
    · rw [if_neg measured]
      constructor
      · exact fun same => .inr (.inr same)
      · rintro (broken | remeasure | same)
        · exact absurd (.inl broken) measured
        · exact absurd (.inr remeasure) measured
        · exact same
  · rintro doc out graph known reached rfl
    exact shelters_of_flat graph known rfl must reached

def brokenChoice : Doc :=
  .choice 1 ⟨none, true⟩ (.text 2 "a") (.text 2 "a") [.text 3 "b"]

/-- It stands in another group, as the only alternative. -/
def soleAlternative : Doc :=
  .choice 0 ⟨none, false⟩ brokenChoice brokenChoice []

theorem isGraph_soleAlternative : soleAlternative.IsGraph := by
  have closed : ∀ node ∈ [soleAlternative, brokenChoice, .text 2 "a", .text 3 "b"], ∀ child ∈ node.children true,
      child ∈ [soleAlternative, brokenChoice, .text 2 "a", .text 3 "b"] := by
    simp [soleAlternative, brokenChoice, Doc.children]
  refine ⟨Doc.marksTellApart_of_closed List.mem_cons_self closed (by decide), ?_⟩
  intro mark info body first others contains
  have member := Doc.mem_of_contains List.mem_cons_self closed contains
  simp only [soleAlternative, brokenChoice, List.mem_cons, Doc.choice.injEq, reduceCtorEq, List.not_mem_nil,
    or_false] at member
  rcases member with ⟨_, _, rfl, rfl, _⟩ | ⟨_, _, rfl, rfl, _⟩
  · rfl
  · rfl

/-- The second alternative is measured and the first one is laid out. -/
theorem pending_soleAlternative :
    ∃ state : RenderState,
      Reaches ⟨{}, soleAlternative.breaks⟩ (.start soleAlternative {}) ⟨state, [⟨.none, .flat, brokenChoice⟩]⟩ ∧
      (advance ⟨{}, soleAlternative.breaks⟩ state ⟨.none, .flat, brokenChoice⟩ []).pending =
        [⟨.none, .broken, .text 2 "a"⟩] ∧
      (∀ line, Lookahead.glance ⟨{}, soleAlternative.breaks, state.modes, false⟩ line ⟨.none, .flat, brokenChoice⟩ =
        .go line [⟨.none, .broken, .text 3 "b"⟩]) ∧
      soleAlternative.Shelters brokenChoice := by
  let context : RenderContext := ⟨{}, soleAlternative.breaks⟩
  have free : context.breaks.isBroken 0 ⟨none, false⟩ = false :=
    (BreakSet.tells_of_graph isGraph_soleAlternative).isBroken_choice
  have fits : context.fits {} false [⟨.none, .flat, brokenChoice⟩] = true := by
    unfold RenderContext.fits
    refine Lookahead.fits_of_go (glance_brokenChoice rfl _ rfl _ _ _) (by decide) ?_
    refine Lookahead.fits_of_go rfl (by decide) ?_
    exact .trans Lookahead.fits_nil (by decide)
  have opened : context.advance {} ⟨.none, .broken, soleAlternative⟩ [] = ⟨{}, [⟨.none, .flat, brokenChoice⟩]⟩ := by
    unfold advance renderStep openGroup chooseMeasured soleAlternative
    simp only [Command.on, free, fits]
    rfl
  have reached : context.Reaches (.start soleAlternative {}) ⟨{}, [⟨.none, .flat, brokenChoice⟩]⟩ :=
    .step (opened ▸ .refl _)
  obtain ⟨measured, ⟨shown, pending, -, unmeasured, -⟩, sheltered⟩ :=
    @pending_brokenChoice 1 ⟨none, true⟩ (.text 2 "a") (.text 2 "a") [.text 3 "b"] rfl context {} .none .flat []
  refine ⟨{}, reached, ?_, fun line => measured _ line rfl, ?_⟩
  · rw [unmeasured rfl rfl] at pending
    exact pending
  · exact sheltered soleAlternative {} isGraph_soleAlternative rfl reached rfl

end RenderContext

end MarkupFormat.Layout
