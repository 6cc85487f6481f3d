import Mathlib.Data.List.Find
import MarkupFormat.Proofs.Layout.ForcedBreaks
import MarkupFormat.Proofs.Layout.LineFit

/-!
# Documents as trees

Rendering depends on the tree that a document unfolds to, and not on which of its nodes are shared.

What two renderers do with documents that are mapped to each other. If they agree on what fits, then they choose the
same modes and alternatives (`chooseMeasured_map`, `openFill_map`), and they agree on what fits if looking at one node
leads to the same (`fits_map`).

Marks say which nodes of a document are one node, and the renderer finds the groups that have to break by their marks.
Here the same answer is read off the tree: `Doc.settled` writes it into each group and forgets the marks, and rendering
goes on with it in the same way. `render_eq_of_unfolded_eq` follows, since documents that are one tree when unfolded
are settled in one way.
-/

namespace MarkupFormat.Layout

/-- The command for what its node is mapped to. -/
def Command.changed (change : Doc → Doc) (command : Command) : Command :=
  { command with doc := change command.doc }

def Glance.changed (change : Doc → Doc) : Glance → Glance
  | .settled fits => .settled fits
  | .go line next => .go line (next.map (Command.changed change))

variable {change : Doc → Doc}

/-- What is pending fits exactly if what it is mapped to fits, if this holds of each look at a node. -/
theorem Lookahead.fits_map {look other : Lookahead} (follows : Command → Prop)
    (glances : ∀ line command, follows command →
      other.glance line (command.changed change) = (look.glance line command).changed change)
    (kept : ∀ line command after next, follows command → look.glance line command = .go after next →
      ∀ later ∈ next, follows later)
    (line : Line) (pending : List Command) (all : ∀ command ∈ pending, follows command) :
    other.fits line (pending.map (Command.changed change)) = look.fits line pending := by
  fun_induction look.fits line pending with
  | case1 line pending full =>
    rw [fits.eq_def, if_pos full]
  | case2 line room =>
    rw [List.map_nil, fits_nil, decide_eq_true (Int.not_lt.mp room)]
  | case3 line room command rest answer seen =>
    have mapped := glances line command (all command List.mem_cons_self)
    rw [seen] at mapped
    rw [List.map_cons, fits_settled mapped, decide_eq_true (Int.not_lt.mp room), Bool.true_and]
  | case4 line room command rest after next seen ih =>
    obtain ⟨here, behind⟩ := List.forall_mem_cons.mp all
    have mapped := glances line command here
    rw [seen] at mapped
    rw [List.map_cons, fits_go mapped, decide_eq_true (Int.not_lt.mp room), Bool.true_and, ← List.map_append]
    exact ih (List.forall_mem_append.mpr ⟨kept line command after next here seen, behind⟩)

namespace RenderContext

variable {context other : RenderContext} {state otherState : RenderState} {rest otherRest : List Command}

theorem chooseMeasured_map (command : Command) (broken : Bool) {body : Doc} {alternatives : List Doc}
    (fits : ∀ doc ∈ body :: alternatives,
      other.fits otherState false ((command.changed change).on .flat (change doc) :: otherRest) =
        context.fits state false (command.on .flat doc :: rest)) :
    other.chooseMeasured otherState otherRest (command.changed change) broken (change body) (alternatives.map change) =
      (context.chooseMeasured state rest command broken body alternatives).changed change := by
  obtain ⟨fitsBody, fitsAll⟩ := List.forall_mem_cons.mp fits
  have fitting : (alternatives.map change).tail.find? (fun doc =>
      other.fits otherState false ((command.changed change).on .flat doc :: otherRest)) =
      (alternatives.tail.find? fun doc => context.fits state false (command.on .flat doc :: rest)).map change := by
    rw [← List.map_tail, List.find?_map]
    refine congrArg (Option.map change) (List.find?_congr fun doc member => ?_)
    exact fitsAll doc (List.mem_of_mem_tail member)
  unfold chooseMeasured
  dsimp only
  rw [fitsBody, fitting, List.getLast?_map]
  split
  · rfl
  · cases alternatives.getLast? with
    | none => rfl
    | some expanded =>
      dsimp only [Option.map_some]
      cases broken with
      | true => rfl
      | false =>
        cases alternatives.tail.find? fun doc => context.fits state false (command.on .flat doc :: rest) with
        | none => rfl
        | some doc => rfl

theorem openFill_map (command : Command) {mark otherMark : Mark} {parts : List Doc}
    (fill : ∀ parts, change (.fill mark parts) = .fill otherMark (parts.map change))
    (fits : ∀ docs ⊆ parts, other.fits otherState true ((docs.map change).map ((command.changed change).on .flat)) =
      context.fits state true (docs.map (command.on .flat))) :
    other.openFill otherState (command.changed change) otherMark (parts.map change) =
      (context.openFill state command mark parts).map (Command.changed change) := by
  have contentFits {content : Doc} (member : content ∈ parts) :
      other.fits otherState true [(command.changed change).on .flat (change content)] =
        context.fits state true [command.on .flat content] :=
    fits [content] (fun doc isContent => List.mem_singleton.mp isContent ▸ member)
  match parts with
  | [] => rfl
  | [content] =>
    show other.openFill otherState (command.changed change) otherMark [change content] = _
    unfold openFill
    dsimp only
    rw [contentFits List.mem_cons_self]
    split <;> rfl
  | [content, separator] =>
    show other.openFill otherState (command.changed change) otherMark [change content, change separator] = _
    unfold openFill
    dsimp only
    rw [contentFits List.mem_cons_self]
    rfl
  | content :: separator :: next :: parts =>
    have pairFits := fits [content, separator, next] fun doc member => List.mem_append_left parts member
    show other.openFill otherState (command.changed change) otherMark
      (change content :: change separator :: change next :: parts.map change) = _
    unfold openFill
    dsimp only
    rw [contentFits List.mem_cons_self]
    change other.fits otherState true
      ([change content, change separator, change next].map ((command.changed change).on .flat)) = _ at pairFits
    rw [pairFits, ← List.map_cons, ← fill]
    rfl

end RenderContext

/-! ### Sharing cannot be observed -/

namespace Doc

/-! ### The tree of a document -/

mutual

/-- The tree that a document unfolds to, in which no node is told from another. -/
def unfolded : Doc → Doc
  | text _ content => text 0 content
  | concat _ parts => concat 0 (unfoldedAll parts)
  | indent _ body => indent 0 body.unfolded
  | align _ kind body => align 0 kind body.unfolded
  | group _ info body => group 0 info body.unfolded
  | choice _ info body first others => choice 0 info body.unfolded first.unfolded (unfoldedAll others)
  | fill _ parts => fill 0 (unfoldedAll parts)
  | line _ kind => line 0 kind
  | breakParent _ => breakParent 0
  | ifBreak _ broken flat id => ifBreak 0 broken.unfolded flat.unfolded id
  | indentIfBreak _ body id negate => indentIfBreak 0 body.unfolded id negate
  | trim _ => trim 0
  | label _ name body => label 0 name body.unfolded

def unfoldedAll : List Doc → List Doc
  | [] => []
  | doc :: docs => doc.unfolded :: unfoldedAll docs

end

mutual

/-- Whether a node forces a break, as the tree shows. -/
def forces : Doc → Bool
  | text .. | line .. | trim .. => false
  | breakParent _ => true
  | concat _ parts | fill _ parts => forcesAny parts
  | indent _ body | align _ _ body | indentIfBreak _ body _ _ | label _ _ body => body.forces
  | group _ info body => info.mustBreak || body.forces
  | choice _ info _ _ _ => info.mustBreak
  | ifBreak _ broken flat _ => broken.forces || flat.forces

def forcesAny : List Doc → Bool
  | [] => false
  | doc :: docs => doc.forces || forcesAny docs

end

mutual

/-- The tree of a document, in which each group says whether it has to break. -/
def settled : Doc → Doc
  | text _ content => text 0 content
  | concat _ parts => concat 0 (settledAll parts)
  | indent _ body => indent 0 body.settled
  | align _ kind body => align 0 kind body.settled
  | group _ info body => group 0 ⟨info.id, info.mustBreak || body.forces⟩ body.settled
  | choice _ info body first others => choice 0 info body.settled first.settled (settledAll others)
  | fill _ parts => fill 0 (settledAll parts)
  | line _ kind => line 0 kind
  | breakParent _ => breakParent 0
  | ifBreak _ broken flat id => ifBreak 0 broken.settled flat.settled id
  | indentIfBreak _ body id negate => indentIfBreak 0 body.settled id negate
  | trim _ => trim 0
  | label _ name body => label 0 name body.settled

def settledAll : List Doc → List Doc
  | [] => []
  | doc :: docs => doc.settled :: settledAll docs

end

@[simp]
theorem settledAll_eq_map (docs : List Doc) : settledAll docs = docs.map settled := by
  induction docs with
  | nil => rfl
  | cons doc docs ih => rw [settledAll, ih, List.map_cons]

theorem forcesAny_eq_true_iff {docs : List Doc} : forcesAny docs = true ↔ ∃ doc ∈ docs, doc.forces = true := by
  induction docs with
  | nil => simp [forcesAny]
  | cons doc docs ih => simp [forcesAny, ih]

mutual

theorem forces_unfolded : ∀ doc : Doc, doc.unfolded.forces = doc.forces
  | text .. | line .. | trim .. | breakParent .. | choice .. => rfl
  | concat _ parts | fill _ parts => forcesAny_unfolded parts
  | indent _ body | align _ _ body | indentIfBreak _ body _ _ | label _ _ body => forces_unfolded body
  | group _ info body => congrArg (info.mustBreak || ·) (forces_unfolded body)
  | ifBreak _ broken flat _ => congrArg₂ (· || ·) (forces_unfolded broken) (forces_unfolded flat)

theorem forcesAny_unfolded : ∀ docs : List Doc, forcesAny (unfoldedAll docs) = forcesAny docs
  | [] => rfl
  | doc :: docs => congrArg₂ (· || ·) (forces_unfolded doc) (forcesAny_unfolded docs)

end

mutual

theorem settled_unfolded : ∀ doc : Doc, doc.unfolded.settled = doc.settled
  | text .. | line .. | trim .. | breakParent .. => rfl
  | concat _ parts => congrArg (concat 0) (settledAll_unfolded parts)
  | fill _ parts => congrArg (fill 0) (settledAll_unfolded parts)
  | indent _ body => congrArg (indent 0) (settled_unfolded body)
  | align _ kind body => congrArg (align 0 kind) (settled_unfolded body)
  | indentIfBreak _ body id negate => congrArg (indentIfBreak 0 · id negate) (settled_unfolded body)
  | label _ name body => congrArg (label 0 name) (settled_unfolded body)
  | ifBreak _ broken flat id =>
    congrArg₂ (ifBreak 0 · · id) (settled_unfolded broken) (settled_unfolded flat)
  | group _ info body => by
    simp only [unfolded, settled, forces_unfolded body, settled_unfolded body]
  | choice _ info body first others => by
    simp only [unfolded, settled, settled_unfolded body, settled_unfolded first, settledAll_unfolded others]

theorem settledAll_unfolded : ∀ docs : List Doc, settledAll (unfoldedAll docs) = settledAll docs
  | [] => rfl
  | doc :: docs => congrArg₂ List.cons (settled_unfolded doc) (settledAll_unfolded docs)

end

/-! ### What the tree shows -/

/-- A node forces a break by itself or through a node right below it, as the tree shows. -/
theorem forces_eq_true_iff {doc : Doc} (passes : doc.isChoice = false) :
    doc.forces = true ↔ doc.asksForBreak = true ∨ ∃ child ∈ doc.children true, child.forces = true := by
  cases doc <;> simp [forces, forcesAny_eq_true_iff, asksForBreak, children] at passes ⊢
  cases passes

theorem forces_eq_true_iff_forces (doc : Doc) : doc.forces = true ↔ doc.Forces := by
  induction size : doc.weight using Nat.strongRecOn generalizing doc with
  | ind size ih =>
    by_cases passes : doc.isChoice = false
    · rw [forces_eq_true_iff passes, forces_iff passes]
      have below : ∀ child ∈ doc.children true, (child.forces = true ↔ child.Forces) := by
        intro child member
        have lighter : child.weight < doc.weight :=
          Nat.lt_of_le_of_lt (Doc.weight_le_weights member) (doc.weights_children_lt true)
        exact ih child.weight (size ▸ lighter) child rfl
      have same : (∃ child ∈ doc.children true, child.forces = true) ↔ ∃ child ∈ doc.children true, child.Forces :=
        exists_congr fun child => and_congr_right (below child)
      rw [same]
    · cases doc <;> simp only [isChoice, not_true_eq_false] at passes
      rw [forces_choice]
      rfl

end Doc

/-- A document is a graph: its nodes are told apart by their marks, and the body of a group with alternatives is the
first of these. -/
structure Doc.IsGraph (doc : Doc) : Prop where
  apart : doc.MarksTellApart
  bodies : ∀ mark info body first others, doc.Contains (.choice mark info body first others) → body = first

/-! ### Knowing what the tree shows -/

namespace BreakSet

/-- Of the groups below a document those are known to break that force one, and the body of a group with alternatives
is the first of these. -/
structure Tells (breaks : BreakSet) (doc : Doc) : Prop where
  groups : ∀ node info, doc.Contains node → node.info? = some info → breaks.isBroken node.mark info = node.forces
  bodies : ∀ mark info body first others, doc.Contains (.choice mark info body first others) → body = first

variable {breaks : BreakSet} {doc child : Doc}

theorem Tells.below (tells : breaks.Tells doc) (member : child ∈ doc.children true) : breaks.Tells child :=
  ⟨fun node info contains => tells.groups node info (.down trivial member contains),
    fun mark info body first others contains =>
      tells.bodies mark info body first others (.down trivial member contains)⟩

theorem Tells.body {mark : Mark} {info : GroupInfo} {body first : Doc} {others : List Doc}
    (tells : breaks.Tells (.choice mark info body first others)) : breaks.Tells body := by
  rw [tells.bodies mark info body first others (.here _)]
  exact tells.below List.mem_cons_self

/-- What is left of a fill tells as much as the fill. -/
theorem tells_fill {mark : Mark} {parts : List Doc} (tells : ∀ part ∈ parts, breaks.Tells part) :
    breaks.Tells (.fill mark parts) := by
  refine ⟨fun node info contains isInfo => ?_, fun mark info body first others contains => ?_⟩
  · rcases Doc.contains_iff.mp contains with rfl | ⟨part, member, contains⟩
    · cases isInfo
    · exact (tells part member).groups node info contains isInfo
  · rcases Doc.contains_iff.mp contains with same | ⟨part, member, contains⟩
    · cases same
    · exact (tells part member).bodies mark info body first others contains

theorem tells_of_graph (graph : doc.IsGraph) : doc.breaks.Tells doc := by
  obtain ⟨search, same, exact_, settles⟩ := Search.exists_search graph.apart
  refine ⟨fun node info contains isInfo => ?_, graph.bodies⟩
  have settlesNode : search.Settles node := fun inner inside => settles inner (contains.trans inside)
  rw [same, Bool.eq_iff_iff, Search.isBroken_eq_true_iff graph.apart exact_ settlesNode contains rfl isInfo]
  exact (Doc.forces_eq_true_iff_forces node).symm

theorem isBroken_empty (mark : Mark) (info : GroupInfo) : isBroken {} mark info = info.mustBreak := by
  simp [isBroken]

theorem Tells.isBroken_group {mark : Mark} {info : GroupInfo} {body : Doc}
    (tells : breaks.Tells (.group mark info body)) : breaks.isBroken mark info = (info.mustBreak || body.forces) :=
  tells.groups _ info (.here _) rfl

theorem Tells.isBroken_choice {mark : Mark} {info : GroupInfo} {body first : Doc} {others : List Doc}
    (tells : breaks.Tells (.choice mark info body first others)) : breaks.isBroken mark info = info.mustBreak :=
  tells.groups _ info (.here _) rfl

end BreakSet

/-! ### Looking ahead in the tree -/

def Command.settled (command : Command) : Command :=
  { command with doc := command.doc.settled }

/-- What looking at the tree of a node leads to. -/
def Glance.onTrees : Glance → Glance
  | .settled fits => .settled fits
  | .go line next => .go line (next.map Command.settled)

namespace Lookahead

/-- Looking ahead when no group is known to break. -/
def unknowing (look : Lookahead) : Lookahead :=
  { look with breaks := {} }

variable {look : Lookahead} {command : Command}

theorem glance_settled (line : Line) (tells : look.breaks.Tells command.doc) :
    look.unknowing.glance line command.settled = (look.glance line command).onTrees := by
  obtain ⟨indentation, mode, doc⟩ := command
  cases doc with
  | text | trim | breakParent | indent | align | indentIfBreak | label => rfl
  | concat _ parts | fill _ parts =>
    simp [glance, Command.settled, Doc.settled, Glance.onTrees, Command.on]
  | line _ kind =>
    dsimp only [glance, Command.settled, Doc.settled]
    split
    · rfl
    · split <;> rfl
  | ifBreak _ broken flat id =>
    dsimp only [glance, Command.settled, Doc.settled, unknowing]
    split <;> rfl
  | group mark info body =>
    dsimp only [glance, Command.settled, Doc.settled, unknowing]
    rw [BreakSet.isBroken_empty, tells.isBroken_group]
    dsimp only
    split
    · rfl
    · rfl
  | choice mark info body first others =>
    dsimp only [glance, Command.settled, Doc.settled, unknowing]
    rw [BreakSet.isBroken_empty, tells.isBroken_choice]
    split
    · rfl
    · split
      · simp [Glance.onTrees, Command.settled, Command.on, List.getLastD_eq_getLast?, List.getLast?_map]
      · rfl

theorem tells_of_glance {line after : Line} {next : List Command} (tells : look.breaks.Tells command.doc)
    (goes : look.glance line command = .go after next) : ∀ later ∈ next, look.breaks.Tells later.doc := by
  obtain ⟨indentation, mode, doc⟩ := command
  unfold glance at goes
  cases doc with
  | text | trim | breakParent =>
    cases goes
    nofun
  | line _ kind =>
    dsimp only at goes
    split at goes
    · cases goes
    · split at goes <;> (cases goes; nofun)
  | concat _ parts | fill _ parts =>
    cases goes
    intro later member
    obtain ⟨part, isPart, rfl⟩ := List.mem_map.mp member
    exact tells.below isPart
  | indent | align | indentIfBreak | label =>
    cases goes
    intro later member
    rw [List.mem_singleton.mp member]
    exact tells.below List.mem_cons_self
  | ifBreak _ broken flat id =>
    cases goes
    intro later member
    rw [List.mem_singleton.mp member]
    dsimp only [Command.on]
    split
    · exact tells.below List.mem_cons_self
    · exact tells.below (List.mem_cons_of_mem _ List.mem_cons_self)
  | group mark info body =>
    dsimp only at goes
    split at goes
    · cases goes
    · cases goes
      intro later member
      rw [List.mem_singleton.mp member]
      exact tells.below List.mem_cons_self
  | choice mark info body first others =>
    dsimp only at goes
    split at goes
    · cases goes
    · split at goes <;> cases goes <;> intro later member <;> rw [List.mem_singleton.mp member]
      · exact tells.below List.getLastD_mem_cons
      · exact tells.body

theorem fits_trees (look : Lookahead) (line : Line) (pending : List Command)
    (tells : ∀ command ∈ pending, look.breaks.Tells command.doc) :
    look.unknowing.fits line (pending.map Command.settled) = look.fits line pending :=
  fits_map (fun command => look.breaks.Tells command.doc) (fun line _ tells => glance_settled line tells)
    (fun _ _ _ _ tells goes => tells_of_glance tells goes) line pending tells

end Lookahead

/-! ### Rendering the tree -/

namespace RenderContext

/-- Rendering when no group is known to break. -/
def unknowing (context : RenderContext) : RenderContext :=
  { context with breaks := {} }

variable {context : RenderContext} {state : RenderState} {command : Command} {rest : List Command}

/-- Every group in what is pending is known to break if it has to. -/
def Tells (context : RenderContext) (pending : List Command) : Prop :=
  ∀ command ∈ pending, context.breaks.Tells command.doc

theorem fits_trees (state : RenderState) (mustBeFlat : Bool) (pending : List Command)
    (tells : context.Tells pending) :
    context.unknowing.fits state mustBeFlat (pending.map Command.settled) = context.fits state mustBeFlat pending :=
  Lookahead.fits_trees ⟨context.config, context.breaks, state.modes, mustBeFlat⟩ _ pending tells

theorem chooseMeasured_trees (state : RenderState) (command : Command) (broken : Bool) {body : Doc}
    {alternatives : List Doc} (behind : context.Tells rest) (tellsBody : context.breaks.Tells body)
    (tells : ∀ doc ∈ alternatives, context.breaks.Tells doc) :
    context.unknowing.chooseMeasured state (rest.map Command.settled) command.settled broken body.settled
        (alternatives.map Doc.settled) =
      (context.chooseMeasured state rest command broken body alternatives).settled := by
  refine chooseMeasured_map command broken fun doc member => ?_
  have here : context.breaks.Tells doc := List.forall_mem_cons.mpr ⟨tellsBody, tells⟩ doc member
  exact fits_trees state false (command.on .flat doc :: rest) (List.forall_mem_cons.mpr ⟨here, behind⟩)

theorem tells_chooseMeasured (broken : Bool) {body : Doc} {alternatives : List Doc}
    (tellsBody : context.breaks.Tells body) (tells : ∀ doc ∈ alternatives, context.breaks.Tells doc) :
    context.breaks.Tells (context.chooseMeasured state rest command broken body alternatives).doc := by
  unfold chooseMeasured
  dsimp only
  split
  · exact tellsBody
  · split
    · exact tellsBody
    · next expanded last =>
      split
      · next doc found =>
        split at found
        · cases found
        · exact tells doc (List.mem_of_mem_tail (List.mem_of_find?_eq_some found))
      · exact tells expanded (List.mem_of_getLast? last)

theorem openGroup_trees (state : RenderState) (command : Command) {mark : Mark} {info : GroupInfo} {broken : Bool}
    {body : Doc} {alternatives : List Doc}
    (known : context.breaks.isBroken mark info = broken) (behind : context.Tells rest)
    (tellsBody : context.breaks.Tells body) (tells : ∀ doc ∈ alternatives, context.breaks.Tells doc) :
    context.unknowing.openGroup state (rest.map Command.settled) command.settled 0 ⟨info.id, broken⟩ body.settled
        (alternatives.map Doc.settled) =
      ((context.openGroup state rest command mark info body alternatives).1,
        (context.openGroup state rest command mark info body alternatives).2.settled) := by
  have chosen := chooseMeasured_trees state command broken behind tellsBody tells
  obtain ⟨indentation, mode, doc⟩ := command
  dsimp only [unknowing, Command.settled] at chosen
  dsimp only [openGroup, unknowing, Command.settled]
  rw [BreakSet.isBroken_empty, known]
  by_cases measured : (decide (mode = .broken) || state.remeasure) = true
  · simp only [if_pos measured, chosen]
  · simp only [if_neg measured]
    rfl

theorem tells_openGroup {mark : Mark} {info : GroupInfo} {body : Doc} {alternatives : List Doc}
    (tellsBody : context.breaks.Tells body) (tells : ∀ doc ∈ alternatives, context.breaks.Tells doc) :
    context.breaks.Tells (context.openGroup state rest command mark info body alternatives).2.doc := by
  unfold openGroup
  dsimp only
  split
  · exact tells_chooseMeasured _ tellsBody tells
  · exact tellsBody

theorem openFill_trees (state : RenderState) (command : Command) (mark : Mark) {parts : List Doc}
    (tells : ∀ part ∈ parts, context.breaks.Tells part) :
    context.unknowing.openFill state command.settled 0 (parts.map Doc.settled) =
      (context.openFill state command mark parts).map Command.settled := by
  refine openFill_map command (fun parts => ?_) fun docs inside => ?_
  · rw [Doc.settled, Doc.settledAll_eq_map]
  · have each : context.Tells (docs.map (command.on .flat)) :=
      List.forall_mem_map.mpr fun doc member => tells doc (inside member)
    rw [← fits_trees state true _ each, List.map_map, List.map_map]
    rfl

theorem tells_openFill {mark : Mark} {parts : List Doc} (tells : ∀ part ∈ parts, context.breaks.Tells part) :
    context.Tells (context.openFill state command mark parts) := by
  intro other member
  rcases mem_openFill member with ⟨mode, part, inside, rfl⟩ | ⟨before, later, rfl, rfl⟩
  · exact tells part inside
  · exact BreakSet.tells_fill fun part inside => tells part (List.mem_append_right before inside)

theorem renderStep_trees (here : context.breaks.Tells command.doc) (behind : context.Tells rest) :
    context.unknowing.renderStep state (rest.map Command.settled) command.settled =
      ((context.renderStep state rest command).1, (context.renderStep state rest command).2.map Command.settled) := by
  obtain ⟨indentation, mode, doc⟩ := command
  cases doc with
  | text | line | trim | breakParent | indent | align | label => rfl
  | concat _ parts =>
    simp [renderStep, Command.settled, Doc.settled, Command.on]
  | fill mark parts =>
    have tells : ∀ part ∈ parts, context.breaks.Tells part := fun part member => here.below member
    have opened := openFill_trees state ⟨indentation, mode, .fill mark parts⟩ mark tells
    rw [← Doc.settledAll_eq_map] at opened
    exact congrArg (Prod.mk state) opened
  | group mark info body =>
    have opened := openGroup_trees state ⟨indentation, mode, .group mark info body⟩ here.isBroken_group behind
      (here.below List.mem_cons_self) (List.forall_mem_nil (context.breaks.Tells ·))
    exact congrArg (fun opened : RenderState × Command => (opened.1, [opened.2])) opened
  | choice mark info body first others =>
    have tells : ∀ doc ∈ first :: others, context.breaks.Tells doc := fun doc member => here.below member
    have opened := openGroup_trees state ⟨indentation, mode, .choice mark info body first others⟩
      here.isBroken_choice behind here.body tells
    rw [List.map_cons, ← Doc.settledAll_eq_map] at opened
    exact congrArg (fun opened : RenderState × Command => (opened.1, [opened.2])) opened
  | ifBreak _ broken flat id =>
    dsimp only [renderStep, Command.settled, Doc.settled]
    split <;> rfl
  | indentIfBreak _ body id negate =>
    dsimp only [renderStep, Command.settled, Doc.settled]
    split <;> rfl

theorem tells_renderStep (here : context.breaks.Tells command.doc) :
    context.Tells (context.renderStep state rest command).2 := by
  obtain ⟨indentation, mode, doc⟩ := command
  cases doc with
  | text | line | trim | breakParent => nofun
  | indent | align | label => exact List.forall_mem_singleton.mpr (here.below List.mem_cons_self)
  | concat _ parts =>
    intro later member
    obtain ⟨part, isPart, rfl⟩ := List.mem_map.mp member
    exact here.below isPart
  | fill mark parts => exact tells_openFill fun part member => here.below member
  | group mark info body =>
    exact List.forall_mem_singleton.mpr (tells_openGroup (here.below List.mem_cons_self) nofun)
  | choice mark info body first others =>
    exact List.forall_mem_singleton.mpr (tells_openGroup here.body fun doc member => here.below member)
  | ifBreak _ broken flat id =>
    refine List.forall_mem_singleton.mpr ?_
    dsimp only [Command.on]
    split
    · exact here.below List.mem_cons_self
    · exact here.below (List.mem_cons_of_mem _ List.mem_cons_self)
  | indentIfBreak _ body id negate =>
    refine List.forall_mem_singleton.mpr ?_
    split
    · exact here.below List.mem_cons_self
    · exact here.below List.mem_cons_self

/-- What is pending is rendered as the trees are. -/
theorem run_trees (state : RenderState) (pending : List Command) (tells : context.Tells pending) :
    context.unknowing.run state (pending.map Command.settled) = context.run state pending := by
  fun_induction RenderContext.run context state pending with
  | case1 state => rw [List.map_nil, run]
  | case2 state command rest step ih =>
    obtain ⟨here, behind⟩ := List.forall_mem_cons.mp tells
    rw [List.map_cons, run, renderStep_trees here behind]
    dsimp only
    rw [← List.map_append]
    exact ih (List.forall_mem_append.mpr ⟨tells_renderStep here, behind⟩)

end RenderContext

namespace Doc

/-- What a document is rendered as can be read off its tree. -/
theorem IsGraph.render_eq {doc : Doc} (graph : doc.IsGraph) (config : Config) :
    doc.render config = (RenderContext.run ⟨config, {}⟩ {} [⟨.none, .broken, doc.settled⟩]).out.text := by
  have tells : RenderContext.Tells ⟨config, doc.breaks⟩ [⟨.none, .broken, doc⟩] :=
    List.forall_mem_singleton.mpr (BreakSet.tells_of_graph graph)
  unfold render renderInto
  rw [← RenderContext.run_trees _ _ tells]
  rfl

/-- Two documents that are one tree when unfolded are rendered as one text, however their nodes are shared. -/
theorem render_eq_of_unfolded_eq {first second : Doc} (graph : first.IsGraph) (other : second.IsGraph)
    (same : first.unfolded = second.unfolded) (config : Config) : first.render config = second.render config := by
  rw [graph.render_eq, other.render_eq, ← settled_unfolded first, same, settled_unfolded]

end Doc

theorem isGraph_askedTwice : (askedTwice 1 1).IsGraph ∧ (askedTwice 1 10).IsGraph := by
  constructor
  · have closed : ∀ node ∈ aroundAsking 1 1 ++ askingNodes 1, ∀ child ∈ node.children true,
        child ∈ aroundAsking 1 1 ++ askingNodes 1 := by
      simp [aroundAsking, askingNodes, askedTwice, askingGroup, Doc.children]
    refine ⟨marksTellApart_askedTwice, fun mark info body first others contains => ?_⟩
    have member := Doc.mem_of_contains List.mem_cons_self closed contains
    simp [askingNodes, askedTwice, askingGroup] at member
    rw [member.2.2.1, member.2.2.2.1]
  · have closed : ∀ node ∈ aroundAsking 1 10 ++ (askingNodes 1 ++ askingNodes 10), ∀ child ∈ node.children true,
        child ∈ aroundAsking 1 10 ++ (askingNodes 1 ++ askingNodes 10) := by
      simp [aroundAsking, askingNodes, askedTwice, askingGroup, Doc.children]
    refine ⟨Doc.marksTellApart_of_closed List.mem_cons_self closed (by decide),
      fun mark info body first others contains => ?_⟩
    have member := Doc.mem_of_contains List.mem_cons_self closed contains
    simp [askingNodes, askedTwice, askingGroup] at member
    rw [member.2.2.1, member.2.2.2.1]

theorem render_askedTwice : (askedTwice 1 1).IsGraph ∧ (askedTwice 1 10).IsGraph ∧
    (askedTwice 1 1).unfolded = (askedTwice 1 10).unfolded ∧
    ∀ config, (askedTwice 1 1).render config = (askedTwice 1 10).render config :=
  ⟨isGraph_askedTwice.1, isGraph_askedTwice.2, rfl,
    Doc.render_eq_of_unfolded_eq isGraph_askedTwice.1 isGraph_askedTwice.2 rfl⟩

end MarkupFormat.Layout
