import Mathlib.Data.List.Nodup
import MarkupFormat.Annotate.Table
import MarkupFormat.Proofs.Annotate.Spaces
import MarkupFormat.Proofs.Markup.DocumentOrder

/-!
# Outlines of tables

A table is sound if nodes come before their children and no node is listed twice, whether or not it is reached from the
root. What is below a node is then told by an outline that names each node once (`nodup_ids`), and nothing that happens
outside of the outline changes it (`ChangesOnly`). So a step that does its work at one node, given that it is done
below, does its work all over the tree when the table is swept (`exists_rebuilt_sweep`).
-/

namespace MarkupFormat.Markup

namespace Outline

variable {tree after : Tree} {outline : Outline} {id : NodeId} {inner : List Outline}

theorem byInner {motive : Outline → Prop}
    (node : ∀ id inner, (∀ outline ∈ inner, motive outline) → motive (.node id inner)) (outline : Outline) :
    motive outline := by
  cases outline with
  | node id inner => exact node id inner fun outline _ => byInner node outline

/-- An outline has the children that the table lists. -/
inductive IsOf (tree : Tree) : Outline → Prop where
  | node {id : NodeId} {inner : List Outline} (lists : tree.children id = inner.map Outline.id)
      (below : ∀ outline ∈ inner, IsOf tree outline) : IsOf tree (.node id inner)

theorem isOf_node : (node id inner).IsOf tree ↔
    tree.children id = inner.map Outline.id ∧ ∀ outline ∈ inner, outline.IsOf tree :=
  ⟨fun | .node lists below => ⟨lists, below⟩, fun ⟨lists, below⟩ => .node lists below⟩

theorem mem_ids_node {number : NodeId} :
    number ∈ (node id inner).ids ↔ number = id ∨ ∃ outline ∈ inner, number ∈ outline.ids := by
  rw [ids_node, List.mem_cons, List.mem_flatMap]

theorem id_mem_ids (outline : Outline) : outline.id ∈ outline.ids := by
  cases outline with
  | node id inner => exact mem_ids_node.mpr (.inl rfl)

theorem isOf_congr (isOf : outline.IsOf tree) (same : ∀ number ∈ outline.ids, after.children number = tree.children number) :
    outline.IsOf after := by
  induction isOf with
  | @node id inner lists below ih =>
    refine .node ((same id (id_mem_ids (node id inner))).trans lists) fun outline member => ih outline member ?_
    exact fun number inside => same number (mem_ids_node.mpr (.inr ⟨outline, member, inside⟩))

theorem eq_of_isOf {other : Outline} (isOf : outline.IsOf tree) (isOf' : other.IsOf tree) (same : outline.id = other.id) :
    outline = other := by
  induction isOf generalizing other with
  | @node id inner lists below ih =>
    obtain ⟨id', inner'⟩ := other
    obtain rfl : id = id' := same
    obtain ⟨lists', below'⟩ := isOf_node.mp isOf'
    have heads := lists.symm.trans lists'
    clear lists lists' isOf'
    congr 1
    induction inner generalizing inner' with
    | nil => exact (List.map_eq_nil_iff.mp heads.symm).symm
    | cons first rest rec =>
      cases inner' with
      | nil => cases heads
      | cons first' rest' =>
        obtain ⟨head, heads⟩ := List.cons.inj heads
        rw [ih first List.mem_cons_self (below' first' List.mem_cons_self) head]
        rw [rec (fun outline member => below outline (List.mem_cons_of_mem _ member))
          (fun outline member => ih outline (List.mem_cons_of_mem _ member)) rest'
          (fun outline member => below' outline (List.mem_cons_of_mem _ member)) heads]

mutual

theorem perm_postOrder : ∀ outline : Outline, outline.postOrder.Perm outline.ids
  | node id inner => by
    rw [postOrder, ids_node]
    exact List.perm_append_comm.trans ((perm_postOrderAll inner).cons id)

theorem perm_postOrderAll : ∀ outlines : List Outline, (postOrderAll outlines).Perm (outlines.flatMap ids)
  | [] => .nil
  | outline :: outlines => by
    rw [postOrderAll, List.flatMap_cons]
    exact (perm_postOrder outline).append (perm_postOrderAll outlines)

end

end Outline

namespace Tree

variable {tree middle after : Tree} {outline : Outline} {id parent child : NodeId} {inner : List Outline}

/-! ### Sound tables -/

/-- Nodes come before their children, and no node is listed twice. -/
structure Sound (tree : Tree) : Prop where
  later : ∀ {id child}, child ∈ tree.children id → id < child ∧ child < tree.size
  once : tree.ListsOnce

theorem listsOnce_iff : tree.ListsOnce ↔ (∀ id, (tree.children id).Nodup) ∧
    ∀ id other child, child ∈ tree.children id → child ∈ tree.children other → id = other := by
  unfold ListsOnce
  rw [List.nodup_flatMap]
  constructor
  · rintro ⟨nodup, apart⟩
    refine ⟨fun id => ?_, fun id other child first second => ?_⟩
    · by_cases inside : id ∈ tree.ids
      · exact nodup id inside
      · have outside : tree.size ≤ id := Nat.le_of_not_lt fun less => inside (List.mem_range.mpr less)
        rw [children_of_size_le outside]
        exact List.nodup_nil
    · by_contra different
      have symmetric : Std.Symm (Function.onFun List.Disjoint tree.children) :=
        ⟨fun _ _ disjoint _ first second => disjoint second first⟩
      exact apart.forall (mem_ids_of_mem_children first) (mem_ids_of_mem_children second) different first second
  · rintro ⟨nodup, owned⟩
    refine ⟨fun id _ => nodup id, (List.nodup_iff_pairwise_ne.mp List.nodup_range).imp fun different => ?_⟩
    exact fun child first second => different (owned _ _ child first second)

namespace Sound

theorem nodup (sound : tree.Sound) (id : NodeId) : (tree.children id).Nodup :=
  (listsOnce_iff.mp sound.once).1 id

theorem owner (sound : tree.Sound) {other : NodeId} (first : child ∈ tree.children id)
    (second : child ∈ tree.children other) : id = other :=
  (listsOnce_iff.mp sound.once).2 id other child first second

theorem of_children (sound : tree.Sound) (size : tree.size ≤ after.size)
    (lists : ∀ id, after.children id = tree.children id) : after.Sound := by
  refine ⟨fun member => ?_, listsOnce_iff.mpr ⟨fun id => ?_, fun id other child first second => ?_⟩⟩
  · rw [lists] at member
    exact ⟨(sound.later member).1, Nat.lt_of_lt_of_le (sound.later member).2 size⟩
  · rw [lists]
    exact sound.nodup id
  · rw [lists] at first second
    exact sound.owner first second

end Sound

theorem le_of_mem_ids (sound : tree.Sound) (isOf : outline.IsOf tree) {number : NodeId} (member : number ∈ outline.ids) :
    outline.id ≤ number := by
  induction isOf with
  | @node id inner lists below ih =>
    obtain rfl | ⟨outline, inside, member⟩ := Outline.mem_ids_node.mp member
    · exact Nat.le_refl _
    · have listed : outline.id ∈ tree.children id := lists ▸ List.mem_map_of_mem inside
      exact Nat.le_of_lt (Nat.lt_of_lt_of_le (sound.later listed).1 (ih outline inside member))

theorem lt_size_of_mem_ids (sound : tree.Sound) (isOf : outline.IsOf tree) (inside : outline.id < tree.size)
    {number : NodeId} (member : number ∈ outline.ids) : number < tree.size := by
  induction isOf with
  | @node id inner lists below ih =>
    obtain rfl | ⟨outline, among, member⟩ := Outline.mem_ids_node.mp member
    · exact inside
    · have listed : outline.id ∈ tree.children id := lists ▸ List.mem_map_of_mem among
      exact ih outline among (sound.later listed).2 member

/-- A node of an outline is the first one, or listed by another one. -/
theorem exists_owner (isOf : outline.IsOf tree) {number : NodeId} (member : number ∈ outline.ids) :
    number = outline.id ∨ ∃ owner ∈ outline.ids, number ∈ tree.children owner := by
  induction isOf with
  | @node id inner lists below ih =>
    obtain rfl | ⟨outline, inside, member⟩ := Outline.mem_ids_node.mp member
    · exact .inl rfl
    · refine .inr ?_
      obtain rfl | ⟨owner, among, listed⟩ := ih outline inside member
      · exact ⟨id, Outline.mem_ids_node.mpr (.inl rfl), lists ▸ List.mem_map_of_mem inside⟩
      · exact ⟨owner, Outline.mem_ids_node.mpr (.inr ⟨outline, inside, among⟩), listed⟩

theorem not_mem_ids_of_sibling (sound : tree.Sound) {first second : Outline} (isOf : first.IsOf tree)
    (isOf' : second.IsOf tree) (listed : first.id ∈ tree.children parent) (listed' : second.id ∈ tree.children parent)
    (apart : first.id ≠ second.id) {number : NodeId} (member : number ∈ first.ids) : number ∉ second.ids := by
  -- A node that is met in both has its parent in both, which comes before it.
  induction number using Nat.strong_induction_on with
  | _ number ih =>
    intro member'
    obtain here | ⟨owner, among, below⟩ := exists_owner isOf member
    · obtain there | ⟨owner, among', below'⟩ := exists_owner isOf' member'
      · exact apart (here.symm.trans there)
      · obtain rfl := sound.owner listed (here ▸ below')
        exact absurd (sound.later listed').1 (Nat.not_lt_of_le (le_of_mem_ids sound isOf' among'))
    · obtain there | ⟨owner', among', below'⟩ := exists_owner isOf' member'
      · obtain rfl := sound.owner listed' (there ▸ below)
        exact absurd (sound.later listed).1 (Nat.not_lt_of_le (le_of_mem_ids sound isOf among))
      · obtain rfl := sound.owner below below'
        exact ih owner (sound.later below).1 among among'

theorem nodup_ids (sound : tree.Sound) (isOf : outline.IsOf tree) : outline.ids.Nodup := by
  induction isOf with
  | @node id inner lists below ih =>
    rw [Outline.ids_node, List.nodup_cons, List.nodup_flatMap]
    have listed {outline : Outline} (member : outline ∈ inner) : outline.id ∈ tree.children id :=
      lists ▸ List.mem_map_of_mem member
    refine ⟨fun again => ?_, ih, ?_⟩
    · obtain ⟨outline, member, inside⟩ := List.mem_flatMap.mp again
      have before := le_of_mem_ids sound (below outline member) inside
      exact absurd (sound.later (listed member)).1 (Nat.not_lt_of_le before)
    · have heads := sound.nodup id
      rw [lists, List.nodup_iff_pairwise_ne, List.pairwise_map] at heads
      refine List.Pairwise.imp_of_mem (fun first second apart number => ?_) heads
      exact not_mem_ids_of_sibling sound (below _ first) (below _ second) (listed first) (listed second) apart

/-! ### Reading outlines -/

theorem gather_node (tree : Tree) (id : NodeId) (inner : List Outline) :
    tree.gather (.node id inner) = .node (tree.node id).toNodeInfo (inner.map tree.gather) := by
  rw [gather, gatherAll_eq_map]

theorem info_gather (tree : Tree) (outline : Outline) : (tree.gather outline).info = (tree.node outline.id).toNodeInfo := by
  cases outline with
  | node id inner => rfl

theorem gather_congr (same : ∀ number ∈ outline.ids, (after.node number).toNodeInfo = (tree.node number).toNodeInfo) :
    after.gather outline = tree.gather outline := by
  induction outline using Outline.byInner with
  | node id inner ih =>
    rw [gather_node, gather_node, same id (Outline.id_mem_ids (.node id inner))]
    congr 1
    refine List.map_congr_left fun outline member => ih outline member fun number inside => ?_
    exact same number (Outline.mem_ids_node.mpr (.inr ⟨outline, member, inside⟩))

theorem isOf_outlineTo (sound : tree.Sound) {depth : Nat} (deep : tree.size ≤ depth + id) :
    (tree.outlineTo depth id).IsOf tree := by
  induction depth generalizing id with
  | zero => exact .node (children_of_size_le (Nat.zero_add id ▸ deep)) nofun
  | succ depth ih =>
    refine .node ?_ fun outline member => ?_
    · rw [List.map_map]
      refine (List.map_id _).symm.trans (List.map_congr_left fun child _ => ?_)
      cases depth <;> rfl
    · obtain ⟨child, listed, rfl⟩ := List.mem_map.mp member
      refine ih (Nat.le_trans deep ?_)
      rw [Nat.add_assoc, Nat.add_comm 1]
      exact Nat.add_le_add_left (sound.later listed).1 depth

theorem isOf_outline (sound : tree.Sound) (id : NodeId) : (tree.outline id).IsOf tree :=
  isOf_outlineTo sound (Nat.le_add_right _ _)

theorem id_outline (tree : Tree) (id : NodeId) : (tree.outline id).id = id := by
  unfold outline
  cases tree.size <;> rfl

theorem outline_eq (sound : tree.Sound) (isOf : outline.IsOf tree) : tree.outline outline.id = outline :=
  Outline.eq_of_isOf (isOf_outline sound _) isOf (id_outline tree _)

/-! ### Changes of some nodes -/

/-- All but some nodes of a table are as before, and there may be new ones. -/
structure ChangesOnly (tree : Tree) (ids : List NodeId) (after : Tree) : Prop where
  size_le : tree.size ≤ after.size
  kept : ∀ id < tree.size, id ∉ ids → after.node id = tree.node id
  source_eq : after.source = tree.source
  lines_eq : after.lines = tree.lines

namespace ChangesOnly

variable {ids more : List NodeId}

theorem refl (tree : Tree) (ids : List NodeId) : tree.ChangesOnly ids tree :=
  ⟨Nat.le_refl _, fun _ _ _ => rfl, rfl, rfl⟩

theorem trans (first : tree.ChangesOnly ids middle) (second : middle.ChangesOnly more after)
    (fewer : ∀ id ∈ more, id < tree.size → id ∈ ids) : tree.ChangesOnly ids after where
  size_le := Nat.le_trans first.size_le second.size_le
  kept id inside other := by
    rw [second.kept id (Nat.lt_of_lt_of_le inside first.size_le) fun member => other (fewer id member inside),
      first.kept id inside other]
  source_eq := second.source_eq.trans first.source_eq
  lines_eq := second.lines_eq.trans first.lines_eq

theorem mono (changes : tree.ChangesOnly ids after) (fewer : ∀ id ∈ ids, id ∈ more) : tree.ChangesOnly more after :=
  ⟨changes.size_le, fun id inside other => changes.kept id inside fun member => other (fewer id member),
    changes.source_eq, changes.lines_eq⟩

theorem isOf (changes : tree.ChangesOnly ids after) (isOf : outline.IsOf tree)
    (apart : ∀ number ∈ outline.ids, number < tree.size ∧ number ∉ ids) : outline.IsOf after :=
  Outline.isOf_congr isOf fun number member =>
    congrArg Node.children (changes.kept number (apart number member).1 (apart number member).2)

theorem gather (changes : tree.ChangesOnly ids after)
    (apart : ∀ number ∈ outline.ids, number < tree.size ∧ number ∉ ids) : after.gather outline = tree.gather outline :=
  gather_congr fun number member =>
    congrArg Node.toNodeInfo (changes.kept number (apart number member).1 (apart number member).2)

end ChangesOnly

theorem node_modify (tree : Tree) (change : Node → Node) (inside : id < tree.size) :
    (tree.modify id change).node id = change (tree.node id) := by
  refine node_eq ?_
  show (tree.nodes.modify id change)[id]? = _
  rw [Array.getElem?_modify, if_pos rfl]
  unfold node
  rw [Array.getD_eq_getD_getElem?, Array.getElem?_eq_getElem inside]
  rfl

theorem node_modify_of_ne (tree : Tree) (change : Node → Node) {other : NodeId} (apart : other ≠ id) :
    (tree.modify id change).node other = tree.node other := by
  unfold node
  rw [Array.getD_eq_getD_getElem?, Array.getD_eq_getD_getElem?]
  show ((tree.nodes.modify id change)[other]?).getD default = _
  rw [Array.getElem?_modify, if_neg (Ne.symm apart)]

theorem changesOnly_modify (tree : Tree) (id : NodeId) (change : Node → Node) :
    tree.ChangesOnly [id] (tree.modify id change) where
  size_le := Nat.le_of_eq (size_modify tree id change).symm
  kept _ _ apart := node_modify_of_ne tree change (List.ne_of_not_mem_cons apart)
  source_eq := rfl
  lines_eq := rfl

theorem modify_keeps {β : Type} (part : Node → β) {change : Node → Node} (keeps : ∀ node, part (change node) = part node)
    (other : NodeId) : part ((tree.modify id change).node other) = part (tree.node other) := by
  by_cases same : other = id
  · subst same
    by_cases inside : other < tree.size
    · rw [node_modify tree change inside, keeps]
    · have outside := Nat.le_of_not_lt inside
      rw [node_of_size_le outside, node_of_size_le (by rwa [size_modify])]
  · rw [node_modify_of_ne tree change same]

theorem children_modifyInfo (tree : Tree) (id : NodeId) (change : NodeInfo → NodeInfo) (other : NodeId) :
    (tree.modifyInfo id change).children other = tree.children other := by
  unfold children modifyInfo
  refine modify_keeps Node.children (fun node => ?_) other
  rfl

theorem info_modifyInfo (tree : Tree) (change : NodeInfo → NodeInfo) (inside : id < tree.size) :
    ((tree.modifyInfo id change).node id).toNodeInfo = change (tree.node id).toNodeInfo :=
  congrArg Node.toNodeInfo (node_modify tree _ inside)

theorem node_modifyInfo_of_ne (tree : Tree) (change : NodeInfo → NodeInfo) {other : NodeId} (apart : other ≠ id) :
    (tree.modifyInfo id change).node other = tree.node other :=
  node_modify_of_ne tree _ apart

theorem info_setChildren (tree : Tree) (id : NodeId) (children : List NodeId) (other : NodeId) :
    ((tree.setChildren id children).node other).toNodeInfo = (tree.node other).toNodeInfo := by
  unfold setChildren
  refine modify_keeps Node.toNodeInfo (fun node => ?_) other
  rfl

theorem children_setChildren (tree : Tree) (children : List NodeId) (inside : id < tree.size) :
    (tree.setChildren id children).children id = children :=
  congrArg Node.children (node_modify tree _ inside)

theorem children_setChildren_of_ne (tree : Tree) (children : List NodeId) {other : NodeId} (apart : other ≠ id) :
    (tree.setChildren id children).children other = tree.children other :=
  congrArg Node.children (node_modify_of_ne tree _ apart)

theorem size_alloc (tree : Tree) (node : Node) : (tree.alloc node).1.size = tree.size + 1 :=
  Array.size_push node

theorem node_alloc_of_ne (tree : Tree) (node : Node) (other : id ≠ tree.size) :
    (tree.alloc node).1.node id = tree.node id := by
  unfold Tree.node
  rw [Array.getD_eq_getD_getElem?, Array.getD_eq_getD_getElem?]
  show ((tree.nodes.push node)[id]?).getD default = _
  have other : id ≠ tree.nodes.size := other
  rw [Array.getElem?_push, if_neg other]

theorem node_alloc (tree : Tree) (node : Node) : (tree.alloc node).1.node tree.size = node := by
  refine node_eq ?_
  show (tree.nodes.push node)[tree.nodes.size]? = _
  rw [Array.getElem?_push_size]

theorem changesOnly_alloc (tree : Tree) (node : Node) (ids : List NodeId) : tree.ChangesOnly ids (tree.alloc node).1 where
  size_le := Nat.le_of_lt (Nat.lt_of_lt_of_eq (Nat.lt_succ_self _) (size_alloc tree node).symm)
  kept _ inside _ := node_alloc_of_ne tree node (Nat.ne_of_lt inside)
  source_eq := rfl
  lines_eq := rfl

theorem children_alloc (tree : Tree) {node : Node} (childless : node.children = []) (id : NodeId) :
    (tree.alloc node).1.children id = tree.children id := by
  by_cases new : id = tree.size
  · rw [new, children_of_size_le (Nat.le_refl _)]
    exact (congrArg Node.children (node_alloc tree node)).trans childless
  · exact congrArg Node.children (node_alloc_of_ne tree node new)

namespace Sound

theorem alloc (sound : tree.Sound) {node : Node} (childless : node.children = []) : (tree.alloc node).1.Sound :=
  sound.of_children (changesOnly_alloc tree node []).size_le (children_alloc tree childless)

/-- A node may get children that no other node has. -/
theorem setChildren (sound : tree.Sound) (inside : id < tree.size) {children : List NodeId} (nodup : children.Nodup)
    (own : ∀ child ∈ children, id < child ∧ child < tree.size ∧ ∀ other, child ∈ tree.children other → other = id) :
    (tree.setChildren id children).Sound := by
  have lists {other child : NodeId} (member : child ∈ (tree.setChildren id children).children other) :
      (other = id ∧ child ∈ children) ∨ (other ≠ id ∧ child ∈ tree.children other) := by
    by_cases same : other = id
    · rw [same, children_setChildren tree children inside] at member
      exact .inl ⟨same, member⟩
    · rw [children_setChildren_of_ne tree children same] at member
      exact .inr ⟨same, member⟩
  refine ⟨fun {other child} member => ?_, listsOnce_iff.mpr ⟨fun other => ?_, fun one two child first second => ?_⟩⟩
  · rw [Tree.setChildren, size_modify]
    obtain ⟨rfl, new⟩ | ⟨-, old⟩ := lists member
    · exact ⟨(own child new).1, (own child new).2.1⟩
    · exact sound.later old
  · by_cases same : other = id
    · rwa [same, children_setChildren tree children inside]
    · rw [children_setChildren_of_ne tree children same]
      exact sound.nodup other
  · obtain ⟨rfl, new⟩ | ⟨apart, old⟩ := lists first
    · obtain ⟨rfl, -⟩ | ⟨apart, old⟩ := lists second
      · rfl
      · exact absurd ((own child new).2.2 two old) apart
    · obtain ⟨rfl, new⟩ | ⟨-, old'⟩ := lists second
      · exact absurd ((own child new).2.2 one old) apart
      · exact sound.owner old old'

end Sound

/-! ### Sweeps -/

/-- A table differs from another one by what is below some nodes. -/
structure Rebuilt (tree after : Tree) (old new : List Outline) : Prop where
  sound : after.Sound
  isOf : ∀ outline ∈ new, outline.IsOf after
  heads : new.map Outline.id = old.map Outline.id
  changes : tree.ChangesOnly (old.flatMap Outline.ids) after
  ids : ∀ number ∈ new.flatMap Outline.ids, number ∈ old.flatMap Outline.ids ∨ tree.size ≤ number

/-- A step makes of what is below a node of a source what `make` makes of the node over its children. -/
def Performs (source : String) (step : Tree → NodeId → Tree) (make : NodeInfo → List Fragment → Fragment) : Prop :=
  ∀ (tree : Tree) (id : NodeId) (inner : List Outline), tree.source = source → tree.Sound →
    (Outline.node id inner).IsOf tree → id < tree.size →
    ∃ inner', Rebuilt tree (step tree id) [.node id inner] [.node id inner'] ∧
      (step tree id).gather (.node id inner') = make (tree.node id).toNodeInfo (inner.map tree.gather)

variable {source : String} {step : Tree → NodeId → Tree} {make : NodeInfo → List Fragment → Fragment}

theorem flatMap_singleton_ids (outline : Outline) : [outline].flatMap Outline.ids = outline.ids := by
  rw [List.flatMap_cons, List.flatMap_nil, List.append_nil]

mutual

/-- What is done at every node below a node is what `bottomUp` does to the tree there. -/
theorem exists_rebuilt_sweep (performs : Performs source step make) : ∀ (outline : Outline) {tree : Tree},
    tree.source = source → tree.Sound → outline.IsOf tree → outline.id < tree.size →
      ∃ outline', Rebuilt tree (outline.postOrder.foldl step tree) [outline] [outline'] ∧
        (outline.postOrder.foldl step tree).gather outline' = (tree.gather outline).bottomUp make
  | .node id inner, tree, written, sound, isOf, inside => by
    obtain ⟨lists, below⟩ := Outline.isOf_node.mp isOf
    have nodup := nodup_ids sound isOf
    rw [Outline.ids_node, List.nodup_cons] at nodup
    have listed {outline : Outline} (member : outline ∈ inner) : outline.id < tree.size :=
      (sound.later (lists ▸ List.mem_map_of_mem member : outline.id ∈ tree.children id)).2
    obtain ⟨middle, first, gathered⟩ := exists_rebuilt_sweepAll performs inner written sound
      (fun outline member => ⟨below outline member, listed member⟩) nodup.2
    have same := first.changes.kept id inside nodup.1
    have isOf' : (Outline.node id middle).IsOf ((Outline.postOrderAll inner).foldl step tree) := by
      refine .node ?_ first.isOf
      rw [first.heads, ← lists]
      exact congrArg Node.children same
    obtain ⟨inner', second, made⟩ :=
      performs _ id middle (first.changes.source_eq.trans written) first.sound isOf'
        (Nat.lt_of_lt_of_le inside first.changes.size_le)
    have old {number : NodeId} (member : number ∈ [Outline.node id middle].flatMap Outline.ids) :
        number ∈ [Outline.node id inner].flatMap Outline.ids ∨ tree.size ≤ number := by
      rw [flatMap_singleton_ids, Outline.ids_node] at member ⊢
      obtain rfl | member := List.mem_cons.mp member
      · exact .inl List.mem_cons_self
      · exact (first.ids number member).imp_left (List.mem_cons_of_mem _)
    have whole : (Outline.node id inner).postOrder.foldl step tree =
        step ((Outline.postOrderAll inner).foldl step tree) id := by
      rw [Outline.postOrder, List.foldl_append]
      rfl
    rw [whole]
    refine ⟨.node id inner', ⟨second.sound, second.isOf, second.heads, ?_, fun number member => ?_⟩, ?_⟩
    · refine (first.changes.mono fun number member => ?_).trans second.changes fun number member inside => ?_
      · rw [flatMap_singleton_ids, Outline.ids_node]
        exact List.mem_cons_of_mem _ member
      · exact (old member).resolve_right (Nat.not_le_of_lt inside)
    · obtain member | new := second.ids number member
      · exact old member
      · exact .inr (Nat.le_trans first.changes.size_le new)
    · rw [made, same, gathered, gather_node]
      rfl

theorem exists_rebuilt_sweepAll (performs : Performs source step make) : ∀ (outlines : List Outline) {tree : Tree},
    tree.source = source → tree.Sound → (∀ outline ∈ outlines, outline.IsOf tree ∧ outline.id < tree.size) → (outlines.flatMap Outline.ids).Nodup →
      ∃ outlines', Rebuilt tree ((Outline.postOrderAll outlines).foldl step tree) outlines outlines' ∧
        outlines'.map ((Outline.postOrderAll outlines).foldl step tree).gather =
          Fragment.bottomUpAll make (outlines.map tree.gather)
  | [], tree, _, sound, _, _ => ⟨[], ⟨sound, nofun, rfl, .refl tree _, nofun⟩, rfl⟩
  | outline :: outlines, tree, written, sound, all, nodup => by
    obtain ⟨⟨isOf, inside⟩, others⟩ := List.forall_mem_cons.mp all
    obtain ⟨-, nodup, apart⟩ := List.nodup_append.mp (List.flatMap_cons ▸ nodup)
    obtain ⟨first, here, made⟩ := exists_rebuilt_sweep performs outline written sound isOf inside
    have bound {number : NodeId} (member : number ∈ outlines.flatMap Outline.ids) : number < tree.size := by
      obtain ⟨other, among, member⟩ := List.mem_flatMap.mp member
      exact lt_size_of_mem_ids sound (others other among).1 (others other among).2 member
    have untouched {other : Outline} (among : other ∈ outlines) :
        ∀ number ∈ other.ids, number < tree.size ∧ number ∉ [outline].flatMap Outline.ids := by
      intro number member
      have member := List.mem_flatMap_of_mem among member
      rw [flatMap_singleton_ids]
      exact ⟨bound member, fun again => apart number again number member rfl⟩
    obtain ⟨rest, there, made'⟩ := exists_rebuilt_sweepAll performs outlines
      (here.changes.source_eq.trans written) here.sound
      (fun other among => ⟨here.changes.isOf (others other among).1 (untouched among),
        Nat.lt_of_lt_of_le (others other among).2 here.changes.size_le⟩) nodup
    have head : first.id = outline.id := List.head_eq_of_cons_eq here.heads
    -- What is new below the first outline has no number that is found below the others.
    have kept : ∀ number ∈ first.ids,
        number < (outline.postOrder.foldl step tree).size ∧ number ∉ outlines.flatMap Outline.ids := by
      intro number member
      refine ⟨lt_size_of_mem_ids here.sound (here.isOf first List.mem_cons_self) ?_ member, fun again => ?_⟩
      · rw [head]
        exact Nat.lt_of_lt_of_le inside here.changes.size_le
      · obtain old | new := here.ids number (by rwa [flatMap_singleton_ids])
        · rw [flatMap_singleton_ids] at old
          exact apart number old number again rfl
        · exact absurd (bound again) (Nat.not_lt_of_le new)
    rw [Outline.postOrderAll, List.foldl_append]
    refine ⟨first :: rest, ⟨there.sound, ?_, ?_, ?_, fun number member => ?_⟩, ?_⟩
    · exact List.forall_mem_cons.mpr ⟨there.changes.isOf (here.isOf first List.mem_cons_self) kept, there.isOf⟩
    · rw [List.map_cons, List.map_cons, head, there.heads]
    · rw [List.flatMap_cons]
      refine (here.changes.mono fun number member => ?_).trans there.changes fun number member _ => ?_
      · rw [flatMap_singleton_ids] at member
        exact List.mem_append_left _ member
      · exact List.mem_append_right _ member
    · rw [List.flatMap_cons] at member ⊢
      obtain member | member := List.mem_append.mp member
      · rw [← flatMap_singleton_ids] at member
        refine (here.ids number member).imp_left fun old => List.mem_append_left _ ?_
        rwa [flatMap_singleton_ids] at old
      · obtain old | new := there.ids number member
        · exact .inl (List.mem_append_right _ old)
        · exact .inr (Nat.le_trans here.changes.size_le new)
    · rw [List.map_cons, List.map_cons, Fragment.bottomUpAll, there.changes.gather kept, made, made']
      congr 2
      exact List.map_congr_left fun other among => here.changes.gather (untouched among)

end

/-- The tree that is reached from the root of a table over a source. -/
structure Shows (tree : Tree) (source : String) (root : Fragment) : Prop where
  sound : tree.Sound
  nonempty : rootId < tree.size
  source_eq : tree.source = source
  lines_eq : tree.lines = .build source.toList
  fragment_eq : tree.toFragment = root

namespace Shows

variable {source : String} {root : Fragment}

theorem sweep (performs : Performs source step make) (shown : tree.Shows source root) :
    (tree.sweep step).Shows source (root.bottomUp make) := by
  have isOf := isOf_outline shown.sound rootId
  have first := id_outline tree rootId
  obtain ⟨outline, rebuilt, made⟩ := exists_rebuilt_sweep performs (tree.outline rootId) shown.source_eq shown.sound isOf
    (by rw [first]; exact shown.nonempty)
  have head : outline.id = rootId := (List.head_eq_of_cons_eq rebuilt.heads).trans first
  refine ⟨rebuilt.sound, Nat.lt_of_lt_of_le shown.nonempty rebuilt.changes.size_le,
    rebuilt.changes.source_eq.trans shown.source_eq, rebuilt.changes.lines_eq.trans shown.lines_eq, ?_⟩
  have whole := outline_eq rebuilt.sound (rebuilt.isOf outline List.mem_cons_self)
  rw [head] at whole
  unfold toFragment
  rw [Tree.sweep, whole, made]
  exact congrArg (Fragment.bottomUp make) shown.fragment_eq

theorem relink (shown : tree.Shows source root) : tree.relink.Shows source root := by
  have same := map_unlinked_relink tree
  have size : tree.relink.size = tree.size := size_relink tree
  have children : tree.relink.children = tree.children := children_eq_of_unlinked same
  have sound := shown.sound.of_children (Nat.le_of_eq size.symm) (congrFun children)
  refine ⟨sound, size ▸ shown.nonempty, shown.source_eq, shown.lines_eq, ?_⟩
  have outlines : tree.relink.outline rootId = tree.outline rootId := by
    have isOf := isOf_outline shown.sound rootId
    have whole := outline_eq sound (Outline.isOf_congr isOf fun id _ => congrFun children id)
    rwa [id_outline] at whole
  have infos (id : NodeId) : (tree.relink.node id).toNodeInfo = (tree.node id).toNodeInfo := by
    have info := congrArg Node.toNodeInfo (unlinked_node same id)
    exact info
  unfold toFragment
  rw [outlines, gather_congr fun id _ => infos id]
  exact shown.fragment_eq

end Shows

/-! ### Steps at one node -/

/-- What is below a node, without numbers. -/
def fragment (tree : Tree) (id : NodeId) : Fragment :=
  tree.gather (tree.outline id)

theorem fragment_of_isOf (sound : tree.Sound) (isOf : outline.IsOf tree) : tree.fragment outline.id = tree.gather outline := by
  rw [fragment, outline_eq sound isOf]

theorem map_fragment (sound : tree.Sound) {outlines : List Outline} (isOf : ∀ outline ∈ outlines, outline.IsOf tree) :
    (outlines.map Outline.id).map tree.fragment = outlines.map tree.gather := by
  rw [List.map_map]
  exact List.map_congr_left fun outline member => fragment_of_isOf sound (isOf outline member)

theorem fragment_eq (sound : tree.Sound) (id : NodeId) :
    tree.fragment id = .node (tree.node id).toNodeInfo ((tree.children id).map tree.fragment) := by
  cases whole : tree.outline id with
  | node number inner =>
    have isOf := whole ▸ isOf_outline sound id
    obtain rfl : number = id := (congrArg Outline.id whole).symm.trans (id_outline tree id)
    obtain ⟨lists, below⟩ := Outline.isOf_node.mp isOf
    rw [fragment, whole, gather_node, lists, map_fragment sound below]

theorem mem_ids_of_mem_children_of_isOf (isOf : outline.IsOf tree) (member : id ∈ outline.ids)
    (listed : child ∈ tree.children id) : child ∈ outline.ids := by
  induction isOf with
  | @node number inner lists below ih =>
    obtain rfl | ⟨other, among, member⟩ := Outline.mem_ids_node.mp member
    · rw [lists] at listed
      obtain ⟨first, among, rfl⟩ := List.mem_map.mp listed
      exact Outline.mem_ids_node.mpr (.inr ⟨first, among, Outline.id_mem_ids first⟩)
    · exact Outline.mem_ids_node.mpr (.inr ⟨other, among, ih other among member⟩)

/-- What is below a node does not change with the nodes outside of it. -/
theorem fragment_of_changesOnly {ids : List NodeId} (changes : tree.ChangesOnly ids after) (sound : tree.Sound)
    (sound' : after.Sound) (inside : id < tree.size) (apart : ∀ number ∈ (tree.outline id).ids, number ∉ ids) :
    after.fragment id = tree.fragment id := by
  have isOf := isOf_outline sound id
  have apart : ∀ number ∈ (tree.outline id).ids, number < tree.size ∧ number ∉ ids := fun number member =>
    ⟨lt_size_of_mem_ids sound isOf (by rwa [id_outline]) member, apart number member⟩
  have whole := fragment_of_isOf sound' (changes.isOf isOf apart)
  rw [id_outline] at whole
  rw [whole, changes.gather apart]
  rfl

/-- A step changes a node and its children, and lists what it does not add where it was listed. -/
structure StepsAt (tree : Tree) (id : NodeId) (after : Tree) : Prop where
  sound : after.Sound
  changes : tree.ChangesOnly (id :: tree.children id) after
  owned : ∀ owner ∈ id :: tree.children id, ∀ child ∈ after.children owner, child < tree.size →
    child ∈ tree.children owner

namespace StepsAt

theorem rebuilt (steps : tree.StepsAt id after) (isOf : (Outline.node id inner).IsOf tree) :
    Rebuilt tree after [.node id inner] [after.outline id] := by
  obtain ⟨lists, below⟩ := Outline.isOf_node.mp isOf
  refine ⟨steps.sound, ?_, by rw [List.map_cons, id_outline]; rfl, steps.changes.mono fun number member => ?_,
    fun number member => ?_⟩
  · exact List.forall_mem_singleton.mpr (isOf_outline steps.sound id)
  · rw [flatMap_singleton_ids]
    obtain rfl | member := List.mem_cons.mp member
    · exact Outline.id_mem_ids (.node number inner)
    · exact mem_ids_of_mem_children_of_isOf isOf (Outline.id_mem_ids (.node id inner)) member
  · rw [flatMap_singleton_ids] at member ⊢
    -- A node that is not new is listed where it was, by a node that is not new either.
    induction number using Nat.strong_induction_on with
    | _ number ih =>
      by_cases old : number < tree.size
      · refine .inl ?_
        obtain rfl | ⟨owner, among, listed⟩ := exists_owner (isOf_outline steps.sound id) member
        · rw [id_outline]
          exact Outline.id_mem_ids (.node id inner)
        · have before := (steps.sound.later listed).1
          have inside := (ih owner before among).resolve_right (Nat.not_le_of_lt (Nat.lt_trans before old))
          refine mem_ids_of_mem_children_of_isOf isOf inside ?_
          by_cases changed : owner ∈ id :: tree.children id
          · exact steps.owned owner changed number listed old
          · have same := steps.changes.kept owner (Nat.lt_trans before old) changed
            rwa [children, same] at listed
      · exact .inr (Nat.le_of_not_lt old)

/-- Nothing happens below the children. -/
theorem fragment_below (steps : tree.StepsAt id after) (sound : tree.Sound) (listed : child ∈ tree.children id)
    {number : NodeId} (below : number ∈ tree.children child) : after.fragment number = tree.fragment number := by
  have isOf := isOf_outline sound number
  refine fragment_of_changesOnly steps.changes sound steps.sound (sound.later below).2 fun other member among => ?_
  have first := le_of_mem_ids sound isOf member
  rw [id_outline] at first
  have order : id < number := Nat.lt_trans (sound.later listed).1 (sound.later below).1
  obtain rfl | among := List.mem_cons.mp among
  · exact absurd order (Nat.not_lt_of_le first)
  · obtain same | ⟨owner, inside, again⟩ := exists_owner isOf member
    · rw [id_outline] at same
      obtain rfl := sound.owner below (same ▸ among)
      exact absurd (sound.later listed).1 (Nat.lt_irrefl _)
    · have later := le_of_mem_ids sound isOf inside
      rw [id_outline] at later
      obtain rfl := sound.owner again among
      exact absurd order (Nat.not_lt_of_le later)

end StepsAt

/-- A node with its children, given what is below these. -/
def look (tree : Tree) (below : NodeId → Fragment) (id : NodeId) : Fragment :=
  .node (tree.node id).toNodeInfo ((tree.children id).map below)

theorem map_look_congr {below : NodeId → Fragment} {ids : List NodeId} (same : ∀ id ∈ ids, after.node id = tree.node id) :
    ids.map (after.look below) = ids.map (tree.look below) :=
  List.map_congr_left fun id member => by rw [look, look, children, children, same id member]

theorem StepsAt.fragment_child (steps : tree.StepsAt id after) (sound : tree.Sound) (listed : child ∈ tree.children id)
    (fewer : ∀ number ∈ after.children child, number ∈ tree.children child) :
    after.fragment child = after.look tree.fragment child := by
  rw [fragment_eq steps.sound, look]
  congr 1
  exact List.map_congr_left fun number member => steps.fragment_below sound listed (fewer number member)

theorem performs_of_stepsAt
    (steps : ∀ (tree : Tree) (id : NodeId), tree.Sound → id < tree.size → tree.StepsAt id (step tree id))
    (makes : ∀ (tree : Tree) (id : NodeId), tree.source = source → tree.Sound → id < tree.size →
      (step tree id).fragment id = make (tree.node id).toNodeInfo ((tree.children id).map tree.fragment)) :
    Performs source step make := by
  intro tree id inner written sound isOf inside
  obtain ⟨lists, below⟩ := Outline.isOf_node.mp isOf
  have made := makes tree id written sound inside
  rw [lists, map_fragment sound below] at made
  have rebuilt := (steps tree id sound inside).rebuilt isOf
  unfold fragment at made
  cases whole : (step tree id).outline id with
  | node number inner' =>
    obtain rfl : number = id := (congrArg Outline.id whole).symm.trans (id_outline _ id)
    rw [whole] at made rebuilt
    exact ⟨inner', rebuilt, made⟩

end Tree

end MarkupFormat.Markup
