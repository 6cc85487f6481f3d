import Mathlib.Data.List.Forall2
import MarkupFormat.Proofs.Annotate.AddedNodes
import MarkupFormat.Proofs.Annotate.InOrder
import MarkupFormat.Proofs.Annotate.Unmarked

/-!
# Classified tables

A display and the sensitivity of a node depend on what is around it in the tree, and not on the numbers of the nodes, nor
on nodes that are not reached any more. So nodes to which the same path leads in two tables that show the same tree get
the same displays and flags (`Alike.displayOf_eq`, `Alike.sensitivityFlags_eq`), whether all nodes are classified at once
or one after the other (`Alike.sweep_displayAt` and the theorems like it). With the steps that change lists of children,
this makes the annotated table show the tree that is annotated without numbers (`map_toFragment_annotate`).
-/

namespace MarkupFormat.Markup

/-- Nodes that cannot have children have none. -/
abbrev Fragment.Leafy (fragment : Fragment) : Prop :=
  fragment.Follows NodeInfo.kind fun kind children => kind.canHaveChildren = false → children = []

namespace Tree

open Annotate
open Format (Options Sensitivity)

variable {tree other after after' : Tree} {id id' : NodeId}

theorem obeys_of_follows {α : Type} {look : NodeInfo → α} {rule : α → List α → Prop} {outline : Outline}
    (isOf : outline.IsOf tree) (follows : (tree.gather outline).Follows look rule) :
    ∀ id ∈ outline.ids, rule (look (tree.node id).toNodeInfo)
      ((tree.children id).map fun child => look (tree.node child).toNodeInfo) := by
  induction isOf with
  | @node id inner lists below ih =>
    rw [gather_node] at follows
    obtain ⟨here, inside⟩ := Fragment.follows_node.mp follows
    intro number member
    obtain rfl | ⟨outline, among, member⟩ := Outline.mem_ids_node.mp member
    · rw [lists, List.map_map]
      rw [Fragment.looks, List.map_map] at here
      have same : inner.map ((fun fragment => look fragment.info) ∘ tree.gather) =
          inner.map ((fun child => look (tree.node child).toNodeInfo) ∘ Outline.id) :=
        List.map_congr_left fun outline _ => congrArg look (info_gather tree outline)
      rwa [same] at here
    · exact ih outline among (inside _ (List.mem_map_of_mem among)) number member

/-! ### Nodes in the same place of two tables -/

/-- The same path leads from the roots of two tables to two nodes. -/
inductive Corresponds (tree other : Tree) : NodeId → NodeId → Prop where
  | root : Corresponds tree other rootId rootId
  | child {id id' child child' : NodeId} {place : Nat} (parents : Corresponds tree other id id')
      (listed : (tree.children id)[place]? = some child) (listed' : (other.children id')[place]? = some child') :
      Corresponds tree other child child'

/-- Two tables with links show the same tree. -/
structure Alike (tree other : Tree) : Prop where
  sound : tree.Sound
  sound' : other.Sound
  numbered : tree.Numbered
  numbered' : other.Numbered
  nonempty : rootId < tree.size
  nonempty' : rootId < other.size
  source_eq : tree.source = other.source
  lines_eq : tree.lines = other.lines
  same : tree.toFragment = other.toFragment

theorem Numbered.links_getElem? (numbered : tree.Numbered) {place : Nat} {child : NodeId}
    (listed : (tree.children id)[place]? = some child) :
    tree.parent? child = some id ∧
      tree.prev? child = (if place = 0 then none else (tree.children id)[place - 1]?) ∧
      tree.next? child = (tree.children id)[place + 1]? := by
  obtain ⟨inside, isChild⟩ := List.getElem?_eq_some_iff.mp listed
  have split : tree.children id = (tree.children id).take place ++ child :: (tree.children id).drop (place + 1) := by
    rw [← isChild, ← List.drop_eq_getElem_cons inside, List.take_append_drop]
  obtain ⟨isParent, isPrev, isNext⟩ := numbered.linked split
  refine ⟨isParent, isPrev.trans ?_, isNext.trans List.head?_drop⟩
  rw [List.getLast?_take]
  split
  · rfl
  · rw [List.getElem?_eq_getElem (Nat.lt_of_le_of_lt (Nat.sub_le place 1) inside)]
    rfl

theorem any_eq_of_forall₂ {p p' : NodeId → Bool} (same : ∀ {id id'}, tree.Corresponds other id id' → p id = p' id') {ids ids' : List NodeId}
    (rel : List.Forall₂ (tree.Corresponds other) ids ids') : ids.any p = ids'.any p' := by
  induction rel with
  | nil => rfl
  | cons corresponds _ ih => rw [List.any_cons, List.any_cons, same corresponds, ih]

theorem eq_of_rel {related : NodeId → NodeId → Prop} {one two : Option NodeId} (rel : Option.Rel related one two) :
    (one = none ∧ two = none) ∨ ∃ id id', one = some id ∧ two = some id' ∧ related id id' := by
  cases rel with
  | none => exact .inl ⟨rfl, rfl⟩
  | some related => exact .inr ⟨_, _, rfl, rfl, related⟩

namespace Alike

variable (alike : tree.Alike other)

include alike

theorem fragment_eq (corresponds : tree.Corresponds other id id') : tree.fragment id = other.fragment id' := by
  induction corresponds with
  | root => exact alike.same
  | @child id id' child child' place parents listed listed' ih =>
    rw [Tree.fragment_eq alike.sound, Tree.fragment_eq alike.sound'] at ih
    have below := congrArg (·[place]?) (Fragment.node.inj ih).2
    simpa only [List.getElem?_map, listed, listed', Option.map_some, Option.some.injEq] using below

theorem info_eq (corresponds : tree.Corresponds other id id') :
    (tree.node id).toNodeInfo = (other.node id').toNodeInfo := by
  have same := alike.fragment_eq corresponds
  rw [Tree.fragment_eq alike.sound, Tree.fragment_eq alike.sound'] at same
  exact (Fragment.node.inj same).1

theorem kind_eq (corresponds : tree.Corresponds other id id') : tree.kind id = other.kind id' :=
  congrArg NodeInfo.kind (alike.info_eq corresponds)

theorem length_children (corresponds : tree.Corresponds other id id') :
    (tree.children id).length = (other.children id').length := by
  have same := alike.fragment_eq corresponds
  rw [Tree.fragment_eq alike.sound, Tree.fragment_eq alike.sound'] at same
  have lengths := congrArg List.length (Fragment.node.inj same).2
  rwa [List.length_map, List.length_map] at lengths

theorem rel_child (corresponds : tree.Corresponds other id id') (place : Nat) :
    Option.Rel (tree.Corresponds other) (tree.children id)[place]? (other.children id')[place]? := by
  have length := alike.length_children corresponds
  by_cases inside : place < (tree.children id).length
  · have inside' : place < (other.children id').length := length ▸ inside
    rw [List.getElem?_eq_getElem inside, List.getElem?_eq_getElem inside']
    exact .some (.child corresponds (List.getElem?_eq_getElem inside) (List.getElem?_eq_getElem inside'))
  · rw [List.getElem?_eq_none (Nat.le_of_not_lt inside), List.getElem?_eq_none (length ▸ Nat.le_of_not_lt inside)]
    exact .none

/-- The nodes around corresponding nodes correspond. -/
theorem rel_links (corresponds : tree.Corresponds other id id') :
    Option.Rel (tree.Corresponds other) (tree.parent? id) (other.parent? id') ∧
      Option.Rel (tree.Corresponds other) (tree.prev? id) (other.prev? id') ∧
      Option.Rel (tree.Corresponds other) (tree.next? id) (other.next? id') := by
  cases corresponds with
  | root =>
    obtain ⟨isParent, isPrev, isNext⟩ := alike.numbered.root
    obtain ⟨isParent', isPrev', isNext'⟩ := alike.numbered'.root
    rw [isParent, isPrev, isNext, isParent', isPrev', isNext']
    exact ⟨.none, .none, .none⟩
  | @child parent parent' _ _ place parents listed listed' =>
    obtain ⟨isParent, isPrev, isNext⟩ := alike.numbered.links_getElem? listed
    obtain ⟨isParent', isPrev', isNext'⟩ := alike.numbered'.links_getElem? listed'
    rw [isParent, isPrev, isNext, isParent', isPrev', isNext']
    refine ⟨.some parents, ?_, alike.rel_child parents (place + 1)⟩
    split
    · exact .none
    · exact alike.rel_child parents (place - 1)

/-- Upwards, the numbers become smaller, so that no path is longer than the number it begins at. -/
theorem rel_ancestorsUpTo (corresponds : tree.Corresponds other id id') {count count' : Nat} (enough : id ≤ count)
    (enough' : id' ≤ count') :
    List.Forall₂ (tree.Corresponds other) (tree.ancestorsUpTo count id) (other.ancestorsUpTo count' id') := by
  induction corresponds generalizing count count' with
  | root =>
    have none {any : Tree} (numbered : any.Numbered) (count : Nat) : any.ancestorsUpTo count rootId = [] := by
      cases count with
      | zero => rfl
      | succ count => rw [ancestorsUpTo, numbered.root.1]
    rw [none alike.numbered, none alike.numbered']
    exact .nil
  | @child parent parent' child child' place parents listed listed' ih =>
    have order := (alike.sound.later (List.mem_of_getElem? listed)).1
    have order' := (alike.sound'.later (List.mem_of_getElem? listed')).1
    obtain ⟨count, rfl⟩ := Nat.exists_eq_succ_of_ne_zero (Nat.ne_zero_of_lt (Nat.lt_of_lt_of_le order enough))
    obtain ⟨count', rfl⟩ := Nat.exists_eq_succ_of_ne_zero (Nat.ne_zero_of_lt (Nat.lt_of_lt_of_le order' enough'))
    rw [ancestorsUpTo, ancestorsUpTo, (alike.numbered.links_getElem? listed).1, (alike.numbered'.links_getElem? listed').1]
    refine .cons parents (ih (Nat.le_of_lt_succ (Nat.lt_of_lt_of_le order enough)) ?_)
    exact Nat.le_of_lt_succ (Nat.lt_of_lt_of_le order' enough')

theorem lt_size (corresponds : tree.Corresponds other id id') : id < tree.size ∧ id' < other.size := by
  cases corresponds with
  | root => exact ⟨alike.nonempty, alike.nonempty'⟩
  | child parents listed listed' =>
    exact ⟨(alike.sound.later (List.mem_of_getElem? listed)).2, (alike.sound'.later (List.mem_of_getElem? listed')).2⟩

theorem rel_ancestors (corresponds : tree.Corresponds other id id') :
    List.Forall₂ (tree.Corresponds other) (tree.ancestors id) (other.ancestors id') := by
  have bound := alike.lt_size corresponds
  exact alike.rel_ancestorsUpTo corresponds (Nat.le_of_lt bound.1) (Nat.le_of_lt bound.2)

theorem isForeignObject_eq (corresponds : tree.Corresponds other id id') :
    tree.isForeignObject id = other.isForeignObject id' := by
  unfold isForeignObject
  rw [alike.kind_eq corresponds]

theorem displayOf_eq (corresponds : tree.Corresponds other id id') (sensitivity : Sensitivity) :
    tree.displayOf id sensitivity = other.displayOf id' sensitivity := by
  have comment : ((tree.prev? id).bind fun prev => displayComment? (tree.kind prev)) =
      (other.prev? id').bind fun prev => displayComment? (other.kind prev) := by
    obtain ⟨none, none'⟩ | ⟨before, before', some, some', same⟩ := eq_of_rel (alike.rel_links corresponds).2.1
    · rw [none, none']
      rfl
    · rw [some, some', Option.bind_some, Option.bind_some, alike.kind_eq same]
  have inForeignObject : (id :: tree.ancestors id).any tree.isForeignObject =
      (id' :: other.ancestors id').any other.isForeignObject :=
    any_eq_of_forall₂ alike.isForeignObject_eq (.cons corresponds (alike.rel_ancestors corresponds))
  unfold displayOf
  rw [comment, inForeignObject, alike.kind_eq corresponds]

/-! ### Sensitivity -/

theorem isSensitiveTowards_eq (corresponds : tree.Corresponds other id id') {neighbour neighbour' : Option NodeId}
    (rel : Option.Rel (tree.Corresponds other) neighbour neighbour') :
    tree.isSensitiveTowards id neighbour = other.isSensitiveTowards id' neighbour' := by
  have near : (neighbour.any fun next => isTextOrInterpolation (tree.kind next)) =
      neighbour'.any fun next => isTextOrInterpolation (other.kind next) := by
    obtain ⟨rfl, rfl⟩ | ⟨next, next', rfl, rfl, same⟩ := eq_of_rel rel
    · rfl
    · exact congrArg isTextOrInterpolation (alike.kind_eq same)
  unfold isSensitiveTowards isFrontMatter
  rw [near, alike.kind_eq corresponds]
  obtain ⟨none, none'⟩ | ⟨parent, parent', some, some', around⟩ := eq_of_rel (alike.rel_links corresponds).1
  · rw [none, none']
  · have display : (tree.node parent).display = (other.node parent').display :=
      congrArg NodeInfo.display (alike.info_eq around)
    have root : tree.isRoot parent = other.isRoot parent' := by
      unfold isRoot
      rw [alike.kind_eq around]
    rw [some, some']
    dsimp only
    rw [display, alike.kind_eq around, root]
    obtain ⟨rfl, rfl⟩ | ⟨next, next', rfl, rfl, same⟩ := eq_of_rel rel
    · rfl
    · have shown : (tree.node next).display = (other.node next').display :=
        congrArg NodeInfo.display (alike.info_eq same)
      dsimp only
      rw [shown]

theorem isTrailingSensitive_eq (corresponds : tree.Corresponds other id id') :
    tree.isTrailingSensitive id = other.isTrailingSensitive id' :=
  alike.isSensitiveTowards_eq corresponds (alike.rel_links corresponds).2.2

theorem isLeadingSensitive_eq (corresponds : tree.Corresponds other id id') :
    tree.isLeadingSensitive id = other.isLeadingSensitive id' := by
  have first : (tree.prev? id).isNone = (other.prev? id').isNone := by
    obtain ⟨none, none'⟩ | ⟨_, _, some, some', -⟩ := eq_of_rel (alike.rel_links corresponds).2.1
    · rw [none, none']
    · rw [some, some']
      rfl
  have ignores : tree.parentIgnoresLineFeed id = other.parentIgnoresLineFeed id' := by
    unfold parentIgnoresLineFeed
    obtain ⟨none, none'⟩ | ⟨_, _, some, some', around⟩ := eq_of_rel (alike.rel_links corresponds).1
    · rw [none, none']
      rfl
    · rw [some, some', Option.map_some, Option.map_some, alike.kind_eq around]
  unfold isLeadingSensitive
  rw [alike.isSensitiveTowards_eq corresponds (alike.rel_links corresponds).2.1, first, ignores,
    alike.kind_eq corresponds]

theorem sensitivityFlags_eq (corresponds : tree.Corresponds other id id') :
    tree.sensitivityFlags id (tree.node id) = other.sensitivityFlags id' (other.node id') := by
  obtain ⟨parents, before, behind⟩ := alike.rel_links corresponds
  have child : (tree.node id).parent.isSome = (other.node id').parent.isSome := by
    have parents : Option.Rel (tree.Corresponds other) (tree.node id).parent (other.node id').parent := parents
    obtain ⟨none, none'⟩ | ⟨_, _, some, some', -⟩ := eq_of_rel parents
    · rw [none, none']
    · rw [some, some']
      rfl
  have leading : tree.agreesLeading id = other.agreesLeading id' := by
    unfold agreesLeading
    rw [alike.isLeadingSensitive_eq corresponds]
    obtain ⟨none, none'⟩ | ⟨_, _, some, some', same⟩ := eq_of_rel before
    · rw [none, none']
      rfl
    · rw [some, some', Option.all_some, Option.all_some, alike.isTrailingSensitive_eq same]
  have trailing : tree.agreesTrailing id = other.agreesTrailing id' := by
    unfold agreesTrailing
    rw [alike.isTrailingSensitive_eq corresponds]
    obtain ⟨none, none'⟩ | ⟨_, _, some, some', same⟩ := eq_of_rel behind
    · rw [none, none']
      rfl
    · rw [some, some', Option.all_some, Option.all_some, alike.isLeadingSensitive_eq same]
  have kind : (tree.node id).kind = (other.node id').kind := alike.kind_eq corresponds
  have display : (tree.node id).display = (other.node id').display := congrArg NodeInfo.display (alike.info_eq corresponds)
  have dangling : tree.isDanglingSensitive id = other.isDanglingSensitive id' := by
    unfold isDanglingSensitive
    rw [display, alike.kind_eq corresponds]
  have empty : (tree.node id).children.isEmpty = (other.node id').children.isEmpty := by
    have length : (tree.node id).children.length = (other.node id').children.length := alike.length_children corresponds
    rw [Bool.eq_iff_iff, List.isEmpty_iff_length_eq_zero, List.isEmpty_iff_length_eq_zero, length]
  have flags : (tree.node id).flags = (other.node id').flags := congrArg NodeInfo.flags (alike.info_eq corresponds)
  unfold sensitivityFlags
  dsimp only
  rw [child, leading, trailing, kind, empty, dangling, flags]

end Alike

/-! ### Nodes with other labels -/

/-- The nodes around a node. -/
def place (node : Node) : Option NodeId × Option NodeId × Option NodeId × List NodeId :=
  (node.parent, node.prev, node.next, node.children)

/-- Nodes stay in their places. -/
structure PlacedAs (tree after : Tree) : Prop where
  size_eq : after.size = tree.size
  source_eq : after.source = tree.source
  lines_eq : after.lines = tree.lines
  places : ∀ id, place (after.node id) = place (tree.node id)

namespace PlacedAs

theorem refl (tree : Tree) : tree.PlacedAs tree :=
  ⟨rfl, rfl, rfl, fun _ => rfl⟩

theorem trans {middle : Tree} (first : tree.PlacedAs middle) (second : middle.PlacedAs after) : tree.PlacedAs after :=
  ⟨second.size_eq.trans first.size_eq, second.source_eq.trans first.source_eq, second.lines_eq.trans first.lines_eq,
    fun id => (second.places id).trans (first.places id)⟩

theorem modifyInfo (tree : Tree) (id : NodeId) (change : NodeInfo → NodeInfo) : tree.PlacedAs (tree.modifyInfo id change) := by
  refine ⟨size_modify tree id _, rfl, rfl, fun other => ?_⟩
  unfold Tree.modifyInfo
  refine modify_keeps place (fun node => ?_) other
  rfl

theorem mapNodes {change : NodeId → Node → Node} (keeps : KeepsPlaces change) : tree.PlacedAs (tree.mapNodes change) := by
  refine ⟨size_mapNodes, rfl, rfl, fun id => mapNodes_keeps place fun id node => ?_⟩
  obtain ⟨parent, prev, next, children⟩ := keeps id node
  unfold place
  rw [parent, prev, next, children]

variable (placed : tree.PlacedAs after)

include placed

theorem parents : after.parent? = tree.parent? :=
  funext fun id => congrArg (·.1) (placed.places id)

theorem prevs : after.prev? = tree.prev? :=
  funext fun id => congrArg (·.2.1) (placed.places id)

theorem nexts : after.next? = tree.next? :=
  funext fun id => congrArg (·.2.2.1) (placed.places id)

theorem lists : after.children = tree.children :=
  funext fun id => congrArg (·.2.2.2) (placed.places id)

theorem sound (sound : tree.Sound) : after.Sound :=
  sound.of_children (Nat.le_of_eq placed.size_eq.symm) fun id => congrFun placed.lists id

theorem numbered (numbered : tree.Numbered) : after.Numbered := by
  refine ⟨fun member => ?_, fun split => ?_, ?_⟩
  · rw [placed.lists] at member
    rw [placed.size_eq]
    exact numbered.later member
  · rw [placed.lists] at split
    rw [placed.parents, placed.prevs, placed.nexts]
    exact numbered.linked split
  · rw [placed.parents, placed.prevs, placed.nexts]
    exact numbered.root

theorem ancestors : after.ancestors = tree.ancestors := by
  have upTo (count : Nat) (id : NodeId) : after.ancestorsUpTo count id = tree.ancestorsUpTo count id := by
    induction count generalizing id with
    | zero => rfl
    | succ count ih =>
      rw [ancestorsUpTo, ancestorsUpTo, placed.parents]
      split
      · rw [ih]
      · rfl
  funext id
  unfold Tree.ancestors
  rw [placed.size_eq, upTo]

theorem displayOf (kinds : after.kind = tree.kind) (sensitivity : Sensitivity) (id : NodeId) :
    after.displayOf id sensitivity = tree.displayOf id sensitivity := by
  have foreign : after.isForeignObject = tree.isForeignObject := by
    funext id
    unfold isForeignObject
    rw [kinds]
  unfold Tree.displayOf
  rw [kinds, placed.prevs, placed.ancestors, foreign]

variable (kinds : after.kind = tree.kind) (displays : ∀ id, (after.node id).display = (tree.node id).display)

include kinds displays

theorem isSensitiveTowards (id : NodeId) (neighbour : Option NodeId) :
    after.isSensitiveTowards id neighbour = tree.isSensitiveTowards id neighbour := by
  unfold Tree.isSensitiveTowards isFrontMatter isRoot
  simp only [kinds, placed.parents, displays]

theorem isLeadingSensitive (id : NodeId) : after.isLeadingSensitive id = tree.isLeadingSensitive id := by
  unfold Tree.isLeadingSensitive parentIgnoresLineFeed
  rw [placed.isSensitiveTowards kinds displays, kinds, placed.parents, placed.prevs]

theorem isTrailingSensitive (id : NodeId) : after.isTrailingSensitive id = tree.isTrailingSensitive id := by
  unfold Tree.isTrailingSensitive
  rw [placed.isSensitiveTowards kinds displays, placed.nexts]

omit placed in
theorem isDanglingSensitive (id : NodeId) : after.isDanglingSensitive id = tree.isDanglingSensitive id := by
  unfold Tree.isDanglingSensitive
  rw [displays, kinds]

end PlacedAs

/-- Two tables that show the same tree still do so with the same labels at corresponding nodes. -/
theorem Alike.relabel (alike : tree.Alike other) (placed : tree.PlacedAs after) (placed' : other.PlacedAs after')
    (labels : ∀ {id id'}, tree.Corresponds other id id' → (after.node id).toNodeInfo = (after'.node id').toNodeInfo) :
    after.Alike after' := by
  have sound := placed.sound alike.sound
  have sound' := placed'.sound alike.sound'
  -- Children have greater numbers, so the numbers that are left become fewer.
  have whole (left : Nat) {id id' : NodeId} (corresponds : tree.Corresponds other id id')
      (enough : tree.size ≤ left + id) : after.fragment id = after'.fragment id' := by
    induction left generalizing id id' with
    | zero =>
      exact absurd (alike.lt_size corresponds).1 (Nat.not_lt_of_le (Nat.zero_add id ▸ enough))
    | succ left ih =>
      rw [Tree.fragment_eq sound, Tree.fragment_eq sound', labels corresponds, placed.lists, placed'.lists]
      congr 1
      refine List.ext_getElem? fun index => ?_
      rw [List.getElem?_map, List.getElem?_map]
      obtain ⟨none, none'⟩ | ⟨child, child', some, some', below⟩ := eq_of_rel (alike.rel_child corresponds index)
      · rw [none, none']
        rfl
      · have order := (alike.sound.later (List.mem_of_getElem? some)).1
        have deeper : left + 1 + id ≤ left + child := by
          rw [Nat.add_assoc, Nat.add_comm 1]
          exact Nat.add_le_add_left order left
        rw [some, some', Option.map_some, Option.map_some, ih below (Nat.le_trans enough deeper)]
  exact ⟨sound, sound', placed.numbered alike.numbered, placed'.numbered alike.numbered',
    placed.size_eq ▸ alike.nonempty, placed'.size_eq ▸ alike.nonempty',
    placed.source_eq.trans (alike.source_eq.trans placed'.source_eq.symm),
    placed.lines_eq.trans (alike.lines_eq.trans placed'.lines_eq.symm),
    whole tree.size .root (Nat.le_add_right _ _)⟩

/-! ### Sweeps that change labels -/

theorem mem_of_corresponds (sound : tree.Sound) (corresponds : tree.Corresponds other id id') :
    id ∈ (tree.outline rootId).postOrder := by
  rw [(Outline.perm_postOrder _).mem_iff]
  induction corresponds with
  | root =>
    have first := Outline.id_mem_ids (tree.outline rootId)
    rwa [id_outline] at first
  | child parents listed listed' ih =>
    exact mem_ids_of_mem_children_of_isOf (isOf_outline sound rootId) ih (List.mem_of_getElem? listed)

/-- Some nodes have their labels, and the others have kept theirs. -/
structure Labelled (tree : Tree) (label : NodeId → NodeInfo) (done : List NodeId) (after : Tree) : Prop where
  placed : tree.PlacedAs after
  labels : ∀ id, (after.node id).toNodeInfo = if id ∈ done then label id else (tree.node id).toNodeInfo

theorem labelled_foldl {label : NodeId → NodeInfo} {step : Tree → NodeId → Tree}
    (does : ∀ {middle done id}, tree.Labelled label done middle → id ∉ done → ∃ change,
      step middle id = middle.modifyInfo id change ∧ change (tree.node id).toNodeInfo = label id)
    {ids done : List NodeId} {middle : Tree} (labelled : tree.Labelled label done middle) (nodup : (done ++ ids).Nodup)
    (inside : ∀ id ∈ ids, id < tree.size) : tree.Labelled label (done ++ ids) (ids.foldl step middle) := by
  induction ids generalizing done middle with
  | nil => rwa [List.append_nil]
  | cons id rest ih =>
    have shifted : done ++ id :: rest = done ++ [id] ++ rest := by simp
    have fresh : id ∉ done := fun among => (List.nodup_append.mp nodup).2.2 id among id List.mem_cons_self rfl
    obtain ⟨change, same, labels⟩ := does labelled fresh
    rw [shifted] at nodup ⊢
    refine ih ?_ nodup fun other among => inside other (List.mem_cons_of_mem _ among)
    rw [same]
    refine ⟨labelled.placed.trans (.modifyInfo middle id change), fun other => ?_⟩
    by_cases here : other = id
    · subst here
      have bound : other < middle.size := labelled.placed.size_eq ▸ inside other List.mem_cons_self
      rw [info_modifyInfo middle change bound, labelled.labels, if_neg fresh, if_pos (by simp), labels]
    · rw [node_modifyInfo_of_ne middle change here, labelled.labels]
      simp [here]

theorem Labelled.sweep (label : NodeId → NodeInfo) (step : Tree → NodeId → Tree) (sound : tree.Sound)
    (nonempty : rootId < tree.size)
    (does : ∀ {middle done id}, tree.Labelled label done middle → id ∉ done → ∃ change,
      step middle id = middle.modifyInfo id change ∧ change (tree.node id).toNodeInfo = label id) :
    tree.Labelled label (tree.outline rootId).postOrder (tree.sweep step) := by
  have isOf := isOf_outline sound rootId
  have perm := Outline.perm_postOrder (tree.outline rootId)
  have start : tree.Labelled label [] tree := ⟨.refl tree, fun _ => rfl⟩
  refine labelled_foldl does start (perm.nodup_iff.mpr (nodup_ids sound isOf)) fun id among => ?_
  exact lt_size_of_mem_ids sound isOf (by rwa [id_outline]) (perm.mem_iff.mp among)

theorem Labelled.kinds {label : NodeId → NodeInfo} {done : List NodeId} (labelled : tree.Labelled label done after)
    (same : ∀ id, (label id).kind = tree.kind id) : after.kind = tree.kind := by
  funext id
  show (after.node id).toNodeInfo.kind = _
  rw [labelled.labels]
  split
  · exact same id
  · rfl

theorem Alike.sweep_displayAt (alike : tree.Alike other) (sensitivity : Sensitivity) :
    (tree.sweep (displayAt sensitivity)).Alike (other.resolveDisplays sensitivity) := by
  have labelled := Labelled.sweep
    (fun id => { (tree.node id).toNodeInfo with display := tree.displayOf id sensitivity }) (displayAt sensitivity)
    alike.sound alike.nonempty fun {middle done id} labelled _ => by
      refine ⟨_, rfl, ?_⟩
      rw [labelled.placed.displayOf (labelled.kinds fun _ => rfl)]
  refine alike.relabel labelled.placed (.mapNodes (keepsPlaces_resolveDisplays other sensitivity)) fun corresponds => ?_
  rw [labelled.labels, if_pos (mem_of_corresponds alike.sound corresponds), resolveDisplays,
    node_mapNodes (alike.lt_size corresponds).2, alike.displayOf_eq corresponds, alike.info_eq corresponds]

theorem Alike.sweep_selfClosingAt (alike : tree.Alike other) : (tree.sweep selfClosingAt).Alike other.markSelfClosing := by
  have labelled := Labelled.sweep
    (fun id =>
      { (tree.node id).toNodeInfo with
        flags := { (tree.node id).flags with selfClosing := isSelfClosing (tree.node id).toNodeInfo } })
    selfClosingAt alike.sound alike.nonempty fun _ _ => ⟨_, rfl, rfl⟩
  refine alike.relabel labelled.placed (.mapNodes keepsPlaces_markSelfClosing) fun corresponds => ?_
  rw [labelled.labels, if_pos (mem_of_corresponds alike.sound corresponds), markSelfClosing,
    node_mapNodes (alike.lt_size corresponds).2, alike.info_eq corresponds]

/-! ### Flagging -/

/-- What a node is once some nodes have flagged their children, or themselves if they have none. -/
def flaggedInfo (tree : Tree) (done : List NodeId) (id : NodeId) : NodeInfo :=
  let info := (tree.node id).toNodeInfo
  let isChild : Prop := ∃ parent ∈ done, id ∈ tree.children parent
  { info with
    flags :=
      { info.flags with
        leadingSensitive := if isChild then tree.agreesLeading id else info.flags.leadingSensitive
        trailingSensitive := if isChild then tree.agreesTrailing id else info.flags.trailingSensitive
        danglingSensitive :=
          if id ∈ done ∧ (tree.kind id).canHaveChildren ∧ tree.children id = [] then tree.isDanglingSensitive id
          else info.flags.danglingSensitive } }

/-- Some nodes have flagged their children, or themselves if they have none. -/
structure Flagged (tree : Tree) (done : List NodeId) (after : Tree) : Prop where
  placed : tree.PlacedAs after
  labels : ∀ id, (after.node id).toNodeInfo = tree.flaggedInfo done id

theorem flagged_flagChildren (L T : NodeId → Bool) (tree : Tree) (init : List NodeId) {rest : List NodeId} (nodup : rest.Nodup)
    (inside : ∀ id ∈ rest, id < tree.size) :
    let after := tree.flagChildren (init.getLast?.map fun last => T last && (rest.head?.map L).getD true)
      (rest.map fun child => (child, L child, T child))
    tree.PlacedAs after ∧ (∀ id ∉ rest, after.node id = tree.node id) ∧
      ∀ before child next, rest = before ++ child :: next →
        (after.node child).toNodeInfo =
          { (tree.node child).toNodeInfo with
            flags :=
              { (tree.node child).flags with
                leadingSensitive := L child && (init ++ before).getLast?.all T
                trailingSensitive := T child && next.head?.all L } } := by
  induction rest generalizing tree init with
  | nil => exact ⟨.refl tree, fun _ _ => rfl, fun before child next same => by simp at same⟩
  | cons id rest ih =>
    obtain ⟨fresh, nodup⟩ := List.nodup_cons.mp nodup
    have bound := inside id List.mem_cons_self
    have leads : ((init.getLast?.map fun last => T last && ((id :: rest).head?.map L).getD true).getD true && L id) =
        (L id && init.getLast?.all T) := by
      cases init.getLast? with
      | none => simp
      | some last =>
        show (T last && L id && L id) = (L id && T last)
        cases T last <;> cases L id <;> rfl
    have trails : (T id && ((rest.map fun child => (child, L child, T child)).head?.map (·.2.1)).getD true) =
        (T id && (rest.head?.map L).getD true) := by
      rw [List.head?_map, Option.map_map]
      rfl
    have ends : (T id && (rest.head?.map L).getD true) = (T id && rest.head?.all L) := by
      cases rest.head? <;> rfl
    let change (info : NodeInfo) : NodeInfo :=
      { info with
        flags :=
          { info.flags with
            leadingSensitive := L id && init.getLast?.all T
            trailingSensitive := T id && (rest.head?.map L).getD true } }
    obtain ⟨placed, others, flagged⟩ := ih (tree.modifyInfo id change) (init ++ [id]) nodup fun other among =>
      Nat.lt_of_lt_of_eq (inside other (List.mem_cons_of_mem _ among)) (size_modify tree id _).symm
    rw [List.getLast?_concat] at placed others flagged
    dsimp only
    rw [List.map_cons, flagChildren]
    dsimp only
    rw [leads, trails]
    refine ⟨(PlacedAs.modifyInfo tree id change).trans placed, fun other apart => ?_, fun before child next same => ?_⟩
    · rw [List.mem_cons, not_or] at apart
      exact (others other apart.2).trans (node_modifyInfo_of_ne tree change apart.1)
    · cases before with
      | nil =>
        obtain ⟨rfl, rfl⟩ := List.cons.inj same
        rw [← ends, List.append_nil]
        exact (congrArg Node.toNodeInfo (others id fresh)).trans (info_modifyInfo tree change bound)
      | cons first before =>
        obtain ⟨rfl, later⟩ := List.cons.inj same
        have among : child ∈ rest := later ▸ List.mem_append_right before List.mem_cons_self
        have apart : child ≠ id := fun here => fresh (here ▸ among)
        have goal := flagged before child next later
        rw [List.append_assoc] at goal
        refine goal.trans ?_
        rw [node_modifyInfo_of_ne tree change apart]
        rfl

theorem flaggedInfo_congr {done more : List NodeId}
    (child : (∃ parent ∈ more, id ∈ tree.children parent) ↔ ∃ parent ∈ done, id ∈ tree.children parent)
    (inner : (id ∈ more ∧ (tree.kind id).canHaveChildren ∧ tree.children id = []) ↔
      (id ∈ done ∧ (tree.kind id).canHaveChildren ∧ tree.children id = [])) :
    tree.flaggedInfo more id = tree.flaggedInfo done id := by
  unfold flaggedInfo
  simp only [child, inner]

theorem exists_parent_append (tree : Tree) (done : List NodeId) (id child : NodeId) :
    (∃ parent ∈ done ++ [id], child ∈ tree.children parent) ↔
      (∃ parent ∈ done, child ∈ tree.children parent) ∨ child ∈ tree.children id := by
  simp only [List.mem_append, List.mem_singleton, or_and_right, exists_or, exists_eq_left]

theorem flagged_sensitivityAt {middle : Tree} {done : List NodeId} (sound : tree.Sound) (numbered : tree.Numbered)
    (leaf : (tree.kind id).canHaveChildren = false → tree.children id = []) (flagged : tree.Flagged done middle)
    (inside : id < tree.size) :
    tree.Flagged (done ++ [id]) (middle.sensitivityAt id) := by
  have kinds : middle.kind = tree.kind := by
    funext other
    show (middle.node other).toNodeInfo.kind = _
    rw [flagged.labels]
    rfl
  have displays (other : NodeId) : (middle.node other).display = (tree.node other).display := by
    rw [flagged.labels]
    rfl
  have bound : id < middle.size := flagged.placed.size_eq ▸ inside
  have apart {other : NodeId} (different : other ≠ id) : other ∈ done ++ [id] ↔ other ∈ done := by
    simp [different]
  unfold sensitivityAt
  rw [kinds, flagged.placed.lists]
  split
  · next isLeaf =>
    have isLeaf : (tree.kind id).canHaveChildren = false := by simpa using isLeaf
    refine ⟨flagged.placed, fun other => (flagged.labels other).trans (flaggedInfo_congr ?_ ?_).symm⟩
    · rw [exists_parent_append, leaf isLeaf]
      simp
    · by_cases same : other = id
      · simp [same, isLeaf]
      · rw [apart same]
  · next holds =>
    have holds : (tree.kind id).canHaveChildren = true := by simpa using holds
    split
    · next childless =>
      refine ⟨flagged.placed.trans (.modifyInfo middle id _), fun other => ?_⟩
      have child := exists_parent_append tree done id other
      rw [childless] at child
      simp only [List.not_mem_nil, or_false] at child
      by_cases same : other = id
      · subst same
        rw [info_modifyInfo middle _ bound, flagged.labels, PlacedAs.isDanglingSensitive kinds displays]
        unfold flaggedInfo
        simp only [child]
        simp [holds, childless]
      · rw [node_modifyInfo_of_ne middle _ same, flagged.labels]
        exact (flaggedInfo_congr child (by rw [apart same])).symm
    · next some =>
      simp only [flagged.placed.isLeadingSensitive kinds displays, flagged.placed.isTrailingSensitive kinds displays]
      obtain ⟨placed, others, sides⟩ := flagged_flagChildren tree.isLeadingSensitive tree.isTrailingSensitive middle []
        (sound.nodup id) fun child among => flagged.placed.size_eq ▸ (sound.later among).2
      refine ⟨flagged.placed.trans placed, fun other => ?_⟩
      have child := exists_parent_append tree done id other
      by_cases among : other ∈ tree.children id
      · obtain ⟨before, next, split⟩ := List.append_of_mem among
        obtain ⟨-, isPrev, isNext⟩ := numbered.linked split
        have different : other ≠ id := Nat.ne_of_gt (sound.later among).1
        refine (sides before other next split).trans ?_
        rw [List.nil_append, ← isPrev, ← isNext]
        rw [flagged.labels]
        unfold flaggedInfo
        simp only [child, among, or_true, if_true, apart different]
        rfl
      · refine ((congrArg Node.toNodeInfo (others other among)).trans (flagged.labels other)).trans ?_
        refine (flaggedInfo_congr (child.trans (or_iff_left among)) ?_).symm
        by_cases same : other = id
        · simp [same, some]
        · rw [apart same]

theorem flagged_sweep (sound : tree.Sound) (numbered : tree.Numbered) (leafy : tree.toFragment.Leafy)
    (nonempty : rootId < tree.size) : tree.Flagged (tree.outline rootId).postOrder (tree.sweep sensitivityAt) := by
  have isOf := isOf_outline sound rootId
  have fold {ids done : List NodeId} {middle : Tree} (flagged : tree.Flagged done middle)
      (reached : ∀ id ∈ ids, id ∈ (tree.outline rootId).ids) :
      tree.Flagged (done ++ ids) (ids.foldl sensitivityAt middle) := by
    induction ids generalizing done middle with
    | nil => rwa [List.append_nil]
    | cons id rest ih =>
      have shifted : done ++ id :: rest = done ++ [id] ++ rest := by simp
      rw [shifted]
      have here := reached id List.mem_cons_self
      have leaf (isLeaf : (tree.kind id).canHaveChildren = false) : tree.children id = [] :=
        List.map_eq_nil_iff.mp (obeys_of_follows isOf leafy id here isLeaf)
      have inside : id < tree.size := lt_size_of_mem_ids sound isOf (by rwa [id_outline]) here
      exact ih (flagged_sensitivityAt sound numbered leaf flagged inside)
        fun other among => reached other (List.mem_cons_of_mem _ among)
  have start : tree.Flagged [] tree := by
    refine ⟨.refl tree, fun id => ?_⟩
    unfold flaggedInfo
    simp
  exact fold start fun id among => (Outline.perm_postOrder _).mem_iff.mp among

theorem Alike.sweep_sensitivityAt (alike : tree.Alike other) (leafy : tree.toFragment.Leafy)
    (unmarked : tree.toFragment.Unmarked) :
    (tree.sweep sensitivityAt).Alike other.markSensitivity := by
  have flagged := flagged_sweep alike.sound alike.numbered leafy alike.nonempty
  refine alike.relabel flagged.placed (.mapNodes (keepsPlaces_markSensitivity other)) fun {id id'} corresponds => ?_
  have reached := mem_of_corresponds alike.sound corresponds
  obtain ⟨leading, trailing, dangling⟩ :=
    obeys_of_follows (isOf_outline alike.sound rootId) unmarked id ((Outline.perm_postOrder _).mem_iff.mp reached)
  rw [flagged.labels, markSensitivity, node_mapNodes (alike.lt_size corresponds).2, ← alike.sensitivityFlags_eq corresponds]
  have child : (∃ parent ∈ (tree.outline rootId).postOrder, id ∈ tree.children parent) ↔
      (tree.node id).parent.isSome = true := by
    cases corresponds with
    | root =>
      have none : (tree.node rootId).parent = none := alike.numbered.root.1
      rw [none]
      refine iff_of_false ?_ Bool.false_ne_true
      rintro ⟨parent, -, listed⟩
      exact absurd (alike.sound.later listed).1 (Nat.not_lt_zero parent)
    | child parents listed _ =>
      have some : (tree.node id).parent = some _ := (alike.numbered.links_getElem? listed).1
      rw [some]
      exact iff_of_true ⟨_, mem_of_corresponds alike.sound parents, List.mem_of_getElem? listed⟩ rfl
  show _ = { (other.node id').toNodeInfo with flags := tree.sensitivityFlags id (tree.node id) }
  rw [← alike.info_eq corresponds]
  unfold flaggedInfo sensitivityFlags
  dsimp only
  have inner : ((tree.kind id).canHaveChildren = true ∧ tree.children id = []) ↔
      ((tree.node id).kind.canHaveChildren && (tree.node id).children.isEmpty) = true := by
    rw [Bool.and_eq_true, List.isEmpty_iff]
    rfl
  simp only [child, reached, true_and, leading, trailing, dangling, inner, Bool.if_false_right, Bool.decide_eq_true]

/-! ### Annotated tables -/

variable {source : String} {root : Fragment}

theorem sound_of_inDocumentOrder (inOrder : tree.InDocumentOrder) : tree.Sound := by
  refine ⟨fun {id child} listed => inOrder.later id child listed, listsOnce_iff.mpr ⟨fun id => ?_, fun id other child => ?_⟩⟩
  · exact (inOrder.increasing id).imp Nat.ne_of_lt
  · intro first second
    have below : child ≠ rootId := Nat.ne_of_gt (Nat.lt_of_le_of_lt (Nat.zero_le id) (inOrder.later id child first).1)
    obtain ⟨parent, -, only⟩ := inOrder.once child (inOrder.later id child first).2 below
    rw [only id first, only other second]

theorem sound_ofRoot (source : String) (root : Fragment) : (ofRoot source root).Sound :=
  sound_of_inDocumentOrder (inDocumentOrder_ofRoot source root)

/-- What is below a number is the tree that has it in the order in which nodes are written. -/
theorem fragment_ofRoot (left : Nat) {fragment : Fragment} (at_id : root.preorder[id]? = some fragment)
    (enough : root.size ≤ left + id) : (ofRoot source root).fragment id = fragment := by
  induction left generalizing id fragment with
  | zero =>
    have inside := (List.getElem?_eq_some_iff.mp at_id).1
    rw [Fragment.length_preorder] at inside
    exact absurd inside (Nat.not_lt_of_le (Nat.zero_add id ▸ enough))
  | succ left ih =>
    have listed : ((ofRoot source root).children id).map (root.preorder[·]?) = fragment.children.map some :=
      getElem?_children_ofRoot at_id
    have each : ((ofRoot source root).children id).map (ofRoot source root).fragment = fragment.children := by
      refine List.ext_getElem? fun place => ?_
      have here := congrArg (·[place]?) listed
      simp only [List.getElem?_map] at here
      rw [List.getElem?_map]
      cases found : ((ofRoot source root).children id)[place]? with
      | none =>
        rw [found] at here
        exact (Option.map_eq_none_iff.mp here.symm).symm
      | some child =>
        rw [found] at here
        obtain ⟨inner, isInner, at_child⟩ := Option.map_eq_some_iff.mp here.symm
        have order := ((sound_ofRoot source root).later (List.mem_of_getElem? found)).1
        have deeper : left + 1 + id ≤ left + child := by
          rw [Nat.add_assoc, Nat.add_comm 1]
          exact Nat.add_le_add_left order left
        rw [isInner, Option.map_some, ih at_child.symm (Nat.le_trans enough deeper)]
    rw [fragment_eq (sound_ofRoot source root), each, info_ofRoot at_id]
    cases fragment
    rfl

theorem toFragment_ofRoot (source : String) (root : Fragment) : (ofRoot source root).toFragment = root := by
  refine fragment_ofRoot root.size ?_ (Nat.le_refl _)
  rw [Fragment.preorder_eq_cons]
  rfl

theorem nonempty_ofRoot (source : String) (root : Fragment) : rootId < (ofRoot source root).size := by
  rw [size_ofRoot]
  exact size_pos root

theorem Sound.numbered_relink (sound : tree.Sound) (nonempty : rootId < tree.size) : tree.relink.Numbered := by
  have children : tree.relink.children = tree.children := children_eq_of_unlinked (map_unlinked_relink tree)
  refine ⟨fun member => ?_, fun {parent before child after} split => ?_, ?_⟩
  · rw [children] at member
    rw [size_relink]
    exact sound.later member
  · rw [children] at split
    have listed : child ∈ tree.children parent := split ▸ List.mem_append_right before List.mem_cons_self
    exact links_relink_of_split sound.once (sound.later listed).2 split
  · refine links_relink_of_not_mem nonempty fun member => ?_
    obtain ⟨parent, -, listed⟩ := List.mem_flatMap.mp member
    exact absurd (sound.later listed).1 (Nat.not_lt_zero parent)

theorem Shows.normalize (shown : tree.Shows source root) :
    tree.normalize.Shows source (Annotate.normalize root) ∧ tree.normalize.Numbered := by
  have trimmed := ((((shown.sweep performs_dropLineFeedAt).relink.sweep performs_foldConditionsAt).relink.sweep
    performs_mergeCdataAt).relink.sweep performs_splitTextsAt).relink.sweep performs_trimAt
  exact ⟨trimmed.relink, trimmed.sound.numbered_relink trimmed.nonempty⟩

theorem Shows.classify (options : Options) (shown : tree.Shows source root) (numbered : tree.Numbered) (leafy : root.Leafy)
    (unmarked : root.Unmarked) :
    (tree.classify options).Shows source (Annotate.classify source options root).toFragment := by
  have start : tree.Alike (ofRoot source root) :=
    ⟨shown.sound, sound_ofRoot source root, numbered, numbered_ofRoot source root, shown.nonempty,
      nonempty_ofRoot source root, shown.source_eq, shown.lines_eq,
      shown.fragment_eq.trans (toFragment_ofRoot source root).symm⟩
  have closed := (start.sweep_displayAt options.sensitivity).sweep_selfClosingAt
  have keepsDisplays := keepsPlaces_resolveDisplays (ofRoot source root) options.sensitivity
  have numbered' := closed.numbered'
  have nonempty' := closed.nonempty'
  have leafy' := follows_toFragment numbered' (obeys_mapNodes keepsPlaces_markSelfClosing (fun _ _ => rfl)
    (obeys_mapNodes keepsDisplays (fun _ _ => rfl) (obeys_ofRoot source leafy))) nonempty'
  have marks : root.Follows (fun info => info.flags.Unmarked) fun here _ => here := Fragment.follows_comp.mpr unmarked
  have unmarked' := follows_toFragment numbered' (obeys_mapNodes keepsPlaces_markSelfClosing
    (fun _ _ => propext ⟨fun here => ⟨here.leading, here.trailing, here.dangling⟩,
      fun here => ⟨here.leading, here.trailing, here.dangling⟩⟩)
    (obeys_mapNodes keepsDisplays (fun _ _ => rfl) (obeys_ofRoot source marks))) nonempty'
  have flagged := closed.sweep_sensitivityAt (closed.same ▸ leafy') (closed.same ▸ Fragment.follows_comp.mp unmarked')
  exact ⟨flagged.sound, flagged.nonempty, flagged.source_eq, flagged.lines_eq, flagged.same⟩

/-- The tree that an annotated table shows, where every step is done at the nodes of the table. -/
theorem Shows.preprocess (options : Options) (shown : tree.Shows source root) (leafy : (Annotate.normalize root).Leafy)
    (unmarked : root.Unmarked) :
    (tree.preprocess options).Shows source (finish source options (Annotate.normalize root)) ∧
      (tree.preprocess options).Numbered := by
  obtain ⟨normal, numbered⟩ := shown.normalize
  have classified := normal.classify options numbered leafy (unmarked_normalize unmarked)
  have merged := classified.sweep performs_mergeSimpleAt
  exact ⟨merged.relink, merged.sound.numbered_relink merged.nonempty⟩

theorem shows_ofContent (source : String) (content : List Fragment) :
    (ofContent source content).Shows source (rootOver source content) :=
  ⟨sound_ofRoot source _, nonempty_ofRoot source _, rfl, rfl, toFragment_ofRoot source _⟩

theorem shows_preprocess_ofContent (options : Options) {content : List Fragment} (parsed : parse source {} = .ok content) :
    ((ofContent source content).preprocess options).Shows source
        (finish source options (Annotate.normalize (rootOver source content))) ∧
      ((ofContent source content).preprocess options).Numbered := by
  have read := readSource_of_parse parsed
  have faithful : (Annotate.normalize (rootOver source content)).Follows NodeInfo.spacing (Faithful source.toList) :=
    faithful_normalize (laid_root read rfl rfl rfl) (nested_root read rfl rfl)
  have blind : (Annotate.normalize (rootOver source content)).Follows (fun info => info.spacing.kind)
        (fun kind children => kind.canHaveChildren = false → children = []) ↔
      (Annotate.normalize (rootOver source content)).Follows NodeInfo.spacing fun node children =>
        node.kind.canHaveChildren = false → children.map Spacing.kind = [] :=
    Fragment.follows_comp (f := Spacing.kind)
  have leafy := blind.mpr (faithful.imp fun _ _ here isLeaf => List.map_eq_nil_iff.mpr (here.leaf isLeaf))
  have unmarked : (rootOver source content).Unmarked :=
    Fragment.follows_node.mpr ⟨Flags.unmarked_default, unmarked_of_readSource read⟩
  exact (shows_ofContent source content).preprocess options leafy unmarked

/-- A source is annotated in a table where it is annotated without numbers, and shows the same tree. -/
theorem map_toFragment_annotate (source : String) (options : Options) :
    (Tree.annotate source options).map toFragment =
      (Annotate.annotate source options).map fun annotated => annotated.tree.toFragment := by
  unfold Tree.annotate Annotate.annotate
  dsimp only
  rw [ofSource_eq]
  cases parsed : parse (Text.normalizeLineEndings source) {} with
  | error failure => rfl
  | ok content =>
    have shown := (shows_preprocess_ofContent options parsed).1.fragment_eq
    exact congrArg Except.ok (shown.trans (toFragment_ofRoot _ _).symm)

end Tree

end MarkupFormat.Markup
