import MarkupFormat.Proofs.Markup.Building
import MarkupFormat.Proofs.Markup.Numbering

/-!
# Document order

The numbers of the nodes of a tree, in the order in which their nodes are written, and the links between nodes.

A walk from the root of a numbered tree meets the numbers in order (`descendants_ofRoot`), so every node is reached.

The nodes of a source are numbered in the order in which they are written (`inDocumentOrder_of_ofSource`): although
nodes are added to whichever element is open, although a start tag may end another element first, and although the
numbers of a section that cannot be read are given again.

The links of any table of nodes are made from the lists of children alone (`links_relink_iff`), in whatever order the
nodes were added, whether or not they are reached from the root, and whatever links there were before.
-/

namespace MarkupFormat.Markup

namespace Outline

mutual

theorem map_flatten (depth other : Nat) : ∀ outline : Outline,
    (outline.flatten depth).map (·.1) = (outline.flatten other).map (·.1)
  | node id inner => congrArg (id :: ·) (map_flattenAll (depth + 1) (other + 1) inner)

theorem map_flattenAll (depth other : Nat) : ∀ outlines : List Outline,
    (flattenAll depth outlines).map (·.1) = (flattenAll other outlines).map (·.1)
  | [] => rfl
  | outline :: outlines => by
    rw [flattenAll, flattenAll, List.map_append, List.map_append, map_flatten depth other outline,
      map_flattenAll depth other outlines]

end

theorem ids_node (id : NodeId) (inner : List Outline) : (node id inner).ids = id :: inner.flatMap ids := by
  have below (outlines : List Outline) : (flattenAll 1 outlines).map (·.1) = outlines.flatMap ids := by
    induction outlines with
    | nil => rfl
    | cons outline outlines ih =>
      rw [flattenAll, List.map_append, ih, map_flatten 1 0 outline]
      rfl
  exact congrArg (id :: ·) (below inner)

end Outline

namespace Tree

open Fragment (preorder preorderAll)

variable {source : String} {root : Fragment} {id : NodeId}

/-! ### Walks over numbers -/

theorem flatMap_numbers {walk : NodeId → List NodeId} (children : List Fragment) {start : NodeId} {rest : List Fragment}
    (stand : root.preorder.drop start = preorderAll children ++ rest)
    (each : ∀ number child, start ≤ number → root.preorder[number]? = some child →
      walk number = List.range' number child.size) :
    (numbers start children).flatMap walk = List.range' start (Fragment.sizes children) := by
  induction children generalizing start rest with
  | nil => rfl
  | cons child others ih =>
    rw [preorderAll, List.append_assoc] at stand
    have first : root.preorder[start]? = some child := by
      have head : (root.preorder.drop start)[0]? = some child := by
        rw [stand, Fragment.preorder_eq_cons]
        rfl
      rwa [List.getElem?_drop, Nat.add_zero] at head
    have later : root.preorder.drop (start + child.size) = preorderAll others ++ rest := by
      rw [← List.drop_drop, stand, ← Fragment.length_preorder, List.drop_left]
    have tail := ih later fun number found after => each number found (Nat.le_trans (Nat.le_add_right _ _) after)
    rw [numbers, List.flatMap_cons, each start child (Nat.le_refl _) first, tail, Fragment.sizes,
      List.range'_append_1]

theorem ids_outlineTo {depth : Nat} {fragment : Fragment} (at_id : root.preorder[id]? = some fragment)
    (deep : root.size ≤ depth + id) :
    ((ofRoot source root).outlineTo depth id).ids = List.range' id fragment.size := by
  induction depth generalizing id fragment with
  | zero =>
    have inside := (List.getElem?_eq_some_iff.mp at_id).1
    rw [Fragment.length_preorder] at inside
    omega
  | succ depth ih =>
    obtain ⟨rest, stand⟩ := Fragment.exists_drop_preorder root at_id
    have below : root.preorder.drop (id + 1) = preorderAll fragment.children ++ rest := by
      rw [← List.drop_drop, stand, Fragment.preorder_eq_cons]
      rfl
    have each (number : NodeId) (child : Fragment) (after : id + 1 ≤ number)
        (at_number : root.preorder[number]? = some child) :
        ((ofRoot source root).outlineTo depth number).ids = List.range' number child.size := by
      refine ih at_number (Nat.le_trans deep ?_)
      rw [Nat.add_assoc, Nat.add_comm 1]
      exact Nat.add_le_add_left after depth
    have walks := flatMap_numbers fragment.children below each
    have size : fragment.size = 1 + Fragment.sizes fragment.children := by
      cases fragment
      rfl
    rw [outlineTo, Outline.ids_node, List.flatMap_map, children_ofRoot at_id, walks, size, Nat.add_comm 1,
      List.range'_succ]

theorem descendants_ofRoot (source : String) (root : Fragment) :
    (ofRoot source root).descendants rootId = (ofRoot source root).ids := by
  have first : root.preorder[rootId]? = some root := by
    rw [Fragment.preorder_eq_cons]
    rfl
  unfold descendants outline
  rw [ids_outlineTo first (by rw [size_ofRoot]; exact Nat.le_refl _), ids, size_ofRoot, List.range_eq_range']
  rfl

/-! ### Linked trees -/

/-- What is reached from the root is a tree: nothing is reached twice, each node but the root is in one list of
children, once, and the links are those that these lists imply. -/
structure IsLinked (tree : Tree) : Prop where
  nodup : (tree.descendants rootId).Nodup
  below : ∀ id ∈ tree.descendants rootId, ∀ child ∈ tree.children id, child ∈ tree.descendants rootId
  once : ∀ id ∈ tree.descendants rootId,
    ((tree.descendants rootId).flatMap tree.children).count id = if id = rootId then 0 else 1
  linked : ∀ id ∈ tree.descendants rootId, ∀ before child after, tree.children id = before ++ child :: after →
    tree.parent? child = some id ∧ tree.prev? child = before.getLast? ∧ tree.next? child = after.head?
  root : tree.parent? rootId = none ∧ tree.prev? rootId = none ∧ tree.next? rootId = none

/-! ### Trees in document order -/

/-- Numbers follow the order of the nodes, and the lists of children make all nodes a tree whose links they imply. -/
structure InDocumentOrder (tree : Tree) : Prop where
  all : tree.descendants rootId = List.range tree.size
  later : ∀ id, ∀ child ∈ tree.children id, id < child ∧ child < tree.size
  increasing : ∀ id, (tree.children id).Pairwise (· < ·)
  once : ∀ id < tree.size, id ≠ rootId →
    ∃ parent, (tree.children parent).count id = 1 ∧ ∀ other, id ∈ tree.children other → other = parent
  linked : ∀ parent before child after, tree.children parent = before ++ child :: after →
    tree.parent? child = some parent ∧ tree.prev? child = before.getLast? ∧ tree.next? child = after.head?
  root : tree.parent? rootId = none ∧ tree.prev? rootId = none ∧ tree.next? rootId = none

theorem pairwise_numbers (start : NodeId) (children : List Fragment) :
    (numbers start children).Pairwise (· < ·) := by
  induction children generalizing start with
  | nil => exact .nil
  | cons child rest ih =>
    refine List.pairwise_cons.mpr ⟨fun id member => ?_, ih _⟩
    have after : start + child.size ≤ id := le_of_mem_numbers member
    refine Nat.lt_of_lt_of_le (Nat.lt_add_of_pos_right ?_) after
    cases child
    rw [Fragment.size]
    omega

variable {tree : Tree}

theorem pairwise_children_ofRoot (id : NodeId) : ((ofRoot source root).children id).Pairwise (· < ·) := by
  by_cases inside : id < (ofRoot source root).size
  · obtain ⟨fragment, at_id⟩ := exists_preorder inside
    rw [children_ofRoot at_id]
    exact pairwise_numbers _ _
  · rw [children_of_size_le (Nat.le_of_not_lt inside)]
    exact .nil

theorem inDocumentOrder_ofRoot (source : String) (root : Fragment) : (ofRoot source root).InDocumentOrder := by
  have numbered := numbered_ofRoot source root
  constructor
  case all => exact descendants_ofRoot source root
  case later => exact fun id child member => numbered.later member
  case increasing => exact pairwise_children_ofRoot
  case once =>
    intro id inside below
    obtain ⟨parent, member⟩ := exists_parent inside below
    have nodup : ((ofRoot source root).children parent).Nodup :=
      (pairwise_children_ofRoot parent).imp Nat.ne_of_lt
    refine ⟨parent, by rw [nodup.count, if_pos member], fun other inOther => ?_⟩
    have links := numbered.parent_of_mem inOther
    rw [numbered.parent_of_mem member] at links
    exact (Option.some.inj links).symm
  case linked => exact fun parent before child after split => numbered.linked split
  case root => exact numbered.root

/-- Whatever is read, the nodes are numbered in the order in which they are written. -/
theorem inDocumentOrder_of_ofSource {options : ParseOptions} (ok : ofSource source options = .ok tree) :
    tree.InDocumentOrder := by
  rw [ofSource_eq] at ok
  cases parsed : parse source options with
  | error failure =>
    rw [parsed] at ok
    cases ok
  | ok content =>
    rw [parsed] at ok
    cases ok
    exact inDocumentOrder_ofRoot source _

/-- Elements that end each other, raw text, and two sections of which only the first can be read. -/
def retractedSource : String :=
  "---\na: b\n---\n<ul><li>a<li>b<br>c</ul><!--[if IE]><p>x</p><![endif]-->" ++
    "<!--[if IE]><i>x<u>y</b><![endif]--><script>a<b</script>z"

theorem inDocumentOrder_of_ofSource_retractedSource : ∃ tree, ofSource retractedSource {} = .ok tree ∧
    tree.ids.map tree.children = [[1, 2, 3, 10, 13, 15, 17], [], [], [4, 6], [5], [], [7, 8, 9], [], [], [],
      [11], [12], [], [14], [], [16], [], []] ∧
    tree.InDocumentOrder := by
  have built : (ofSource retractedSource {}).toOption.map (fun tree => tree.ids.map tree.children) =
      some [[1, 2, 3, 10, 13, 15, 17], [], [], [4, 6], [5], [], [7, 8, 9], [], [], [],
        [11], [12], [], [14], [], [16], [], []] := by
    decide +kernel
  cases done : ofSource retractedSource {} with
  | ok tree =>
    rw [done] at built
    exact ⟨tree, rfl, Option.some.inj built, inDocumentOrder_of_ofSource done⟩
  | error failure =>
    rw [done] at built
    cases built

/-! ### Links -/

/-- No node is listed as a child twice. -/
def ListsOnce (tree : Tree) : Prop :=
  (tree.ids.flatMap tree.children).Nodup

instance (tree : Tree) : Decidable tree.ListsOnce :=
  inferInstanceAs (Decidable (List.Nodup _))

/-- The nodes around a node by the lists of children: its parent, and the children before and after it. -/
inductive Stands (tree : Tree) (child : NodeId) : Option NodeId → Option NodeId → Option NodeId → Prop where
  | among {parent : NodeId} {before after : List NodeId} (split : tree.children parent = before ++ child :: after) :
      Stands tree child (some parent) before.getLast? after.head?
  | nowhere (outside : ∀ parent, child ∉ tree.children parent) : Stands tree child none none none

variable {child : NodeId} {parent prev next : Option NodeId}

theorem exists_stands (tree : Tree) (child : NodeId) : ∃ parent prev next, tree.Stands child parent prev next := by
  by_cases listed : ∃ parent, child ∈ tree.children parent
  · obtain ⟨parent, member⟩ := listed
    obtain ⟨before, after, split⟩ := List.append_of_mem member
    exact ⟨some parent, before.getLast?, after.head?, .among split⟩
  · exact ⟨none, none, none, .nowhere (not_exists.mp listed)⟩

theorem Stands.links (stands : tree.Stands child parent prev next) (once : tree.ListsOnce) (inside : child < tree.size) :
    tree.relink.parent? child = parent ∧ tree.relink.prev? child = prev ∧ tree.relink.next? child = next := by
  cases stands with
  | among split => exact links_relink_of_split once inside split
  | nowhere outside =>
    refine links_relink_of_not_mem inside fun member => ?_
    obtain ⟨parent, -, listed⟩ := List.mem_flatMap.mp member
    exact outside parent listed

theorem links_iff_stands (once : tree.ListsOnce) (inside : child < tree.size) :
    tree.relink.parent? child = parent ∧ tree.relink.prev? child = prev ∧ tree.relink.next? child = next ↔
      tree.Stands child parent prev next := by
  refine ⟨?_, fun stands => stands.links once inside⟩
  rintro ⟨rfl, rfl, rfl⟩
  obtain ⟨parent, prev, next, stands⟩ := exists_stands tree child
  obtain ⟨isParent, isPrev, isNext⟩ := stands.links once inside
  rwa [isParent, isPrev, isNext]

/-- Links are made as the lists of children say, and nothing else is changed. Done again, this changes nothing. -/
theorem links_relink_iff (once : tree.ListsOnce) :
    (∀ child < tree.size, ∀ parent prev next,
      tree.relink.parent? child = parent ∧ tree.relink.prev? child = prev ∧ tree.relink.next? child = next ↔
        tree.Stands child parent prev next) ∧
    (tree.relink.size = tree.size ∧ tree.relink.source = tree.source ∧ tree.relink.lines = tree.lines ∧
      ∀ id, (tree.relink.node id).toNodeInfo = (tree.node id).toNodeInfo ∧
        tree.relink.children id = tree.children id) ∧
    tree.relink.relink = tree.relink := by
  have same := map_unlinked_relink tree
  refine ⟨fun child inside _ _ _ => links_iff_stands once inside, ⟨size_relink tree, rfl, rfl, fun id => ⟨?_, ?_⟩⟩, ?_⟩
  · have info := congrArg Node.toNodeInfo (unlinked_node same id)
    exact info
  · exact congrFun (children_eq_of_unlinked same) id
  · exact relink_congr same rfl rfl

/-- The second child was added first, a node outside of every list has a child, and two nodes have links that are out of
date. -/
def staleTree : Tree where
  nodes := #[
    { kind := .root, span := ⟨0, 3⟩, children := [2, 1] },
    { kind := .text "b", span := ⟨1, 2⟩, next := some 2 },
    { kind := .text "a", span := ⟨0, 1⟩ },
    { kind := .interpolation, span := ⟨2, 3⟩, children := [4] },
    { kind := .text "c", span := ⟨2, 3⟩ },
    { kind := .text "d", span := ⟨2, 3⟩, parent := some 0, prev := some 1 }]
  source := "abc"
  lines := .build "abc".toList

theorem links_relink_iff_staleTree : staleTree.ListsOnce ∧
    (staleTree.relink.parent? 1 = some 0 ∧ staleTree.relink.prev? 1 = some 2 ∧ staleTree.relink.next? 1 = none) ∧
    (staleTree.relink.parent? 4 = some 3 ∧ staleTree.relink.prev? 4 = none ∧ staleTree.relink.next? 4 = none) ∧
    (staleTree.relink.parent? 5 = none ∧ staleTree.relink.prev? 5 = none ∧ staleTree.relink.next? 5 = none) ∧
    staleTree.relink.relink = staleTree.relink := by
  have once : staleTree.ListsOnce := by decide
  obtain ⟨links, -, again⟩ := links_relink_iff once
  have outside (parent : NodeId) : 5 ∉ staleTree.children parent := by
    intro member
    have listed := List.mem_flatMap_of_mem (mem_ids_of_mem_children member) member
    exact absurd listed (by decide)
  have second : staleTree.children 0 = [2] ++ 1 :: [] := rfl
  have alone : staleTree.children 3 = [] ++ 4 :: [] := rfl
  exact ⟨once, (links 1 (by decide) _ _ _).mpr (.among second), (links 4 (by decide) _ _ _).mpr (.among alone),
    (links 5 (by decide) _ _ _).mpr (.nowhere outside), again⟩

end Tree

end MarkupFormat.Markup
