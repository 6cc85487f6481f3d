import MarkupFormat.Markup.Tree
import MarkupFormat.Proofs.Markup.LocalRule

/-!
# Numbers of nodes

Nodes are numbered as they are written, so a tree is found again in its table: what stands from the number of
a node on is the node with everything below it. Every node but the root is a child once. So no list of
children undoes the links that another one implies (`numbered_ofRoot`), and a rule that holds all over a tree
holds all over its table (`obeys_ofRoot`).
-/

namespace MarkupFormat.Markup.Fragment

mutual

/-- The nodes of a tree, each before those below it. -/
def preorder : Fragment → List Fragment
  | node info children => node info children :: preorderAll children

/-- The nodes of several trees. -/
def preorderAll : List Fragment → List Fragment
  | [] => []
  | fragment :: rest => fragment.preorder ++ preorderAll rest

end

mutual

theorem length_preorder : ∀ fragment : Fragment, fragment.preorder.length = fragment.size
  | node info children => by
    rw [preorder, size, List.length_cons, length_preorderAll children, Nat.add_comm]

theorem length_preorderAll : ∀ fragments : List Fragment, (preorderAll fragments).length = sizes fragments
  | [] => rfl
  | fragment :: rest => by
    rw [preorderAll, sizes, List.length_append, length_preorder fragment, length_preorderAll rest]

end

mutual

theorem exists_drop_preorder {i : Nat} {found : Fragment} : ∀ fragment : Fragment,
    fragment.preorder[i]? = some found → ∃ rest, fragment.preorder.drop i = found.preorder ++ rest
  | node info children, at_i => by
    cases i with
    | zero =>
      cases at_i
      exact ⟨[], by rw [List.drop_zero, List.append_nil]⟩
    | succ i => exact exists_drop_preorderAll children at_i

theorem exists_drop_preorderAll {i : Nat} {found : Fragment} : ∀ fragments : List Fragment,
    (preorderAll fragments)[i]? = some found →
      ∃ rest, (preorderAll fragments).drop i = found.preorder ++ rest
  | [], at_i => by cases at_i
  | fragment :: rest, at_i => by
    rw [preorderAll] at at_i ⊢
    by_cases inside : i < fragment.preorder.length
    · rw [List.getElem?_append_left inside] at at_i
      obtain ⟨others, same⟩ := exists_drop_preorder fragment at_i
      refine ⟨others ++ preorderAll rest, ?_⟩
      rw [List.drop_append_of_le_length (Nat.le_of_lt inside), same, List.append_assoc]
    · have outside : fragment.preorder.length ≤ i := Nat.le_of_not_lt inside
      rw [List.getElem?_append_right outside] at at_i
      obtain ⟨others, same⟩ := exists_drop_preorderAll rest at_i
      refine ⟨others, ?_⟩
      rw [List.drop_append, List.drop_eq_nil_of_le outside, List.nil_append, same]

end

theorem preorder_eq_cons (fragment : Fragment) :
    fragment.preorder = fragment :: preorderAll fragment.children := by
  cases fragment with
  | node info children => rfl

variable {α : Type} {look : NodeInfo → α} {rule : α → List α → Prop}

mutual

theorem follows_of_mem_preorder {found : Fragment} : ∀ fragment : Fragment, fragment.Follows look rule →
    found ∈ fragment.preorder → found.Follows look rule
  | node info children, follows, member => by
    rcases List.mem_cons.mp member with rfl | member
    · exact follows
    · exact follows_of_mem_preorderAll children follows.2 member

theorem follows_of_mem_preorderAll {found : Fragment} : ∀ fragments : List Fragment,
    AllFollow look rule fragments → found ∈ preorderAll fragments → found.Follows look rule
  | [], _, member => absurd member List.not_mem_nil
  | fragment :: rest, ⟨first, others⟩, member => by
    rcases List.mem_append.mp member with member | member
    · exact follows_of_mem_preorder fragment first member
    · exact follows_of_mem_preorderAll rest others member

end

end MarkupFormat.Markup.Fragment

namespace MarkupFormat.Markup.Tree

open Fragment (preorder preorderAll)

/-! ### The table of a tree -/

/-- A node in the table, if its number is `id`. -/
def nodeAt (id : NodeId) (fragment : Fragment) : Node :=
  { toNodeInfo := fragment.info, children := numbers (id + 1) fragment.children }

mutual

theorem getElem?_nodesOf {start i : Nat} : ∀ fragment : Fragment,
    (nodesOf start fragment)[i]? = fragment.preorder[i]?.map (nodeAt (start + i))
  | .node info children => by
    rw [nodesOf, preorder]
    cases i with
    | zero => rfl
    | succ i =>
      rw [List.getElem?_cons_succ, List.getElem?_cons_succ, getElem?_nodesOfAll children,
        show start + 1 + i = start + (i + 1) by omega]

theorem getElem?_nodesOfAll {start i : Nat} : ∀ fragments : List Fragment,
    (nodesOfAll start fragments)[i]? = (preorderAll fragments)[i]?.map (nodeAt (start + i))
  | [] => rfl
  | fragment :: rest => by
    have length : (nodesOf start fragment).length = fragment.preorder.length := length_nodesOf fragment
    rw [nodesOfAll, preorderAll]
    by_cases inside : i < fragment.preorder.length
    · rw [List.getElem?_append_left inside, List.getElem?_append_left (by rwa [length]),
        getElem?_nodesOf fragment]
    · have outside : fragment.preorder.length ≤ i := Nat.le_of_not_lt inside
      rw [List.getElem?_append_right outside, List.getElem?_append_right (by rwa [length]), length,
        getElem?_nodesOfAll rest, Fragment.length_preorder,
        show start + fragment.size + (i - fragment.size) = start + i by
          rw [Fragment.length_preorder] at outside
          omega]

theorem length_nodesOf {start : Nat} : ∀ fragment : Fragment,
    (nodesOf start fragment).length = fragment.preorder.length
  | .node info children => by
    rw [nodesOf, preorder, List.length_cons, List.length_cons, length_nodesOfAll children]

theorem length_nodesOfAll {start : Nat} : ∀ fragments : List Fragment,
    (nodesOfAll start fragments).length = (preorderAll fragments).length
  | [] => rfl
  | fragment :: rest => by
    rw [nodesOfAll, preorderAll, List.length_append, List.length_append, length_nodesOf fragment,
      length_nodesOfAll rest]

end

theorem getElem?_numbers {nodes rest : List Fragment} {start : NodeId} {children : List Fragment}
    (stand : nodes.drop start = preorderAll children ++ rest) :
    (numbers start children).map (nodes[·]?) = children.map some := by
  induction children generalizing start rest with
  | nil => rfl
  | cons child others ih =>
    rw [preorderAll, List.append_assoc] at stand
    have first : nodes[start]? = some child := by
      have head : (nodes.drop start)[0]? = some child := by
        rw [stand, Fragment.preorder_eq_cons]
        rfl
      rwa [List.getElem?_drop, Nat.add_zero] at head
    have later : nodes.drop (start + child.size) = preorderAll others ++ rest := by
      rw [← List.drop_drop, stand, ← Fragment.length_preorder, List.drop_left]
    rw [numbers, List.map_cons, List.map_cons, first, ih later]

theorem le_of_mem_numbers {start id : NodeId} {children : List Fragment} (member : id ∈ numbers start children) :
    start ≤ id := by
  induction children generalizing start with
  | nil => cases member
  | cons child rest ih =>
    rcases List.mem_cons.mp member with rfl | member
    · exact Nat.le_refl _
    · exact Nat.le_trans (Nat.le_add_right _ _) (ih member)

mutual

/-- Each number below a node is in one list of children, once. -/
theorem perm_children_nodesOf (start : NodeId) : ∀ fragment : Fragment,
    (start :: (nodesOf start fragment).flatMap (·.children)).Perm (List.range' start fragment.size)
  | .node info children => by
    rw [nodesOf, Fragment.size, List.flatMap_cons, Nat.add_comm 1, List.range'_succ]
    exact (perm_children_nodesOfAll (start + 1) children).cons start

theorem perm_children_nodesOfAll (start : NodeId) : ∀ fragments : List Fragment,
    (numbers start fragments ++ (nodesOfAll start fragments).flatMap (·.children)).Perm
      (List.range' start (Fragment.sizes fragments))
  | [] => .refl _
  | fragment :: rest => by
    rw [numbers, nodesOfAll, Fragment.sizes, List.flatMap_append, ← List.range'_append_1]
    have first := perm_children_nodesOf start fragment
    have others := perm_children_nodesOfAll (start + fragment.size) rest
    refine List.Perm.trans ?_ (first.append others)
    rw [List.cons_append, List.cons_append]
    refine List.Perm.cons start ?_
    rw [← List.append_assoc, ← List.append_assoc]
    exact List.perm_append_comm.append_right _

end

/-! ### Links -/

@[simp] theorem size_modify (tree : Tree) (id : NodeId) (change : Node → Node) :
    (tree.modify id change).size = tree.size :=
  Array.size_modify

theorem map_unlinked_linkChildren (parent : NodeId) (prev : Option NodeId) (children : List NodeId)
    (nodes : Array Node) : (linkChildren parent prev children nodes).map unlinked = nodes.map unlinked := by
  induction children generalizing prev nodes with
  | nil => rfl
  | cons child rest ih =>
    rw [linkChildren, ih]
    refine Array.ext_getElem? fun i => ?_
    rw [Array.getElem?_map, Array.getElem?_map, Array.getElem?_modify]
    split
    · rw [Option.map_map]
      rfl
    · rfl

theorem map_unlinked_relink (tree : Tree) : tree.relink.nodes.map unlinked = tree.nodes.map unlinked := by
  have linked (ids : List NodeId) (nodes : Array Node) :
      (ids.foldl (fun nodes id => linkChildren id none (tree.children id) nodes) nodes).map unlinked =
        nodes.map unlinked := by
    induction ids generalizing nodes with
    | nil => rfl
    | cons id ids ih => rw [List.foldl_cons, ih, map_unlinked_linkChildren]
  unfold relink
  rw [linked, Array.map_map]
  rfl

/-- The links of a child among its parent's children. -/
def linkedAs (parent : NodeId) (prev next : Option NodeId) (node : Node) : Node :=
  { node with parent := some parent, prev := prev, next := next }

variable {nodes : Array Node} {parent child : NodeId}

theorem linkChildren_of_not_mem {prev : Option NodeId} {children : List NodeId} (outside : child ∉ children) :
    (linkChildren parent prev children nodes)[child]? = nodes[child]? := by
  induction children generalizing prev nodes with
  | nil => rfl
  | cons first rest ih =>
    rw [List.mem_cons, not_or] at outside
    rw [linkChildren, ih outside.2, Array.getElem?_modify, if_neg (Ne.symm outside.1)]

theorem linkChildren_of_split {prev : Option NodeId} {before after : List NodeId}
    (nodup : (before ++ child :: after).Nodup) :
    (linkChildren parent prev (before ++ child :: after) nodes)[child]? =
      nodes[child]?.map (linkedAs parent (before.getLast?.or prev) after.head?) := by
  induction before generalizing prev nodes with
  | nil =>
    obtain ⟨outside, _⟩ := List.nodup_cons.mp nodup
    rw [List.nil_append, linkChildren, linkChildren_of_not_mem outside, Array.getElem?_modify, if_pos rfl]
    rfl
  | cons first before ih =>
    obtain ⟨other, nodup⟩ := List.nodup_cons.mp nodup
    have other : first ≠ child := by
      rintro rfl
      exact other (List.mem_append_right _ List.mem_cons_self)
    rw [List.cons_append, linkChildren, ih nodup, Array.getElem?_modify, if_neg other,
      List.getLast?_cons]
    cases before.getLast? <;> rfl

variable {children : NodeId → List NodeId} {ids : List NodeId}

theorem linkAll_of_not_mem (outside : child ∉ ids.flatMap children) :
    (ids.foldl (fun nodes id => linkChildren id none (children id) nodes) nodes)[child]? = nodes[child]? := by
  induction ids generalizing nodes with
  | nil => rfl
  | cons id ids ih =>
    rw [List.flatMap_cons, List.mem_append, not_or] at outside
    rw [List.foldl_cons, ih outside.2, linkChildren_of_not_mem outside.1]

theorem linkAll_of_split {before after : List NodeId} (nodup : (ids.flatMap children).Nodup)
    (member : parent ∈ ids) (split : children parent = before ++ child :: after) :
    (ids.foldl (fun nodes id => linkChildren id none (children id) nodes) nodes)[child]? =
      nodes[child]?.map (linkedAs parent before.getLast? after.head?) := by
  have inside : child ∈ children parent := by
    rw [split]
    exact List.mem_append_right _ List.mem_cons_self
  induction ids generalizing nodes with
  | nil => cases member
  | cons id ids ih =>
    rw [List.flatMap_cons, List.nodup_append] at nodup
    obtain ⟨here, later, apart⟩ := nodup
    rw [List.foldl_cons]
    rcases List.mem_cons.mp member with rfl | member
    · have outside : child ∉ ids.flatMap children := fun other => apart child inside child other rfl
      rw [linkAll_of_not_mem outside, split, linkChildren_of_split (split ▸ here), Option.or_none]
    · have outside : child ∉ children id := fun other =>
        apart child other child (List.mem_flatMap_of_mem member inside) rfl
      rw [ih later member, linkChildren_of_not_mem outside]

/-! ### The tree of a fragment -/

theorem unlinked_node {tree other : Tree} (same : tree.nodes.map unlinked = other.nodes.map unlinked)
    (id : NodeId) : unlinked (tree.node id) = unlinked (other.node id) := by
  have atId : (tree.nodes.map unlinked)[id]? = (other.nodes.map unlinked)[id]? := by rw [same]
  rw [Array.getElem?_map, Array.getElem?_map] at atId
  unfold node
  rw [Array.getD_eq_getD_getElem?, Array.getD_eq_getD_getElem?]
  cases here : tree.nodes[id]? <;> cases there : other.nodes[id]? <;> rw [here, there] at atId
  · cases atId
  · cases atId
  · exact Option.some.inj atId

theorem node_eq {tree : Tree} {id : NodeId} {node : Node} (at_id : tree.nodes[id]? = some node) :
    tree.node id = node := by
  unfold Tree.node
  rw [Array.getD_eq_getD_getElem?, at_id, Option.getD_some]

theorem children_eq_of_unlinked {tree other : Tree} (same : tree.nodes.map unlinked = other.nodes.map unlinked) :
    tree.children = other.children := by
  funext id
  have same := congrArg Node.children (unlinked_node same id)
  exact same

theorem size_eq_of_unlinked {tree other : Tree} (same : tree.nodes.map unlinked = other.nodes.map unlinked) :
    tree.size = other.size := by
  have sizes := congrArg Array.size same
  rwa [Array.size_map, Array.size_map] at sizes

theorem ids_eq_of_unlinked {tree other : Tree} (same : tree.nodes.map unlinked = other.nodes.map unlinked) :
    tree.ids = other.ids := by
  unfold ids
  rw [size_eq_of_unlinked same]

theorem size_relink (tree : Tree) : tree.relink.size = tree.size :=
  size_eq_of_unlinked (map_unlinked_relink tree)

/-- The links that are made depend only on what a tree lists. -/
theorem relink_congr {tree other : Tree} (same : tree.nodes.map unlinked = other.nodes.map unlinked)
    (source : tree.source = other.source) (lines : tree.lines = other.lines) : tree.relink = other.relink := by
  unfold relink
  rw [same, children_eq_of_unlinked same, ids_eq_of_unlinked same, source, lines]

theorem children_of_size_le {tree : Tree} {id : NodeId} (outside : tree.size ≤ id) : tree.children id = [] := by
  unfold children node
  rw [Array.getD_eq_getD_getElem?, Array.getElem?_eq_none outside]
  rfl

theorem mem_ids_of_mem_children {tree : Tree} {id child : NodeId} (member : child ∈ tree.children id) :
    id ∈ tree.ids := by
  refine List.mem_range.mpr (Nat.lt_of_not_le fun outside => ?_)
  rw [children_of_size_le outside] at member
  cases member

theorem links_relink_of_split {tree : Tree} {before after : List NodeId}
    (nodup : (tree.ids.flatMap tree.children).Nodup) (inside : child < tree.size)
    (split : tree.children parent = before ++ child :: after) :
    tree.relink.parent? child = some parent ∧ tree.relink.prev? child = before.getLast? ∧
      tree.relink.next? child = after.head? := by
  have member : child ∈ tree.children parent := by
    rw [split]
    exact List.mem_append_right _ List.mem_cons_self
  have linked : tree.relink.nodes[child]? =
      (tree.nodes.map unlinked)[child]?.map (linkedAs parent before.getLast? after.head?) :=
    linkAll_of_split nodup (mem_ids_of_mem_children member) split
  rw [Array.getElem?_map, Array.getElem?_eq_getElem inside] at linked
  unfold parent? prev? next?
  rw [node_eq linked]
  exact ⟨rfl, rfl, rfl⟩

theorem links_relink_of_not_mem {tree : Tree} (inside : child < tree.size)
    (outside : child ∉ tree.ids.flatMap tree.children) :
    tree.relink.parent? child = none ∧ tree.relink.prev? child = none ∧ tree.relink.next? child = none := by
  have cleared : tree.relink.nodes[child]? = (tree.nodes.map unlinked)[child]? := linkAll_of_not_mem outside
  rw [Array.getElem?_map, Array.getElem?_eq_getElem inside] at cleared
  unfold parent? prev? next?
  rw [node_eq cleared]
  exact ⟨rfl, rfl, rfl⟩

/-- The table of a tree before it is linked. -/
def tableOf (source : String) (root : Fragment) : Tree :=
  { nodes := (nodesOf rootId root).toArray
    source := source
    lines := .build source.toList }

variable {source : String} {root : Fragment} {id : NodeId}

theorem getElem?_tableOf : (tableOf source root).nodes[id]? = root.preorder[id]?.map (nodeAt id) := by
  show (nodesOf rootId root).toArray[id]? = _
  rw [List.getElem?_toArray, getElem?_nodesOf, rootId, Nat.zero_add]

theorem size_tableOf : (tableOf source root).size = root.size := by
  show (nodesOf rootId root).toArray.size = _
  rw [List.size_toArray, length_nodesOf, Fragment.length_preorder]

theorem size_ofRoot : (ofRoot source root).size = root.size := by
  have same := congrArg Array.size (map_unlinked_relink (tableOf source root))
  rw [Array.size_map, Array.size_map] at same
  exact same.trans size_tableOf

theorem unlinked_ofRoot (source : String) (root : Fragment) (id : NodeId) :
    unlinked ((ofRoot source root).node id) = unlinked ((tableOf source root).node id) :=
  unlinked_node (map_unlinked_relink (tableOf source root)) id

theorem children_tableOf : (ofRoot source root).children id = (tableOf source root).children id :=
  congrFun (children_eq_of_unlinked (map_unlinked_relink (tableOf source root))) id

theorem info_ofRoot {fragment : Fragment} (at_id : root.preorder[id]? = some fragment) :
    ((ofRoot source root).node id).toNodeInfo = fragment.info := by
  have same := congrArg Node.toNodeInfo (unlinked_ofRoot source root id)
  have table : (tableOf source root).node id = nodeAt id fragment :=
    node_eq (by rw [getElem?_tableOf, at_id]; rfl)
  rw [table] at same
  exact same

theorem kind_rootId (source : String) (root : Fragment) : (ofRoot source root).kind rootId = root.kind := by
  have first : root.preorder[rootId]? = some root := by
    rw [Fragment.preorder_eq_cons]
    rfl
  exact congrArg NodeInfo.kind (info_ofRoot first)

theorem children_ofRoot {fragment : Fragment} (at_id : root.preorder[id]? = some fragment) :
    (ofRoot source root).children id = numbers (id + 1) fragment.children := by
  have table : (tableOf source root).node id = nodeAt id fragment :=
    node_eq (by rw [getElem?_tableOf, at_id]; rfl)
  rw [children_tableOf]
  show ((tableOf source root).node id).children = _
  rw [table]
  rfl

theorem exists_preorder (inside : id < (ofRoot source root).size) :
    ∃ fragment, root.preorder[id]? = some fragment := by
  rw [size_ofRoot, ← Fragment.length_preorder] at inside
  exact ⟨_, List.getElem?_eq_getElem inside⟩

theorem map_node_ids (tree : Tree) : tree.ids.map tree.node = tree.nodes.toList := by
  refine List.ext_getElem (by simp [ids, size]) fun i inside _ => ?_
  have inside : i < tree.nodes.size := by simpa [ids, size] using inside
  simp [ids, node, Array.getD, inside]

/-- Each number but that of the root is in one list of children, once. -/
theorem perm_children_tableOf (source : String) (root : Fragment) :
    (rootId :: (tableOf source root).ids.flatMap (tableOf source root).children).Perm
      (List.range' rootId root.size) := by
  have children : (tableOf source root).ids.flatMap (tableOf source root).children =
      (nodesOf rootId root).flatMap (·.children) := by
    have table : (tableOf source root).ids.map (tableOf source root).node = nodesOf rootId root :=
      map_node_ids _
    rw [← table, List.flatMap_map]
    rfl
  rw [children]
  exact perm_children_nodesOf rootId root

/-- Parents come before their children, and the links are those that the lists of children imply. -/
structure Numbered (tree : Tree) : Prop where
  later : ∀ {id child}, child ∈ tree.children id → id < child ∧ child < tree.size
  linked : ∀ {parent before child after}, tree.children parent = before ++ child :: after →
    tree.parent? child = some parent ∧ tree.prev? child = before.getLast? ∧ tree.next? child = after.head?
  root : tree.parent? rootId = none ∧ tree.prev? rootId = none ∧ tree.next? rootId = none

theorem Numbered.parent_of_mem {tree : Tree} {parent child : NodeId} (numbered : tree.Numbered)
    (member : child ∈ tree.children parent) : tree.parent? child = some parent := by
  obtain ⟨before, after, split⟩ := List.append_of_mem member
  exact (numbered.linked split).1

/-- A child is less deep than its parent. -/
theorem Numbered.size_le_of_mem {tree : Tree} {depth : Nat} {parent child : NodeId} (numbered : tree.Numbered)
    (member : child ∈ tree.children parent) (deep : tree.size ≤ depth + 1 + parent) : tree.size ≤ depth + child :=
  calc tree.size ≤ depth + 1 + parent := deep
    _ = depth + (parent + 1) := by rw [Nat.add_assoc, Nat.add_comm 1]
    _ ≤ depth + child := Nat.add_le_add_left (numbered.later member).1 depth

theorem numbered_ofRoot (source : String) (root : Fragment) : (ofRoot source root).Numbered := by
  have perm := perm_children_tableOf source root
  obtain ⟨noRoot, nodup⟩ := List.nodup_cons.mp (perm.nodup_iff.mpr List.nodup_range')
  have inside {id child : NodeId} (member : child ∈ (ofRoot source root).children id) :
      child < (ofRoot source root).size := by
    rw [children_tableOf] at member
    have below : child ∈ (tableOf source root).ids.flatMap (tableOf source root).children :=
      List.mem_flatMap_of_mem (mem_ids_of_mem_children member) member
    have number := perm.mem_iff.mp (List.mem_cons_of_mem rootId below)
    rw [size_ofRoot]
    have bound := (List.mem_range'_1.mp number).2
    rwa [rootId, Nat.zero_add] at bound
  refine ⟨fun {id child} member => ⟨?_, inside member⟩, fun {parent before child after} split => ?_, ?_⟩
  · obtain ⟨fragment, at_id⟩ := exists_preorder (List.mem_range.mp (mem_ids_of_mem_children member))
    rw [children_ofRoot at_id] at member
    exact le_of_mem_numbers member
  · have member : child ∈ (ofRoot source root).children parent := by
      rw [split]
      exact List.mem_append_right _ List.mem_cons_self
    have within : child < (tableOf source root).size := by
      rw [size_tableOf, ← size_ofRoot]
      exact inside member
    rw [children_tableOf] at split
    exact links_relink_of_split nodup within split
  · have within : rootId < (tableOf source root).size := by
      rw [size_tableOf]
      cases root
      exact Nat.lt_of_lt_of_le Nat.one_pos (Nat.le_add_right 1 _)
    exact links_relink_of_not_mem within noRoot

/-- Every node but the root is a child. -/
theorem exists_parent (inside : id < (ofRoot source root).size) (below : id ≠ rootId) :
    ∃ parent, id ∈ (ofRoot source root).children parent := by
  rw [size_ofRoot] at inside
  have member : id ∈ rootId :: (tableOf source root).ids.flatMap (tableOf source root).children := by
    refine (perm_children_tableOf source root).mem_iff.mpr (List.mem_range'_1.mpr ⟨Nat.zero_le id, ?_⟩)
    rwa [rootId, Nat.zero_add]
  obtain ⟨parent, _, child⟩ := List.mem_flatMap.mp ((List.mem_cons.mp member).resolve_left below)
  rw [← children_tableOf] at child
  exact ⟨parent, child⟩

/-! ### Rules -/

variable {α : Type} {look : NodeInfo → α} {rule : α → List α → Prop}

/-- Every node in the table follows a rule about what it and its children show. -/
def Obeys (look : NodeInfo → α) (rule : α → List α → Prop) (tree : Tree) : Prop :=
  ∀ id < tree.size, rule (look (tree.node id).toNodeInfo)
    ((tree.children id).map fun child => look (tree.node child).toNodeInfo)

theorem map_eq_of_getElem? {β : Type} {nodes children : List Fragment} {ids : List NodeId} {ofId : NodeId → β}
    {ofNode : Fragment → β} (found : ids.map (nodes[·]?) = children.map some)
    (agree : ∀ id child, nodes[id]? = some child → ofId id = ofNode child) : ids.map ofId = children.map ofNode := by
  induction ids generalizing children with
  | nil =>
    cases children with
    | nil => rfl
    | cons => cases found
  | cons id ids ih =>
    cases children with
    | nil => cases found
    | cons child children =>
      obtain ⟨first, others⟩ := List.cons.inj found
      rw [List.map_cons, List.map_cons, agree id child first, ih others]

theorem getElem?_children_ofRoot {fragment : Fragment} (at_id : root.preorder[id]? = some fragment) :
    ((ofRoot source root).children id).map (root.preorder[·]?) = fragment.children.map some := by
  obtain ⟨rest, stand⟩ := Fragment.exists_drop_preorder root at_id
  have below : root.preorder.drop (id + 1) = preorderAll fragment.children ++ rest := by
    rw [← List.drop_drop, stand, Fragment.preorder_eq_cons]
    rfl
  rw [children_ofRoot at_id]
  exact getElem?_numbers below

theorem map_children_ofRoot {fragment : Fragment} (at_id : root.preorder[id]? = some fragment) :
    ((ofRoot source root).children id).map (fun child => look ((ofRoot source root).node child).toNodeInfo) =
      Fragment.looks look fragment.children := by
  refine map_eq_of_getElem? (getElem?_children_ofRoot at_id) fun child node at_child => ?_
  rw [info_ofRoot at_child]

theorem obeys_ofRoot (source : String) {root : Fragment} (follows : root.Follows look rule) :
    (ofRoot source root).Obeys look rule := by
  intro id inside
  obtain ⟨fragment, at_id⟩ := exists_preorder inside
  rw [info_ofRoot at_id, map_children_ofRoot at_id]
  have here := Fragment.follows_of_mem_preorder root follows (List.mem_of_getElem? at_id)
  cases fragment with
  | node info children => exact here.1

end MarkupFormat.Markup.Tree
