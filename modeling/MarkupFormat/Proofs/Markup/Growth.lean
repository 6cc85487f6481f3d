import MarkupFormat.Markup.Builder
import MarkupFormat.Proofs.Markup.Numbering

/-!
# Tables that are being built

How a table of nodes changes while it is built, and when the spans of its elements are completed at the end.

While a table is built, a node on each level has content that still grows: what comes next stands at the end of the
table, below the innermost of them. `Growing.rows` is the table of such nodes. It grows as nodes are added and
does not change when the innermost node is left (`rows_leave`); what was added below a node can be dropped from
it (`lists_truncate`).

An element without an end tag reaches to the end of its last child. `Fragment.extend` says so of a tree, from its
leaves on. In a table the nodes are extended one after the other, the last one first, and this has the same effect
since the children of a node come after it (`Lists.extendSpans`).
-/

namespace MarkupFormat.Markup

open Fragment (sizes)

namespace Tree

theorem numbers_append (start : NodeId) (fragments more : List Fragment) :
    numbers start (fragments ++ more) = numbers start fragments ++ numbers (start + sizes fragments) more := by
  induction fragments generalizing start with
  | nil => rfl
  | cons fragment rest ih => rw [List.cons_append, numbers, numbers, sizes, ih, Nat.add_assoc, List.cons_append]

theorem nodesOfAll_append (start : NodeId) (fragments more : List Fragment) :
    nodesOfAll start (fragments ++ more) =
      nodesOfAll start fragments ++ nodesOfAll (start + sizes fragments) more := by
  induction fragments generalizing start with
  | nil => rfl
  | cons fragment rest ih =>
    rw [List.cons_append, nodesOfAll, nodesOfAll, sizes, ih, Nat.add_assoc, List.append_assoc]

/-! ### What a tree lists -/

/-- The nodes of a tree, apart from their links, and the source of the tree. -/
structure Lists (tree : Tree) (source : String) (rows : List Node) : Prop where
  rows_eq : tree.nodes.toList.map unlinked = rows
  source_eq : tree.source = source
  lines_eq : tree.lines = .build source.toList

variable {tree : Tree} {source : String} {rows before after : List Node} {row changed : Node}

theorem lists_empty (source : String) :
    (empty source).Lists source [{ kind := .root, span := ⟨0, Text.byteLength source.toList⟩ }] :=
  ⟨rfl, rfl, rfl⟩

theorem Lists.size_eq (lists : tree.Lists source rows) : tree.size = rows.length := by
  rw [← lists.rows_eq, List.length_map]
  rfl

theorem Lists.row_eq (lists : tree.Lists source (before ++ row :: after)) :
    unlinked (tree.node before.length) = row := by
  have found : (tree.nodes.toList.map unlinked)[before.length]? = some row := by
    rw [lists.rows_eq, List.getElem?_append_right (Nat.le_refl _), Nat.sub_self]
    rfl
  rw [List.getElem?_map, Option.map_eq_some_iff] at found
  obtain ⟨node, at_id, same⟩ := found
  rw [node_eq (Array.getElem?_toList .. ▸ at_id), same]

theorem Lists.info_eq (lists : tree.Lists source (before ++ row :: after)) :
    (tree.node before.length).toNodeInfo = row.toNodeInfo := by
  have same := congrArg Node.toNodeInfo lists.row_eq
  exact same

theorem Lists.children_eq (lists : tree.Lists source (before ++ row :: after)) :
    tree.children before.length = row.children := by
  have same := congrArg Node.children lists.row_eq
  exact same

theorem Lists.alloc (lists : tree.Lists source rows) (node : Node) :
    (tree.alloc node).1.Lists source (rows ++ [unlinked node]) := by
  refine ⟨?_, lists.source_eq, lists.lines_eq⟩
  show (tree.nodes.push node).toList.map unlinked = _
  rw [Array.toList_push, List.map_append, lists.rows_eq]
  rfl

theorem Lists.modify {change : Node → Node} (lists : tree.Lists source (before ++ row :: after))
    (changes : ∀ node, unlinked node = row → unlinked (change node) = changed) :
    (tree.modify before.length change).Lists source (before ++ changed :: after) := by
  refine ⟨?_, lists.source_eq, lists.lines_eq⟩
  show (tree.nodes.modify before.length change).toList.map unlinked = _
  rw [Array.toList_modify]
  obtain ⟨first, others, split, same, rest⟩ := List.map_eq_append_iff.mp lists.rows_eq
  obtain ⟨node, last, rfl, isRow, isLast⟩ := List.map_eq_cons_iff.mp rest
  have at_row : first.length = before.length := by rw [← same, List.length_map]
  have within : before.length < tree.nodes.toList.length := by
    rw [split, List.length_append, List.length_cons]
    omega
  rw [List.modify_eq_take_cons_drop within, List.map_append, List.map_cons]
  simp only [split, ← at_row, List.take_left, List.getElem_append_right (Nat.le_refl _), Nat.sub_self,
    List.getElem_cons_zero, List.drop_append, Nat.add_sub_cancel_left]
  rw [same, changes node isRow, List.drop_eq_nil_of_le (Nat.le_succ _), List.nil_append, List.drop_one, List.tail_cons,
    isLast]

theorem Lists.truncate (lists : tree.Lists source rows) (count : Nat) :
    (tree.truncate count).Lists source (rows.take count) := by
  refine ⟨?_, lists.source_eq, lists.lines_eq⟩
  show (tree.nodes.extract 0 count).toList.map unlinked = _
  rw [Array.toList_extract, ← lists.rows_eq, List.map_take]
  rfl

theorem Lists.relink {root : Fragment} (lists : tree.Lists source (nodesOf rootId root)) :
    tree.relink = ofRoot source root := by
  have cleared : tree.nodes.map unlinked = (tableOf source root).nodes.map unlinked := by
    have rows : (tableOf source root).nodes.toList = nodesOf rootId root := rfl
    refine Array.toList_inj.mp ?_
    rw [Array.toList_map, Array.toList_map, rows, ← lists.rows_eq, List.map_map]
    rfl
  exact relink_congr cleared lists.source_eq lists.lines_eq

end Tree

/-- A node whose content still grows, with what is inside of it so far. -/
structure Growing where
  info : NodeInfo
  children : List Fragment := []

namespace Growing

open Markup.Tree (nodesOf nodesOfAll numbers Lists)

/-- The node if its number is `id`. The children in `more` are not among its content. -/
def row (growing : Growing) (id : NodeId) (more : List NodeId) : Node :=
  { toNodeInfo := growing.info, children := numbers (id + 1) growing.children ++ more }

/-- How many nodes there are so far. The innermost of those that grow comes first. -/
def count : List Growing → Nat
  | [] => 0
  | growing :: outer => count outer + (1 + sizes growing.children)

/-- The nodes so far, if the innermost one also has the children in `more`. -/
def rows : List Growing → List NodeId → List Node
  | [], _ => []
  | growing :: outer, more =>
    rows outer [count outer] ++
      growing.row (count outer) more :: nodesOfAll (count outer + 1) growing.children

variable {tree : Tree} {source : String} {growing around : Growing} {outer : List Growing}

theorem length_rows (all : List Growing) (more : List NodeId) : (rows all more).length = count all := by
  induction all generalizing more with
  | nil => rfl
  | cons growing outer ih =>
    rw [rows, count, List.length_append, List.length_cons, ih, Tree.length_nodesOfAll, Fragment.length_preorderAll,
      Nat.add_comm 1]

theorem rows_leave (growing around : Growing) (outer : List Growing) :
    rows (growing :: around :: outer) [] =
      rows ({ around with children := around.children ++ [.node growing.info growing.children] } :: outer) [] := by
  have number : count outer + 1 + sizes around.children = count outer + (1 + sizes around.children) :=
    Nat.add_assoc _ _ _
  simp only [rows, row, count, Tree.numbers_append, Tree.nodesOfAll_append, number, numbers, nodesOfAll, nodesOf,
    List.append_nil, List.append_assoc, List.cons_append]

theorem exists_row (inner : List Growing) (growing : Growing) (outer : List Growing) (more : List NodeId) :
    ∃ row : Node, ∃ below, row.toNodeInfo = growing.info ∧
      rows (inner ++ growing :: outer) more = rows outer [count outer] ++ row :: below := by
  induction inner generalizing more with
  | nil => exact ⟨growing.row (count outer) more, _, rfl, rfl⟩
  | cons first inner ih =>
    obtain ⟨row, below, info, same⟩ := ih [count (inner ++ growing :: outer)]
    have whole := congrArg (· ++ first.row (count (inner ++ growing :: outer)) more ::
      nodesOfAll (count (inner ++ growing :: outer) + 1) first.children) same
    rw [List.append_assoc, List.cons_append] at whole
    exact ⟨row, _, info, whole⟩

theorem info_eq {inner : List Growing} {more : List NodeId}
    (lists : tree.Lists source (rows (inner ++ growing :: outer) more)) :
    (tree.node (count outer)).toNodeInfo = growing.info := by
  obtain ⟨row, below, info, same⟩ := exists_row inner growing outer more
  rw [same] at lists
  have found := lists.info_eq
  rw [length_rows] at found
  exact found.trans info

theorem lists_truncate {inner : List Growing} {more : List NodeId}
    (lists : tree.Lists source (rows (inner ++ growing :: outer) more)) :
    ∃ row : Node, row.toNodeInfo = growing.info ∧
      (tree.truncate (count outer + 1)).Lists source (rows outer [count outer] ++ [row]) := by
  obtain ⟨row, below, info, same⟩ := exists_row inner growing outer more
  have taken := lists.truncate (count outer + 1)
  have length := length_rows outer [count outer]
  rw [same, List.take_append, List.take_of_length_le (by omega), length, Nat.add_sub_cancel_left] at taken
  exact ⟨row, info, taken⟩

theorem lists_modify {changed : Growing} {change : Node → Node}
    (lists : tree.Lists source (rows (growing :: outer) [])) (same : changed.children = growing.children)
    (changes : ∀ node, Tree.unlinked node = growing.row (count outer) [] →
      Tree.unlinked (change node) = changed.row (count outer) []) :
    (tree.modify (count outer) change).Lists source (rows (changed :: outer) []) := by
  rw [rows] at lists
  have modified := lists.modify changes
  rw [length_rows, ← same] at modified
  exact modified

theorem lists_append (lists : tree.Lists source (rows (growing :: outer) [])) (info : NodeInfo) :
    (tree.append (count outer) { toNodeInfo := info }).1.Lists source
      (rows ({ info := info } :: growing :: outer) []) := by
  have size : tree.size = count (growing :: outer) := by rw [lists.size_eq, length_rows]
  have added := lists.alloc { toNodeInfo := info, parent := some (count outer) }
  rw [rows, List.append_assoc, List.cons_append] at added
  have changes (node : Node) (isRow : Tree.unlinked node = growing.row (count outer) []) :
      Tree.unlinked { node with children := node.children ++ [tree.size] } =
        growing.row (count outer) [tree.size] := by
    show { Tree.unlinked node with children := (Tree.unlinked node).children ++ [tree.size] } = _
    rw [isRow, row, row, List.append_nil]
  have modified := added.modify changes
  rw [length_rows] at modified
  rw [rows, rows, List.append_assoc, List.cons_append, ← size]
  exact modified

end Growing

/-! ### Elements without end tags -/

theorem NodeInfo.extendTo_of_not_element {info : NodeInfo} (other : info.kind.isElement = false) (stop : Option Nat) :
    info.extendTo stop = info := by
  unfold extendTo
  rw [other]
  rfl

theorem NodeInfo.extendTo_of_ended {info : NodeInfo} {endSpan : Span} (ended : info.endSpan = some endSpan)
    (stop : Option Nat) : info.extendTo stop = info := by
  unfold extendTo
  rw [ended, Option.isNone_some, Bool.and_false]
  rfl

namespace Fragment

mutual

/-- The tree with its elements without end tags extended. -/
def extend : Fragment → Fragment
  | node info children =>
    node (info.extendTo ((extendAll children).getLast?.map (·.span.stop))) (extendAll children)

def extendAll : List Fragment → List Fragment
  | [] => []
  | fragment :: rest => fragment.extend :: extendAll rest

end

theorem extendAll_eq_map (fragments : List Fragment) : extendAll fragments = fragments.map extend := by
  induction fragments with
  | nil => rfl
  | cons fragment rest ih => rw [extendAll, ih, List.map_cons]

theorem extendAll_append (fragments more : List Fragment) :
    extendAll (fragments ++ more) = extendAll fragments ++ extendAll more := by
  rw [extendAll_eq_map, extendAll_eq_map, extendAll_eq_map, List.map_append]

theorem extendAll_reverse (fragments : List Fragment) :
    extendAll fragments.reverse = (extendAll fragments).reverse := by
  rw [extendAll_eq_map, extendAll_eq_map, List.map_reverse]

theorem extend_node {info : NodeInfo} (other : info.kind.isElement = false) (children : List Fragment) :
    (node info children).extend = node info (extendAll children) := by
  rw [extend, NodeInfo.extendTo_of_not_element other]

theorem extend_childless (info : NodeInfo) : (node info []).extend = node info [] := by
  have same : info.extendTo none = info := by
    unfold NodeInfo.extendTo
    rw [Option.getD_none, Nat.max_self, ite_self]
  exact congrArg (node · []) same

mutual

theorem size_extend : ∀ fragment : Fragment, fragment.extend.size = fragment.size
  | node info children => by rw [extend, size, size, sizes_extendAll children]

theorem sizes_extendAll : ∀ fragments : List Fragment, sizes (extendAll fragments) = sizes fragments
  | [] => rfl
  | fragment :: rest => by rw [extendAll, sizes, sizes, size_extend fragment, sizes_extendAll rest]

end

end Fragment

namespace Tree

open Fragment (sizes extendAll sizes_extendAll)

variable {tree : Tree} {source : String} {before after : List Node}

theorem numbers_extendAll (start : NodeId) (fragments : List Fragment) :
    numbers start (extendAll fragments) = numbers start fragments := by
  induction fragments generalizing start with
  | nil => rfl
  | cons fragment rest ih => rw [extendAll, numbers, numbers, Fragment.size_extend, ih]

theorem Lists.extendSpan {row : Node} (lists : tree.Lists source (before ++ row :: after)) :
    (tree.extendSpan before.length).Lists source
      (before ++ { row with
        toNodeInfo := row.toNodeInfo.extendTo
          (row.children.getLast?.map fun last => (tree.node last).span.stop) } :: after) := by
  unfold Tree.extendSpan lastChild?
  dsimp only
  rw [lists.children_eq]
  refine lists.modify fun node isRow => ?_
  rw [← isRow]
  rfl

theorem Lists.stop_last {row : Node} {start : NodeId} {children : List Fragment}
    (lists : tree.Lists source (before ++ row :: (nodesOfAll start children ++ after)))
    (at_start : before.length + 1 = start) :
    ((numbers start children).getLast?.map fun last => (tree.node last).span.stop) =
      children.getLast?.map (·.span.stop) := by
  rcases List.eq_nil_or_concat children with rfl | ⟨others, last, rfl⟩
  · rfl
  · rw [List.concat_eq_append] at lists ⊢
    obtain ⟨info, below⟩ := last
    have place : (before ++ row :: nodesOfAll start others).length = start + sizes others := by
      rw [List.length_append, List.length_cons, length_nodesOfAll, Fragment.length_preorderAll, ← at_start]
      omega
    have found : (tree.node (start + sizes others)).toNodeInfo = info := by
      rw [nodesOfAll_append, nodesOfAll, nodesOf, List.cons_append, List.append_assoc, ← List.cons_append,
        ← List.append_assoc, List.cons_append] at lists
      rw [← place, lists.info_eq]
    rw [numbers_append, numbers, numbers, List.getLast?_append, List.getLast?_append]
    exact congrArg (fun info : NodeInfo => some info.span.stop) found

mutual

theorem lists_extend {start : NodeId} {before after : List Node} {tree : Tree} (at_start : before.length = start) :
    ∀ fragment : Fragment, tree.Lists source (before ++ (nodesOf start fragment ++ after)) →
      ((List.range' start fragment.size).foldr (fun id tree => tree.extendSpan id) tree).Lists source
        (before ++ (nodesOf start fragment.extend ++ after))
  | .node info children, lists => by
    rw [nodesOf, List.cons_append, List.append_cons] at lists
    have below := lists_extendAll (by rw [List.length_append, at_start]; rfl) children lists
    rw [List.append_assoc, List.singleton_append] at below
    have here := below.extendSpan
    rw [at_start, ← numbers_extendAll, below.stop_last (by rw [at_start])] at here
    rw [Fragment.size, Nat.add_comm 1, List.range'_succ, List.foldr_cons, Fragment.extend, nodesOf, List.cons_append]
    exact here

theorem lists_extendAll {start : NodeId} {before after : List Node} {tree : Tree} (at_start : before.length = start) :
    ∀ fragments : List Fragment, tree.Lists source (before ++ (nodesOfAll start fragments ++ after)) →
      ((List.range' start (sizes fragments)).foldr (fun id tree => tree.extendSpan id) tree).Lists source
        (before ++ (nodesOfAll start (extendAll fragments) ++ after))
  | [], lists => lists
  | fragment :: rest, lists => by
    rw [nodesOfAll, List.append_assoc, ← List.append_assoc] at lists
    have place : (before ++ nodesOf start fragment).length = start + fragment.size := by
      rw [List.length_append, length_nodesOf, Fragment.length_preorder, at_start]
    -- The last node comes first, so the rest is extended before the first fragment is.
    have others := lists_extendAll place rest lists
    rw [List.append_assoc] at others
    have first := lists_extend at_start fragment others
    rw [sizes, ← List.range'_append_1, List.foldr_append, extendAll, nodesOfAll, Fragment.size_extend,
      List.append_assoc]
    exact first

end

theorem Lists.extendSpans {root : Fragment} (lists : tree.Lists source (nodesOf rootId root)) :
    tree.extendSpans.Lists source (nodesOf rootId root.extend) := by
  have size : tree.size = root.size := by rw [lists.size_eq, length_nodesOf, Fragment.length_preorder]
  have whole : tree.Lists source ([] ++ (nodesOf rootId root ++ [])) := by
    rwa [List.nil_append, List.append_nil]
  have extended := lists_extend rfl root whole
  rw [List.nil_append, List.append_nil] at extended
  unfold Tree.extendSpans ids
  rw [size, List.range_eq_range']
  exact extended

end Tree

end MarkupFormat.Markup
