import Mathlib.Data.List.Infix
import MarkupFormat.Proofs.Annotate.Faithful
import MarkupFormat.Proofs.Annotate.Shape

/-!
# Simple elements that stay

Merging goes through the neighbours once, and a text that it makes takes part in no other merge. So a simple element
between two texts stays exactly where two such elements share a text before anything is merged: the first of them takes
the text away from the second (`exists_mergeableAt_iff_of_annotate`).
-/

namespace MarkupFormat.Markup.Tree

/-- An element without attributes that holds one text without white space, touches a text on both sides, and has no
spaces around or inside of it. -/
structure Mergeable (tree : Tree) (before element after : NodeId) : Prop where
  before : (tree.kind before).isText = true
  after : (tree.kind after).isText = true
  plain : ∃ info, tree.kind element = .element info ∧ info.attributes = []
  holds : ∃ only, tree.children element = [only] ∧ Annotate.hasSpaces (tree.node only).flags = false ∧
    ∃ value, tree.kind only = .text value ∧ value.toList.any Text.isMarkupSpace = false
  leading : (tree.node element).flags.leadingSensitive = true
  trailing : (tree.node element).flags.trailingSensitive = true
  tight : Annotate.hasSpaces (tree.node element).flags = false

/-- Three consecutive children that could be merged. -/
structure MergeableAt (tree : Tree) (before element after : NodeId) : Prop where
  among : ∃ parent ∈ tree.descendants rootId, [before, element, after] <:+: tree.children parent
  mergeable : tree.Mergeable before element after

/-- Whether a node is an element without attributes. -/
def isPlainElement (tree : Tree) (id : NodeId) : Bool :=
  match tree.kind id with
  | .element info => info.attributes = []
  | _ => false

/-- Whether the only child of a node is a text without white space in it and around it. -/
def holdsOneWord (tree : Tree) (id : NodeId) : Bool :=
  match tree.children id with
  | [only] =>
    match tree.kind only with
    | .text value => !Annotate.hasSpaces (tree.node only).flags && !value.toList.any Text.isMarkupSpace
    | _ => false
  | _ => false

variable {tree : Tree} {before element after id : NodeId}

theorem isPlainElement_iff :
    tree.isPlainElement id = true ↔ ∃ info, tree.kind id = .element info ∧ info.attributes = [] := by
  unfold isPlainElement
  split
  · next info isElement => simp [isElement]
  · next other => exact iff_of_false Bool.false_ne_true fun ⟨info, isElement, _⟩ => other info isElement

theorem holdsOneWord_iff : tree.holdsOneWord id = true ↔
    ∃ only, tree.children id = [only] ∧ Annotate.hasSpaces (tree.node only).flags = false ∧
      ∃ value, tree.kind only = .text value ∧ value.toList.any Text.isMarkupSpace = false := by
  unfold holdsOneWord
  split
  · next only children =>
    split
    · next value isText => simp [children, isText]
    · next other =>
      refine iff_of_false Bool.false_ne_true ?_
      rintro ⟨same, children', -, value, isText, -⟩
      obtain rfl := List.singleton_inj.mp (children.symm.trans children')
      exact other value isText
  · next other =>
    refine iff_of_false Bool.false_ne_true ?_
    rintro ⟨only, children, -⟩
    exact other only children

instance : Decidable (tree.Mergeable before element after) :=
  decidable_of_iff ((tree.kind before).isText = true ∧ (tree.kind after).isText = true ∧
      tree.isPlainElement element = true ∧ tree.holdsOneWord element = true ∧
      (tree.node element).flags.leadingSensitive = true ∧ (tree.node element).flags.trailingSensitive = true ∧
      Annotate.hasSpaces (tree.node element).flags = false)
    ⟨fun ⟨first, second, plain, holds, leading, trailing, tight⟩ =>
      ⟨first, second, isPlainElement_iff.mp plain, holdsOneWord_iff.mp holds, leading, trailing, tight⟩,
    fun ⟨first, second, plain, holds, leading, trailing, tight⟩ =>
      ⟨first, second, isPlainElement_iff.mpr plain, holdsOneWord_iff.mpr holds, leading, trailing, tight⟩⟩

instance : Decidable (tree.MergeableAt before element after) :=
  decidable_of_iff ((∃ parent ∈ tree.descendants rootId, [before, element, after] <:+: tree.children parent) ∧
    tree.Mergeable before element after) ⟨fun both => ⟨both.1, both.2⟩, fun both => ⟨both.among, both.mergeable⟩⟩

end MarkupFormat.Markup.Tree

namespace MarkupFormat.Annotate

open Format (Options)
open Markup (Fragment NodeId NodeInfo NodeKind Tags Tree)
open Markup.Fragment (looks preorder preorderAll)

variable {source : List Char} {before element after node : Fragment} {nodes : List Fragment}

/-! ### One pass over neighbours -/

/-- Three neighbours that a merge makes one text of. -/
def Joins (source : List Char) (before element after : Fragment) : Prop :=
  (mergedText? source before element after).isSome = true

theorem joins_iff : Joins source before element after ↔
    before.kind.isText = true ∧ (simpleElement? element).isSome = true ∧ after.kind.isText = true := by
  unfold Joins mergedText?
  cases simpleElement? element with
  | none => simp
  | some found =>
    cases before.kind <;> cases after.kind <;> simp [NodeKind.isText]

theorem isText_eq_false_of_simpleElement? (simple : (simpleElement? element).isSome = true) :
    element.kind.isText = false := by
  unfold simpleElement? at simple
  split at simple
  · next isElement _ =>
    rw [isElement]
    rfl
  · cases simple

/-- Some candidate is among the neighbours. -/
def Leaves (source : List Char) (nodes : List Fragment) : Prop :=
  ∃ before element after, [before, element, after] <:+: nodes ∧ Joins source before element after

/-- Two candidates among the neighbours share a text. -/
def Shares (source : List Char) (nodes : List Fragment) : Prop :=
  ∃ first one middle other last, [first, one, middle, other, last] <:+: nodes ∧
    Joins source first one middle ∧ Joins source middle other last

theorem Leaves.cons (leaves : Leaves source nodes) : Leaves source (node :: nodes) := by
  obtain ⟨before, element, after, among, joins⟩ := leaves
  exact ⟨before, element, after, List.infix_cons among, joins⟩

theorem Shares.cons (shares : Shares source nodes) : Shares source (node :: nodes) := by
  obtain ⟨first, one, middle, other, last, among, joins⟩ := shares
  exact ⟨first, one, middle, other, last, List.infix_cons among, joins⟩

theorem isText_head?_mergeSimple (source : List Char) (nodes : List Fragment) :
    (mergeSimple source nodes).head?.map (·.kind.isText) = nodes.head?.map (·.kind.isText) := by
  fun_cases mergeSimple source nodes with
  | case1 before fragment after rest text merged =>
    obtain ⟨_, _, _, isBefore, _, isText⟩ := (merges_of_mergedText? merged).kinds
    simp only [List.head?_cons, Option.map_some, isBefore, isText]
    rfl
  | case2 before fragment after rest _ => rfl
  | case3 nodes => rfl

theorem mergeSimple_cons (noText : node.kind.isText = false) :
    mergeSimple source (node :: nodes) = node :: mergeSimple source nodes := by
  match nodes with
  | [] => rfl
  | [next] => rfl
  | element :: after :: rest =>
    have apart : mergedText? source node element after = none := by
      refine Option.not_isSome_iff_eq_none.mp fun joins => ?_
      rw [(joins_iff.mp joins).1] at noText
      cases noText
    rw [mergeSimple, apart]

/-- A text and the candidate after it stand as before behind whatever is put in the place of the text. -/
theorem leaves_of_joins {text : Fragment} (isText : text.kind.isText = true)
    (joins : Joins source before element after) :
    Leaves source (text :: mergeSimple source (element :: after :: nodes)) := by
  obtain ⟨_, simple, afterText⟩ := joins_iff.mp joins
  rw [mergeSimple_cons (isText_eq_false_of_simpleElement? simple)]
  have head := isText_head?_mergeSimple source (after :: nodes)
  rw [List.head?_cons, Option.map_some, afterText] at head
  obtain ⟨next, isNext, nextText⟩ := Option.map_eq_some_iff.mp head
  obtain ⟨rest, same⟩ := List.head?_eq_some_iff.mp isNext
  rw [same]
  exact ⟨text, element, next, ⟨[], rest, rfl⟩, joins_iff.mpr ⟨isText, simple, nextText⟩⟩

/-- The element of a candidate behind a list's first node, and what touches it, were neighbours before the pass. -/
theorem exists_of_mergeSimple_eq_cons {rest : List Fragment} (simple : (simpleElement? element).isSome = true)
    (isText : after.kind.isText = true) (same : mergeSimple source nodes = element :: after :: rest) :
    ∃ text others, nodes = element :: text :: others ∧ text.kind.isText = true := by
  have noText := isText_eq_false_of_simpleElement? simple
  cases nodes with
  | nil => cases same
  | cons first others =>
    have head := isText_head?_mergeSimple source (first :: others)
    rw [same] at head
    have firstKind : first.kind.isText = false := (Option.some.inj head).symm.trans noText
    rw [mergeSimple_cons firstKind] at same
    obtain ⟨rfl, behind⟩ := List.cons.inj same
    have next := isText_head?_mergeSimple source others
    rw [behind] at next
    obtain ⟨text, isNext, nextText⟩ := Option.map_eq_some_iff.mp next.symm
    obtain ⟨others, rfl⟩ := List.head?_eq_some_iff.mp isNext
    exact ⟨text, others, rfl, nextText.trans isText⟩

theorem infix_cons_cons_iff {α : Type} {first second : α} {front list : List α} :
    first :: front <:+: second :: list ↔ (first = second ∧ front <+: list) ∨ first :: front <:+: list := by
  rw [List.infix_cons_iff, List.cons_prefix_cons]

theorem exists_three_of_length {α : Type} {list : List α} (long : 3 ≤ list.length) :
    ∃ first second third rest, list = first :: second :: third :: rest := by
  match list with
  | [] | [_] | [_, _] => simp at long
  | first :: second :: third :: rest => exact ⟨first, second, third, rest, rfl⟩

theorem shares_of_leaves_mergeSimple {source : List Char} {nodes : List Fragment} :
    Leaves source (mergeSimple source nodes) → Shares source nodes := by
  fun_induction mergeSimple source nodes with
  | case1 before fragment after rest text merged ih =>
    rintro ⟨one, two, three, among, joins⟩
    obtain ⟨rfl, behind, same⟩ | inside := infix_cons_cons_iff.mp among
    · obtain ⟨_, simple, isText⟩ := joins_iff.mp joins
      obtain ⟨next, others, rfl, nextText⟩ := exists_of_mergeSimple_eq_cons simple isText same.symm
      obtain ⟨_, _, _, _, isAfter, _⟩ := (merges_of_mergedText? merged).kinds
      have afterText : after.kind.isText = true := by
        rw [isAfter]
        rfl
      exact ⟨before, fragment, after, two, next, ⟨[], others, rfl⟩, Option.isSome_of_eq_some merged,
        joins_iff.mpr ⟨afterText, simple, nextText⟩⟩
    · exact (ih ⟨one, two, three, inside, joins⟩).cons.cons.cons
  | case2 before fragment after rest apart ih =>
    rintro ⟨one, two, three, among, joins⟩
    obtain ⟨rfl, behind, same⟩ | inside := infix_cons_cons_iff.mp among
    · obtain ⟨isFirst, simple, isText⟩ := joins_iff.mp joins
      obtain ⟨next, others, found, nextText⟩ := exists_of_mergeSimple_eq_cons simple isText same.symm
      cases found
      have joined : Joins source one fragment after := joins_iff.mpr ⟨isFirst, simple, nextText⟩
      unfold Joins at joined
      rw [apart] at joined
      cases joined
    · exact (ih ⟨one, two, three, inside, joins⟩).cons
  | case3 nodes short =>
    rintro ⟨one, two, three, among, _⟩
    obtain ⟨first, second, third, rest, same⟩ := exists_three_of_length among.length_le
    exact (short first second third rest same).elim

theorem leaves_mergeSimple_of_shares {source : List Char} {nodes : List Fragment} :
    Shares source nodes → Leaves source (mergeSimple source nodes) := by
  fun_induction mergeSimple source nodes with
  | case1 before fragment after rest text merged ih =>
    have isText : text.kind.isText = true := by
      obtain ⟨_, _, _, _, _, isText⟩ := (merges_of_mergedText? merged).kinds
      rw [isText]
      rfl
    have noText : fragment.kind.isText = false :=
      isText_eq_false_of_simpleElement? (joins_iff.mp (Option.isSome_of_eq_some merged)).2.1
    rintro ⟨first, one, middle, other, last, among, joins, joins'⟩
    obtain ⟨rfl, back, same⟩ | among := infix_cons_cons_iff.mp among
    · cases same
      exact leaves_of_joins isText joins'
    obtain ⟨rfl, _⟩ | among := infix_cons_cons_iff.mp among
    · rw [(joins_iff.mp joins).1] at noText
      cases noText
    obtain ⟨rfl, back, same⟩ | among := infix_cons_cons_iff.mp among
    · cases same
      exact leaves_of_joins isText joins
    · exact (ih ⟨first, one, middle, other, last, among, joins, joins'⟩).cons
  | case2 before fragment after rest apart ih =>
    rintro ⟨first, one, middle, other, last, among, joins, joins'⟩
    obtain ⟨rfl, back, same⟩ | among := infix_cons_cons_iff.mp among
    · cases same
      unfold Joins at joins
      rw [apart] at joins
      cases joins
    · exact (ih ⟨first, one, middle, other, last, among, joins, joins'⟩).cons
  | case3 nodes short =>
    rintro ⟨first, one, middle, other, last, among, _⟩
    have long : 3 ≤ nodes.length := Nat.le_trans (Nat.le_add_right 3 2) among.length_le
    obtain ⟨first, second, third, rest, same⟩ := exists_three_of_length long
    exact (short first second third rest same).elim

/-- After a pass, a candidate is left exactly if two candidates shared a text before it. -/
theorem leaves_mergeSimple_iff (source : List Char) (nodes : List Fragment) :
    Leaves source (mergeSimple source nodes) ↔ Shares source nodes :=
  ⟨shares_of_leaves_mergeSimple, leaves_mergeSimple_of_shares⟩

/-! ### One pass over a tree -/

theorem mem_mergeSimple_or (member : node ∈ nodes) :
    node ∈ mergeSimple source nodes ∨ node.kind.isText = true ∨ (simpleElement? node).isSome = true := by
  fun_induction mergeSimple source nodes with
  | case1 before fragment after rest text merged ih =>
    obtain ⟨isBefore, simple, isAfter⟩ := joins_iff.mp (Option.isSome_of_eq_some merged)
    obtain rfl | member := List.mem_cons.mp member
    · exact .inr (.inl isBefore)
    obtain rfl | member := List.mem_cons.mp member
    · exact .inr (.inr simple)
    obtain rfl | member := List.mem_cons.mp member
    · exact .inr (.inl isAfter)
    exact (ih member).imp_left (List.mem_cons_of_mem _)
  | case2 before fragment after rest _ ih =>
    obtain rfl | member := List.mem_cons.mp member
    · exact .inl List.mem_cons_self
    exact (ih member).imp_left (List.mem_cons_of_mem _)
  | case3 nodes => exact .inl member

/-- Some candidate is below a node. -/
def LeavesBelow (source : List Char) (fragment : Fragment) : Prop :=
  ∃ parent ∈ fragment.preorder, Leaves source parent.children

theorem leavesBelow_node {info : NodeInfo} {children : List Fragment} :
    LeavesBelow source (.node info children) ↔
      Leaves source children ∨ ∃ child ∈ children, LeavesBelow source child := by
  have below (fragments : List Fragment) : (∃ parent ∈ preorderAll fragments, Leaves source parent.children) ↔
      ∃ child ∈ fragments, LeavesBelow source child := by
    induction fragments with
    | nil => simp [preorderAll]
    | cons fragment rest ih => simp [preorderAll, or_and_right, exists_or, ih, LeavesBelow]
  rw [← below]
  simp [LeavesBelow, preorder, Fragment.children]

theorem not_leaves_of_length_lt (short : nodes.length < 3) : ¬ Leaves source nodes := by
  rintro ⟨before, element, after, among, _⟩
  exact Nat.not_lt_of_le among.length_le short

theorem not_leavesBelow_of_children_eq_nil (leaf : node.children = []) : ¬ LeavesBelow source node := by
  cases node with
  | node info children =>
    cases leaf
    rw [leavesBelow_node]
    rintro (leaves | ⟨child, member, _⟩)
    · exact not_leaves_of_length_lt (by decide) leaves
    · cases member

theorem children_eq_nil_of_isText (shaped : node.Follows (fun info => info) NodeInfo.Shaped)
    (isText : node.kind.isText = true) : node.children = [] := by
  cases node with
  | node info children =>
    have here := (Fragment.follows_node.mp shaped).1
    obtain ⟨value, same⟩ := exists_text_of_isText isText
    have same : info.kind = .text value := same
    refine List.map_eq_nil_iff.mp (here.leaf ?_)
    rw [same]
    rfl

theorem not_leavesBelow (shaped : node.Follows (fun info => info) NodeInfo.Shaped)
    (merges : node.kind.isText = true ∨ (simpleElement? node).isSome = true) : ¬ LeavesBelow source node := by
  obtain isText | simple := merges
  · exact not_leavesBelow_of_children_eq_nil (children_eq_nil_of_isText shaped isText)
  cases node with
  | node info children =>
    unfold simpleElement? at simple
    split at simple
    · next only _ isOnly =>
      obtain rfl : children = [only] := isOnly
      split at simple
      · next value isText =>
        have leaf : only.children = [] := by
          refine children_eq_nil_of_isText ((Fragment.follows_node.mp shaped).2 only List.mem_cons_self) ?_
          rw [isText]
          rfl
        rw [leavesBelow_node]
        rintro (leaves | ⟨child, member, below⟩)
        · exact not_leaves_of_length_lt (by simp) leaves
        · cases List.mem_singleton.mp member
          exact not_leavesBelow_of_children_eq_nil leaf below
      · cases simple
    · cases simple

/-- Two candidates share a text below a node, once what is below each neighbour is merged. -/
def SharesBelow (source : List Char) (fragment : Fragment) : Prop :=
  ∃ parent ∈ fragment.preorder, Shares source (parent.children.map (mergeSimpleElements source))

mutual

/-- A candidate is left in a tree exactly if two candidates shared a text somewhere in it. -/
theorem leavesBelow_merge_iff : ∀ fragment : Fragment, fragment.Follows (fun info => info) NodeInfo.Shaped →
    (LeavesBelow source (mergeSimpleElements source fragment) ↔ SharesBelow source fragment)
  | .node info children, shaped => by
    have below := someLeaves_merge_iff children shaped.2
    have merged : ∀ child ∈ children.map (mergeSimpleElements source),
        child.Follows (fun info => info) NodeInfo.Shaped := by
      intro child member
      obtain ⟨fragment, inside, rfl⟩ := List.mem_map.mp member
      exact shaped_mergeSimpleElements ((Fragment.follows_node.mp shaped).2 fragment inside)
    have kept : (∃ child ∈ mergeSimple source (children.map (mergeSimpleElements source)),
        LeavesBelow source child) ↔
        ∃ child ∈ children.map (mergeSimpleElements source), LeavesBelow source child := by
      constructor
      · rintro ⟨child, member, leaves⟩
        obtain inside | ⟨_, _, _, _, made⟩ := mem_mergeSimple member
        · exact ⟨child, inside, leaves⟩
        · exact absurd leaves (not_leavesBelow_of_children_eq_nil (merges_of_mergedText? made).leaf)
      · rintro ⟨child, inside, leaves⟩
        refine ⟨child, (mem_mergeSimple_or inside).resolve_right fun merges => ?_, leaves⟩
        exact not_leavesBelow (merged child inside) merges leaves
    rw [mergeSimpleElements_node, leavesBelow_node, leaves_mergeSimple_iff, kept, below]
    simp [SharesBelow, preorder, Fragment.children]

theorem someLeaves_merge_iff : ∀ fragments : List Fragment,
    Fragment.AllFollow (fun info => info) NodeInfo.Shaped fragments →
    ((∃ child ∈ fragments.map (mergeSimpleElements source), LeavesBelow source child) ↔
      ∃ parent ∈ preorderAll fragments, Shares source (parent.children.map (mergeSimpleElements source)))
  | [], _ => by simp [preorderAll]
  | fragment :: rest, ⟨first, others⟩ => by
    have here := leavesBelow_merge_iff fragment first
    have later := someLeaves_merge_iff rest others
    simp only [List.map_cons, List.mem_cons, preorderAll, List.mem_append, or_and_right, exists_or, exists_eq_left]
    rw [here, later]
    rfl

end

/-! ### Candidates in a table -/

theorem simpleElement?_isSome_iff : (simpleElement? element).isSome = true ↔
    (∃ info, element.kind = .element info ∧ info.attributes = []) ∧
      (∃ only, element.children = [only] ∧ hasSpaces only.info.flags = false ∧
        ∃ value, only.kind = .text value ∧ value.toList.any Text.isMarkupSpace = false) ∧
      element.info.flags.leadingSensitive = true ∧ element.info.flags.trailingSensitive = true ∧
      hasSpaces element.info.flags = false := by
  unfold simpleElement?
  split
  · next info only isElement isOnly =>
    rw [isElement, isOnly]
    split
    · next value isText =>
      simp [isText]
      tauto
    · next noText =>
      simp
      tauto
  · next none =>
    simp
    tauto

variable {text : String} {root : Fragment}

theorem mergeable_ofRoot_iff {one two three : NodeId} (at_one : root.preorder[one]? = some before)
    (at_two : root.preorder[two]? = some element) (at_three : root.preorder[three]? = some after) :
    (Tree.ofRoot text root).Mergeable one two three ↔ Joins source before element after := by
  have kinds {id : NodeId} {fragment : Fragment} (at_id : root.preorder[id]? = some fragment) :
      (Tree.ofRoot text root).kind id = fragment.kind := congrArg NodeInfo.kind (Tree.info_ofRoot at_id)
  have flags {id : NodeId} {fragment : Fragment} (at_id : root.preorder[id]? = some fragment) :
      ((Tree.ofRoot text root).node id).flags = fragment.info.flags := congrArg NodeInfo.flags (Tree.info_ofRoot at_id)
  have children : ((Tree.ofRoot text root).children two).map (root.preorder[·]?) = _ :=
    Tree.getElem?_children_ofRoot at_two
  rw [joins_iff, simpleElement?_isSome_iff]
  constructor
  · rintro ⟨isBefore, isAfter, plain, ⟨only, isOnly, tightOnly, solid⟩, leading, trailing, tight⟩
    rw [isOnly] at children
    obtain ⟨child, isChild, at_only⟩ := List.map_eq_singleton_iff.mp children.symm
    rw [kinds at_one] at isBefore
    rw [kinds at_two] at plain
    rw [kinds at_three] at isAfter
    rw [flags at_two] at leading trailing tight
    rw [kinds at_only.symm] at solid
    rw [flags at_only.symm] at tightOnly
    exact ⟨isBefore, ⟨plain, ⟨child, isChild, tightOnly, solid⟩, leading, trailing, tight⟩, isAfter⟩
  · rintro ⟨isBefore, ⟨plain, ⟨child, isChild, tightOnly, solid⟩, leading, trailing, tight⟩, isAfter⟩
    rw [isChild] at children
    obtain ⟨only, isOnly, at_only⟩ := List.map_eq_singleton_iff.mp children
    rw [← kinds at_one] at isBefore
    rw [← kinds at_two] at plain
    rw [← kinds at_three] at isAfter
    rw [← flags at_two] at leading trailing tight
    rw [← kinds at_only] at solid
    rw [← flags at_only] at tightOnly
    exact ⟨isBefore, isAfter, plain, ⟨only, isOnly, tightOnly, solid⟩, leading, trailing, tight⟩

theorem exists_mergeableAt_ofRoot_iff (text : String) (root : Fragment) :
    (∃ one two three, (Tree.ofRoot text root).MergeableAt one two three) ↔ LeavesBelow source root := by
  constructor
  · rintro ⟨one, two, three, ⟨parent, reached, among⟩, mergeable⟩
    rw [Tree.descendants_ofRoot] at reached
    obtain ⟨fragment, at_parent⟩ := Tree.exists_preorder (List.mem_range.mp reached)
    have children : ((Tree.ofRoot text root).children parent).map (root.preorder[·]?) = _ :=
      Tree.getElem?_children_ofRoot at_parent
    have found := among.map (root.preorder[·]?)
    rw [children] at found
    obtain ⟨before, element, after, among, at_one, at_two, at_three⟩ := exists_infix_of_map found
    exact ⟨fragment, List.mem_of_getElem? at_parent, before, element, after, among,
      (mergeable_ofRoot_iff at_one.symm at_two.symm at_three.symm).mp mergeable⟩
  · rintro ⟨fragment, member, before, element, after, among, joins⟩
    obtain ⟨parent, at_parent⟩ := List.mem_iff_getElem?.mp member
    have children : ((Tree.ofRoot text root).children parent).map (root.preorder[·]?) = _ :=
      Tree.getElem?_children_ofRoot at_parent
    have found := among.map some
    rw [← children] at found
    obtain ⟨one, two, three, among, at_one, at_two, at_three⟩ := exists_infix_of_map found
    refine ⟨one, two, three, ⟨parent, ?_, among⟩, (mergeable_ofRoot_iff at_one at_two at_three).mpr joins⟩
    rw [Tree.descendants_ofRoot]
    refine List.mem_range.mpr ?_
    rw [Tree.size_ofRoot, ← Fragment.length_preorder]
    exact (List.getElem?_eq_some_iff.mp at_parent).1

/-! ### Annotated trees -/

/-- Annotating leaves an element that could be merged with the texts around it exactly if somewhere, in the tree that
the merges begin with, two of them share a text. -/
theorem exists_mergeableAt_iff_of_annotate {source : String} {options : Options} {annotated : Annotated}
    (ok : annotate source options = .ok annotated) :
    ∃ content, Markup.parse (Text.normalizeLineEndings source) {} = .ok content ∧
      ((∃ before element after, annotated.tree.MergeableAt before element after) ↔
        SharesBelow (Text.normalizeLineEndings source).toList
          (classify (Text.normalizeLineEndings source) options
            (normalize (rootOver (Text.normalizeLineEndings source) content))).toFragment) := by
  obtain ⟨content, parsed, tree⟩ := exists_parsed ok
  generalize Text.normalizeLineEndings source = text at parsed tree ⊢
  have holds : (normalize (rootOver text content)).Follows NodeInfo.tags Tags.HoldsTexts :=
    holdsTexts_normalize (tagged_root (readSource_of_parse parsed) rfl)
  refine ⟨content, parsed, ?_⟩
  generalize normalize (rootOver text content) = root at holds tree ⊢
  have shaped : (classify text options root).toFragment.Follows (fun info => info) NodeInfo.Shaped := by
    refine Tree.follows_toFragment (numbered_classify text options root) (shaped_classify text options holds) ?_
    rw [size_classify]
    exact size_pos root
  rw [tree]
  exact (exists_mergeableAt_ofRoot_iff text _).trans (leavesBelow_merge_iff _ shaped)

/-- Two simple elements that share the text between them. -/
def sharedTextSource : String :=
  "<p>a<b>c</b>d<i>e</i>f</p>"

/-- The paragraph holds a text, the second element with its text, and a text, which could be merged. -/
theorem exists_mergeableAt_iff_of_annotate_sharedTextSource : ∃ annotated content,
    annotate sharedTextSource {} = .ok annotated ∧ annotated.tree.children 1 = [2, 3, 5] ∧
      annotated.tree.MergeableAt 2 3 5 ∧
      Markup.parse (Text.normalizeLineEndings sharedTextSource) {} = .ok content ∧
        SharesBelow (Text.normalizeLineEndings sharedTextSource).toList
          (classify (Text.normalizeLineEndings sharedTextSource) {}
            (normalize (rootOver (Text.normalizeLineEndings sharedTextSource) content))).toFragment := by
  have left : (annotate sharedTextSource {}).toOption.any (fun annotated =>
      annotated.tree.children 1 = [2, 3, 5] && decide (annotated.tree.MergeableAt 2 3 5)) = true := by
    decide +kernel
  cases done : annotate sharedTextSource {} with
  | ok annotated =>
    rw [done] at left
    simp only [Except.toOption, Option.any_some, Bool.and_eq_true, decide_eq_true_eq] at left
    obtain ⟨content, parsed, shares⟩ := exists_mergeableAt_iff_of_annotate done
    exact ⟨annotated, content, rfl, left.1, left.2, parsed, shares.mp ⟨2, 3, 5, left.2⟩⟩
  | error failure =>
    rw [done] at left
    cases left

end MarkupFormat.Annotate
