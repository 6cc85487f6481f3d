import MarkupFormat.Proofs.Annotate.Faithful
import MarkupFormat.Proofs.Annotate.Passes

/-!
# Nodes that outlive the passes

A tree contains a node if the node is somewhere in it, below nodes that can have children (`Fragment.Contains`). The
passes drop and change texts and the starts and ends of sections, and none of these has children. So whatever a tree
contains that can have children it still contains after a pass, changed as the pass changes it. There is one lemma for
each pass over a list of children, and one for the numbers that nodes have in between (`contains_classify`).
-/

namespace MarkupFormat.Markup.Fragment

/-- Somewhere in a tree a node has a property, and the nodes around it have another one. -/
inductive Contains (around : NodeInfo → Prop) (holds : Fragment → Prop) : Fragment → Prop where
  | here {fragment : Fragment} (found : holds fragment) : Contains around holds fragment
  | under {info : NodeInfo} {children : List Fragment} {child : Fragment} (outer : around info)
    (member : child ∈ children) (inside : Contains around holds child) : Contains around holds (.node info children)

/-- One of some trees contains a node. -/
def AnyContains (around : NodeInfo → Prop) (holds : Fragment → Prop) (fragments : List Fragment) : Prop :=
  ∃ fragment ∈ fragments, fragment.Contains around holds

variable {around around' : NodeInfo → Prop} {holds holds' : Fragment → Prop} {fragment found : Fragment}
  {fragments : List Fragment}

theorem Contains.self (own : NodeInfo → Prop) (outer : ∀ info, around info → own info)
    (inner : ∀ fragment, holds fragment → own fragment.info) (contains : fragment.Contains around holds) :
    own fragment.info := by
  cases contains with
  | here found => exact inner fragment found
  | under outside _ _ => exact outer _ outside

theorem AnyContains.cons (rest : AnyContains around holds fragments) (first : Fragment) :
    AnyContains around holds (first :: fragments) := by
  obtain ⟨node, member, contains⟩ := rest
  exact ⟨node, List.mem_cons_of_mem _ member, contains⟩

theorem Contains.exists_mem_preorder (contains : fragment.Contains around holds) :
    ∃ found ∈ fragment.preorder, holds found := by
  induction contains with
  | @here fragment found => exact ⟨fragment, by rw [preorder_eq_cons]; exact List.mem_cons_self, found⟩
  | @under info children child _ member _ ih =>
    obtain ⟨found, inside, holds⟩ := ih
    obtain ⟨before, after, rfl⟩ := List.append_of_mem member
    refine ⟨found, List.mem_cons_of_mem _ ?_, holds⟩
    have split (fragments : List Fragment) : child.preorder <:+: preorderAll (fragments ++ child :: after) := by
      induction fragments with
      | nil => exact ⟨[], preorderAll after, rfl⟩
      | cons fragment rest ih =>
        exact ih.trans (List.suffix_append fragment.preorder _).isInfix
    exact (split before).subset inside

/-- What can have children, whenever a node has any. -/
def Rooted (kind : NodeKind) (children : List NodeKind) : Prop :=
  kind.canHaveChildren = false → children = []

mutual

theorem contains_of_mem_preorder (holdsFound : holds found) : ∀ fragment : Fragment,
    fragment.Follows NodeInfo.kind Rooted → found ∈ fragment.preorder →
      fragment.Contains (fun info => info.kind.canHaveChildren = true) holds
  | node info children, ⟨here, below⟩, member => by
    rcases List.mem_cons.mp member with rfl | member
    · exact .here holdsFound
    · obtain ⟨child, inside, contains⟩ := anyContains_of_mem_preorderAll holdsFound children below member
      refine .under (Bool.not_eq_false _ ▸ fun leaf => ?_) inside contains
      obtain rfl := List.map_eq_nil_iff.mp (here leaf)
      exact List.not_mem_nil inside

theorem anyContains_of_mem_preorderAll (holdsFound : holds found) : ∀ fragments : List Fragment,
    AllFollow NodeInfo.kind Rooted fragments → found ∈ preorderAll fragments →
      AnyContains (fun info => info.kind.canHaveChildren = true) holds fragments
  | [], _, member => absurd member List.not_mem_nil
  | fragment :: rest, ⟨first, others⟩, member => by
    rcases List.mem_append.mp member with inside | later
    · exact ⟨fragment, List.mem_cons_self, contains_of_mem_preorder holdsFound fragment first inside⟩
    · exact (anyContains_of_mem_preorderAll holdsFound rest others later).cons fragment

end

/-! ### Passes -/

theorem bottomUpAll_eq_map (make : NodeInfo → List Fragment → Fragment) (fragments : List Fragment) :
    bottomUpAll make fragments = fragments.map (·.bottomUp make) := by
  induction fragments with
  | nil => rfl
  | cons fragment rest ih => rw [bottomUpAll, ih, List.map_cons]

/-- What a tree contains is changed as the pass changes it, if the nodes around it keep it. -/
theorem contains_bottomUp {make : NodeInfo → List Fragment → Fragment}
    (self : ∀ fragment, holds fragment → holds' (fragment.bottomUp make))
    (step : ∀ info children, around info → AnyContains around' holds' children →
      (make info children).Contains around' holds')
    (contains : fragment.Contains around holds) : (fragment.bottomUp make).Contains around' holds' := by
  induction contains with
  | here found => exact .here (self _ found)
  | under outer member _ ih =>
    rw [bottomUp, bottomUpAll_eq_map]
    exact step _ _ outer ⟨_, List.mem_map_of_mem member, ih⟩

theorem contains_mapChildren {change : NodeInfo → List Fragment → List Fragment}
    (self : ∀ info children, holds (.node info children) →
      holds' (.node info (change info (children.map (·.mapChildren change)))))
    (keeps : ∀ info children, AnyContains around holds' children → AnyContains around holds' (change info children))
    (contains : fragment.Contains around holds) : (fragment.mapChildren change).Contains around holds' := by
  refine contains_bottomUp (fun fragment found => ?_) (fun info children outer any => ?_) contains
  · cases fragment with
    | node info children =>
      rw [bottomUp, bottomUpAll_eq_map]
      exact self info children found
  · obtain ⟨child, member, inside⟩ := keeps info children any
    exact .under outer member inside

end MarkupFormat.Markup.Fragment

namespace MarkupFormat.Annotate

open Markup (Flag Fragment NodeId NodeInfo NodeKind Tree)
open Markup.Fragment (AnyContains Contains)

variable {around : NodeInfo → Prop} {holds : Fragment → Prop} {children : List Fragment}
  (outer : ∀ info, around info → info.kind.canHaveChildren = true)
  (inner : ∀ fragment, holds fragment → fragment.kind.canHaveChildren = true)

include outer inner

theorem canHaveChildren_of_contains {fragment : Fragment} (contains : fragment.Contains around holds) :
    fragment.kind.canHaveChildren = true :=
  contains.self (fun info => info.kind.canHaveChildren = true) outer inner

theorem isText_of_contains {fragment : Fragment} (contains : fragment.Contains around holds) (value : String) :
    fragment.kind ≠ .text value := by
  intro isText
  have parent := canHaveChildren_of_contains outer inner contains
  rw [isText] at parent
  cases parent

theorem anyContains_dropLineFeed (any : AnyContains around holds children) :
    AnyContains around holds (dropLineFeed children) := by
  obtain ⟨child, member, contains⟩ := any
  have noText := isText_of_contains outer inner contains
  unfold dropLineFeed
  split
  · next info below rest =>
    split
    · next value isText =>
      have later : child ∈ rest := by
        obtain rfl | later := List.mem_cons.mp member
        · exact absurd isText (noText value)
        · exact later
      split
      · exact ⟨child, later, contains⟩
      · exact ⟨child, List.mem_cons_of_mem _ later, contains⟩
      · exact ⟨child, member, contains⟩
    · exact ⟨child, member, contains⟩
  · exact absurd member List.not_mem_nil

/-- An element that takes over the start of a section loses the end of the section and nothing else. -/
theorem anyContains_joinConditions
    (begins : ∀ fragment, holds fragment → ∀ first ∈ fragment.children.head?, first.kind ≠ .conditionalEnd)
    (kept : ∀ info element span startSpan, around info → info.kind.isElement = true →
      around { info with kind := .element element, span := span, startSpan := startSpan })
    (any : AnyContains around holds children) : AnyContains around holds (joinConditions children) := by
  obtain ⟨child, member, contains⟩ := any
  fun_induction joinConditions children with
  | case1 before element rest joined found ih =>
    obtain ⟨condition, e, startSpan, finish, below, starts, isElement, _, children, ends, _, _, rfl⟩ :=
      withCondition?_eq_some found
    obtain rfl | member := List.mem_cons.mp member
    · have parent := canHaveChildren_of_contains outer inner contains
      rw [starts] at parent
      cases parent
    · obtain rfl | member := List.mem_cons.mp member
      · refine ⟨_, List.mem_cons_self, ?_⟩
        cases contains with
        | here found => exact absurd ends (begins _ found finish (by rw [children]; rfl))
        | @under info inside child around_ inMember deeper =>
          obtain rfl : inside = finish :: below := children
          obtain rfl | inMember := List.mem_cons.mp inMember
          · have parent := canHaveChildren_of_contains outer inner deeper
            rw [ends] at parent
            cases parent
          · exact .under (kept info _ _ _ around_ (by rw [show info.kind = _ from isElement]; rfl)) inMember deeper
      · exact (ih member).cons _
  | case2 before element rest found ih =>
    obtain rfl | member := List.mem_cons.mp member
    · exact ⟨child, List.mem_cons_self, contains⟩
    · exact (ih member).cons before
  | case3 children _ => exact ⟨child, member, contains⟩

theorem anyContains_joinTexts (any : AnyContains around holds children) :
    AnyContains around holds (joinTexts children) := by
  obtain ⟨child, member, contains⟩ := any
  have parent := canHaveChildren_of_contains outer inner contains
  have apart : ∀ {info below value}, textOf? info.kind = some value → child ≠ .node info below := by
    rintro info below value text rfl
    rw [show (Fragment.node info below).kind.canHaveChildren = false from canHaveChildren_of_textOf? text] at parent
    cases parent
  refine ⟨child, ?_, contains⟩
  clear contains
  fun_induction joinTexts children with
  | case1 => exact absurd member List.not_mem_nil
  | case2 info below rest other ih =>
    obtain rfl | member := List.mem_cons.mp member
    · exact List.mem_cons_self
    · exact List.mem_cons_of_mem _ (ih member)
  | case3 info below rest value text next inside later joined more isText ih =>
    obtain same | member := List.mem_cons.mp member
    · exact absurd same (apart text)
    · have inside := ih member
      rw [joined] at inside
      obtain rfl | inside := List.mem_cons.mp inside
      · rw [show (Fragment.node next _).kind = _ from isText] at parent
        cases parent
      · exact List.mem_cons_of_mem _ inside
  | case4 info below rest value text next inside later joined noText ih =>
    obtain same | member := List.mem_cons.mp member
    · exact absurd same (apart text)
    · have inside := ih member
      rw [joined] at inside
      exact List.mem_cons_of_mem _ inside
  | case5 info below rest value text none ih =>
    obtain same | member := List.mem_cons.mp member
    · exact absurd same (apart text)
    · have inside := ih member
      rw [none] at inside
      exact absurd inside List.not_mem_nil

theorem anyContains_flatMap_splitText (any : AnyContains around holds children) :
    AnyContains around holds (children.flatMap splitText) := by
  obtain ⟨child, member, contains⟩ := any
  have noText : child.kind.isText = false := by
    have parent := canHaveChildren_of_contains outer inner contains
    cases kind : child.kind <;> first | rfl | (rw [kind] at parent; cases parent)
  refine ⟨child, List.mem_flatMap.mpr ⟨child, member, ?_⟩, contains⟩
  rw [splitText_of_noText noText]
  exact List.mem_singleton_self child

theorem isBlankContent_of_anyContains (any : AnyContains around holds children) : isBlankContent children = false := by
  obtain ⟨child, member, contains⟩ := any
  have noText := isText_of_contains outer inner contains
  unfold isBlankContent
  split
  · exact absurd member List.not_mem_nil
  · next only =>
    obtain rfl := List.mem_singleton.mp member
    split
    · next value isText => exact absurd isText (noText value)
    · rfl
  · rfl

omit outer inner in
theorem anyContains_flagFirst {flag : Flag}
    (flagged : ∀ fragment, fragment.Contains around holds → (withFlag flag fragment).Contains around holds)
    (condition : Bool) (any : AnyContains around holds children) :
    AnyContains around holds (flagFirst flag condition children) := by
  obtain ⟨child, member, contains⟩ := any
  cases children with
  | nil => exact absurd member List.not_mem_nil
  | cons first rest =>
    obtain rfl | later := List.mem_cons.mp member
    · refine ⟨_, List.mem_cons_self, ?_⟩
      split
      · exact flagged child contains
      · exact contains
    · exact ⟨child, List.mem_cons_of_mem _ later, contains⟩

theorem anyContains_trimTexts
    (flagged : ∀ flag fragment, flag = .leadingSpaces ∨ flag = .trailingSpaces → fragment.Contains around holds →
      (withFlag flag fragment).Contains around holds) {kept rest : List Fragment}
    (any : AnyContains around holds kept ∨ AnyContains around holds rest) :
    AnyContains around holds (trimTexts kept rest) := by
  have leading (condition : Bool) {nodes : List Fragment} (any : AnyContains around holds nodes) :
      AnyContains around holds (flagFirst .leadingSpaces condition nodes) :=
    anyContains_flagFirst (fun fragment => flagged .leadingSpaces fragment (.inl rfl)) condition any
  have trailing (condition : Bool) {nodes : List Fragment} (any : AnyContains around holds nodes) :
      AnyContains around holds (flagFirst .trailingSpaces condition nodes) :=
    anyContains_flagFirst (fun fragment => flagged .trailingSpaces fragment (.inr rfl)) condition any
  have later {info : NodeInfo} {below rest : List Fragment} {value : String} (isText : info.kind = .text value)
      (any : AnyContains around holds (.node info below :: rest)) : AnyContains around holds rest := by
    obtain ⟨child, member, contains⟩ := any
    obtain rfl | member := List.mem_cons.mp member
    · exact absurd isText (isText_of_contains outer inner contains value)
    · exact ⟨child, member, contains⟩
  fun_induction trimTexts kept rest with
  | case1 kept =>
    obtain ⟨child, member, contains⟩ | ⟨child, member, _⟩ := any
    · exact ⟨child, List.mem_reverse.mpr member, contains⟩
    · exact absurd member List.not_mem_nil
  | case2 kept info below rest value isText cs blank ih =>
    exact ih (any.imp (trailing _) fun any => leading _ (later isText any))
  | case3 kept info below rest value isText cs some _ _ ih =>
    exact ih (any.imp (fun any => (trailing _ any).cons _) fun any => leading _ (later isText any))
  | case4 kept info below rest noText ih =>
    refine ih (any.elim (fun any => .inl (any.cons _)) fun any => ?_)
    obtain ⟨child, member, contains⟩ := any
    obtain rfl | member := List.mem_cons.mp member
    · exact .inl ⟨_, List.mem_cons_self, contains⟩
    · exact .inr ⟨child, member, contains⟩

theorem anyContains_mergeSimple (source : List Char) (any : AnyContains around holds children) :
    AnyContains around holds (mergeSimple source children) ∨
      ∃ text ∈ mergeSimple source children, ∃ before element after,
        element.Contains around holds ∧ mergedText? source before element after = some text := by
  obtain ⟨child, member, contains⟩ := any
  have noText := isText_of_contains outer inner contains
  fun_induction mergeSimple source children with
  | case1 before element after rest text merged ih =>
    obtain ⟨first, _, last, isFirst, isLast, _⟩ := (merges_of_mergedText? merged).kinds
    obtain rfl | member := List.mem_cons.mp member
    · exact absurd isFirst (noText first)
    · obtain rfl | member := List.mem_cons.mp member
      · exact .inr ⟨text, List.mem_cons_self, before, child, after, contains, merged⟩
      · obtain rfl | member := List.mem_cons.mp member
        · exact absurd isLast (noText last)
        · obtain any | ⟨other, there, how⟩ := ih member
          · exact .inl (any.cons text)
          · exact .inr ⟨other, List.mem_cons_of_mem _ there, how⟩
  | case2 before element after rest unmerged ih =>
    obtain rfl | member := List.mem_cons.mp member
    · exact .inl ⟨child, List.mem_cons_self, contains⟩
    · obtain any | ⟨other, there, how⟩ := ih member
      · exact .inl (any.cons before)
      · exact .inr ⟨other, List.mem_cons_of_mem _ there, how⟩
  | case3 children _ => exact .inl ⟨child, member, contains⟩

end MarkupFormat.Annotate

namespace MarkupFormat.Markup.Tree

open Fragment (AnyContains Contains)

variable {source : String} {root fragment : Fragment} {tree : Tree} {id : NodeId} {depth : Nat}
  {around around' : NodeInfo → Prop} {holds holds' : Fragment → Prop}

theorem exists_mem_children_ofRoot (source : String) {info : NodeInfo} {children : List Fragment} {child : Fragment}
    (at_id : root.preorder[id]? = some (.node info children)) (member : child ∈ children) :
    ∃ inner ∈ (ofRoot source root).children id, root.preorder[inner]? = some child := by
  have found : some child ∈ ((ofRoot source root).children id).map (root.preorder[·]?) := by
    rw [getElem?_children_ofRoot at_id]
    exact List.mem_map_of_mem member
  exact List.mem_map.mp found

theorem gather_leaf (childless : tree.children id = []) (depth : Nat) :
    tree.gather (tree.outlineTo depth id) = .node (tree.node id).toNodeInfo [] := by
  cases depth with
  | zero => rfl
  | succ depth =>
    rw [outlineTo, childless]
    rfl

theorem gather_only {child : NodeId} (only : tree.children id = [child]) (childless : tree.children child = [])
    (depth : Nat) : tree.gather (tree.outlineTo (depth + 1) id) =
      .node (tree.node id).toNodeInfo [.node (tree.node child).toNodeInfo []] := by
  rw [outlineTo, only, gather, gatherAll_eq_map, List.map_map, List.map_singleton]
  exact congrArg (fun inner => Fragment.node (tree.node id).toNodeInfo [inner]) (gather_leaf childless depth)

theorem contains_gather (size : tree.size = root.size)
    (children : ∀ id, tree.children id = (ofRoot source root).children id)
    (outer : ∀ id fragment, root.preorder[id]? = some fragment → around fragment.info →
      around' (tree.node id).toNodeInfo)
    (inner : ∀ id fragment depth, root.preorder[id]? = some fragment → holds fragment → tree.size ≤ depth + id →
      holds' (tree.gather (tree.outlineTo depth id)))
    (contains : fragment.Contains around holds) (at_id : root.preorder[id]? = some fragment)
    (deep : tree.size ≤ depth + id) : (tree.gather (tree.outlineTo depth id)).Contains around' holds' := by
  induction contains generalizing id depth with
  | here found => exact .here (inner id _ depth at_id found deep)
  | under outside member _ ih =>
    obtain ⟨below, isBelow, at_below⟩ := exists_mem_children_ofRoot source at_id member
    obtain ⟨later, inside⟩ := (numbered_ofRoot source root).later isBelow
    rw [size_ofRoot, ← size] at inside
    rw [← children] at isBelow
    cases depth with
    | zero => exact absurd (later.trans inside) (Nat.not_lt_of_le (Nat.zero_add id ▸ deep))
    | succ depth =>
      rw [outlineTo, gather, gatherAll_eq_map, List.map_map]
      refine .under (outer id _ at_id outside) (List.mem_map_of_mem isBelow) (ih at_below ?_)
      rw [Nat.add_assoc, Nat.add_comm 1] at deep
      exact deep.trans (Nat.add_le_add_left later depth)

end MarkupFormat.Markup.Tree
