import MarkupFormat.Proofs.Annotate.ClassifiedTable

/-!
# Faithful trees

The nodes of an annotated tree lie in the source where their spans say. A text is what its span covers, unless it took
the place of a text, a simple element and a text (`IsMerged`). `faithful_of_annotate` says so of the table in which a
source is annotated, whose nodes are also a tree with the links that its lists of children imply, whatever was added to
the table or left out of a list on the way.
-/

namespace MarkupFormat.Annotate

open Format (Options)
open Markup (Fragment NodeId NodeInfo NodeKind Span Spacing Tree)
open Markup.Fragment (looks preorder preorderAll)
open Markup.NodeInfo (spacing)
open Markup.Span (InOrder)
open Text (Cut)

variable {source : List Char} {rule : Spacing → List Spacing → Prop} {start stop : Nat}

/-! ### Merging -/

theorem lies_mergeSimple (nodes : List Fragment) (lies : Lies (Nested (Between source)) nodes start stop) :
    Lies (Nested (Between source)) (mergeSimple source nodes) start stop := by
  fun_induction mergeSimple source nodes generalizing start with
  | case1 before fragment after rest text merged ih =>
    have merges := merges_of_mergedText? merged
    obtain ⟨first, some, _, others⟩ := lies_cons.mp lies
    obtain ⟨second, some', _, others⟩ := lies_cons.mp others
    obtain ⟨third, some'', _, others⟩ := lies_cons.mp others
    have starts : text.span.start = before.span.start := merges.leading.1
    have stops : text.span.stop = after.span.stop := merges.trailing.1
    have whole : text.span.start < text.span.stop := by omega
    refine lies_cons.mpr ⟨starts ▸ first, whole, ?_, stops ▸ ih others⟩
    cases text with
    | node info children =>
      obtain rfl : children = [] := merges.leaf
      exact follows_empty (Nat.le_of_lt whole)
  | case2 before fragment after rest _ ih =>
    obtain ⟨first, some, follows, others⟩ := lies_cons.mp lies
    exact lies_cons.mpr ⟨first, some, follows, ih others⟩
  | case3 => exact lies

theorem nested_mergeSimpleElements {fragment : Fragment}
    (nested : fragment.Follows spacing (Nested (Between source))) :
    (mergeSimpleElements source fragment).Follows spacing (Nested (Between source)) := by
  refine Fragment.follows_mapChildren (fun info children here below => ?_) fragment nested
  obtain ⟨leaf, inOrder, inner⟩ := here
  rw [spans_looks] at inOrder
  have lies := lies_mergeSimple children ⟨inOrder, below⟩
  refine ⟨⟨fun isLeaf => ?_, ?_, fun isInterpolation => ?_⟩, lies.follow⟩
  · rw [List.map_eq_nil_iff.mp (leaf isLeaf)]
    rfl
  · rw [spans_looks]
    exact lies.inOrder
  · -- An interpolation has too few children for a merge.
    have few : mergeSimple source children = children := by
      obtain none | ⟨only, same, _⟩ := inner isInterpolation
      · rw [List.map_eq_nil_iff.mp none]
        rfl
      · obtain ⟨child, rfl, _⟩ := List.map_eq_singleton_iff.mp same
        rfl
    rw [few]
    exact inner isInterpolation

theorem mem_mergeSimple {node : Fragment} {nodes : List Fragment} (member : node ∈ mergeSimple source nodes) :
    node ∈ nodes ∨ ∃ before element after, [before, element, after] <:+: nodes ∧
      mergedText? source before element after = some node := by
  fun_induction mergeSimple source nodes with
  | case1 before fragment after rest text merged ih =>
    obtain rfl | later := List.mem_cons.mp member
    · exact .inr ⟨before, fragment, after, ⟨[], rest, rfl⟩, merged⟩
    · obtain inside | ⟨one, two, three, infix', same⟩ := ih later
      · exact .inl (List.mem_cons_of_mem _ (List.mem_cons_of_mem _ (List.mem_cons_of_mem _ inside)))
      · exact .inr ⟨one, two, three, infix'.trans ⟨[before, fragment, after], [], by simp⟩, same⟩
  | case2 before fragment after rest _ ih =>
    obtain rfl | later := List.mem_cons.mp member
    · exact .inl List.mem_cons_self
    · obtain inside | ⟨one, two, three, infix', same⟩ := ih later
      · exact .inl (List.mem_cons_of_mem _ inside)
      · exact .inr ⟨one, two, three, infix'.trans ⟨[before], [], by simp⟩, same⟩
  | case3 => exact .inl member

/-- A text that takes the place of three neighbours below a root, once what is below these is merged. -/
def IsMerged (source : List Char) (root text : Fragment) : Prop :=
  ∃ parent ∈ root.preorder, ∃ before element after, [before, element, after] <:+: parent.children ∧
    mergedText? source (mergeSimpleElements source before) (mergeSimpleElements source element)
      (mergeSimpleElements source after) = some text

/-- A text is what its span covers, or comes from a merge below the root. -/
def Explained (source : List Char) (root : Fragment) (info : NodeInfo) (_ : List NodeInfo) : Prop :=
  ∀ value, info.kind = .text value → Cut source info.span.start info.span.stop value.toList ∨
    ∃ text, IsMerged source root text ∧ text.info = info

theorem mergeSimpleElements_node (info : NodeInfo) (children : List Fragment) :
    mergeSimpleElements source (.node info children) =
      .node info (mergeSimple source (children.map (mergeSimpleElements source))) := by
  have each (make : NodeInfo → List Fragment → Fragment) (fragments : List Fragment) :
      Fragment.bottomUpAll make fragments = fragments.map (·.bottomUp make) := by
    induction fragments with
    | nil => rfl
    | cons fragment rest ih => rw [Fragment.bottomUpAll, ih, List.map_cons]
  exact congrArg (fun children => Fragment.node info (mergeSimple source children)) (each _ children)

theorem exists_infix_of_map {α β : Type} {f : α → β} {nodes : List α} {one two three : β}
    (inside : [one, two, three] <:+: nodes.map f) :
    ∃ before element after, [before, element, after] <:+: nodes ∧
      f before = one ∧ f element = two ∧ f after = three := by
  obtain ⟨front, back, same⟩ := inside
  obtain ⟨rest, last, rfl, same, _⟩ := List.map_eq_append_iff.mp same.symm
  obtain ⟨first, middle, rfl, _, same⟩ := List.map_eq_append_iff.mp same
  obtain ⟨before, middle, rfl, isBefore, same⟩ := List.map_eq_cons_iff.mp same
  obtain ⟨element, middle, rfl, isElement, same⟩ := List.map_eq_cons_iff.mp same
  obtain ⟨after, middle, rfl, isAfter, same⟩ := List.map_eq_cons_iff.mp same
  obtain rfl := List.map_eq_nil_iff.mp same
  exact ⟨before, element, after, ⟨first, last, rfl⟩, isBefore, isElement, isAfter⟩

mutual

theorem explained_merge {root : Fragment} : ∀ fragment : Fragment, (∀ node ∈ fragment.preorder, node ∈ root.preorder) →
    fragment.Follows spacing (Faithful source) →
    (mergeSimpleElements source fragment).Follows id (Explained source root)
  | .node info children, inside, ⟨here, below⟩ => by
    obtain ⟨parent, inside⟩ := List.forall_mem_cons.mp inside
    rw [mergeSimpleElements_node]
    refine Fragment.follows_node.mpr ⟨fun value isText => .inl (here.spelled value isText), fun child member => ?_⟩
    obtain kept | ⟨one, two, three, merged, made⟩ := mem_mergeSimple member
    · exact allExplained_merge children inside below child kept
    · obtain ⟨before, element, after, among, rfl, rfl, rfl⟩ := exists_infix_of_map merged
      cases child with
      | node info inner =>
        obtain rfl : inner = [] := (merges_of_mergedText? made).leaf
        refine Fragment.follows_node.mpr ⟨fun value isText => .inr ⟨.node info [], ?_, rfl⟩, nofun⟩
        exact ⟨_, parent, before, element, after, among, made⟩

theorem allExplained_merge {root : Fragment} : ∀ fragments : List Fragment,
    (∀ node ∈ preorderAll fragments, node ∈ root.preorder) → Fragment.AllFollow spacing (Faithful source) fragments →
    ∀ child ∈ fragments.map (mergeSimpleElements source), child.Follows id (Explained source root)
  | [], _, _ => nofun
  | fragment :: rest, inside, ⟨first, others⟩ => by
    rw [List.map_cons]
    refine List.forall_mem_cons.mpr ⟨?_, ?_⟩
    · exact explained_merge fragment (fun node member => inside node (List.mem_append_left _ member)) first
    · exact allExplained_merge rest (fun node member => inside node (List.mem_append_right _ member)) others

end

/-! ### Annotated trees -/

theorem faithful_classify {source : String} {options : Options} {root : Fragment}
    (faithful : root.Follows spacing (Faithful source.toList)) :
    (classify source options root).toFragment.Follows spacing (Faithful source.toList) := by
  refine Tree.follows_toFragment (numbered_classify source options root) (obeys_classify source options faithful) ?_
  rw [size_classify]
  exact size_pos root

/-- What the spans of a tree tell of a source. -/
structure TellsSource (source : List Char) (before : Fragment) (tree : Tree) : Prop where
  text : ∀ id ∈ tree.descendants Tree.rootId, ∀ value, tree.kind id = .text value →
    (tree.node id).span.slice source = value ∨
      ∃ text, IsMerged source before text ∧ text.info = (tree.node id).toNodeInfo
  interpolation : ∀ id ∈ tree.descendants Tree.rootId, tree.kind id = .interpolation →
    tree.children id = [] ∨ ∃ expression, tree.children id = [expression] ∧
      (tree.kind expression).isText = true ∧
      (tree.node expression).span.start = (tree.node id).span.start + 2 ∧
      (tree.node expression).span.stop + 2 = (tree.node id).span.stop ∧
      Text.slice source (tree.node id).span.start (tree.node expression).span.start = "\x7b\x7b" ∧
      Text.slice source (tree.node expression).span.stop (tree.node id).span.stop = "\x7d\x7d"
  inOrder : ∀ id ∈ tree.descendants Tree.rootId, (tree.children id).Pairwise fun child next =>
    (tree.node child).span.stop ≤ (tree.node next).span.start
  within : ∀ id ∈ tree.descendants Tree.rootId, ∀ child ∈ tree.children id,
    (tree.node id).span.start ≤ (tree.node child).span.start ∧
      (tree.node child).span.start < (tree.node child).span.stop ∧
      (tree.node child).span.stop ≤ (tree.node id).span.stop

/-- What holds of the tree that is reached from the root tells how its nodes lie in the source. -/
theorem tellsSource_of_follows {source : List Char} {before : Fragment} {tree : Tree} (sound : tree.Sound)
    (nested : tree.toFragment.Follows spacing (Nested (Between source)))
    (explained : tree.toFragment.Follows id (Explained source before)) : TellsSource source before tree := by
  have isOf := Tree.isOf_outline sound Tree.rootId
  have nested := Tree.obeys_of_follows isOf nested
  have explained := Tree.obeys_of_follows isOf explained
  have spans (id : NodeId) : ((tree.children id).map fun child => (tree.node child).spacing).map (·.span) =
      (tree.children id).map fun child => (tree.node child).span := by
    rw [List.map_map]
    rfl
  constructor
  case text =>
    intro id reached value isText
    obtain cut | merged := explained id reached value isText
    · exact .inl (cut.slice_eq.trans String.ofList_toList)
    · exact .inr merged
  case interpolation =>
    intro id reached isInterpolation
    obtain none | ⟨only, same, isText, opening, closing⟩ := (nested id reached).inner isInterpolation
    · exact .inl (List.map_eq_nil_iff.mp none)
    · obtain ⟨expression, children, rfl⟩ := List.map_eq_singleton_iff.mp same
      exact .inr ⟨expression, children, isText, opening.stop_eq, closing.stop_eq.symm, opening.slice_eq,
        closing.slice_eq⟩
  case inOrder =>
    intro id reached
    have inOrder := (nested id reached).inOrder.pairwise
    rw [spans, List.pairwise_map] at inOrder
    exact inOrder
  case within =>
    intro id reached child member
    refine (nested id reached).inOrder.bounds (tree.node child).span ?_
    rw [spans]
    exact List.mem_map_of_mem member

/-- What is reached from the root of a sound table with links is a tree. -/
theorem isLinked_of_sound {tree : Tree} (sound : tree.Sound) (numbered : tree.Numbered) : tree.IsLinked := by
  have isOf := Tree.isOf_outline sound Tree.rootId
  have nodup : (tree.descendants Tree.rootId).Nodup := Tree.nodup_ids sound isOf
  constructor
  case nodup => exact nodup
  case below => exact fun id reached child listed => Tree.mem_ids_of_mem_children_of_isOf isOf reached listed
  case once =>
    intro id reached
    have lists : ((tree.descendants Tree.rootId).flatMap tree.children).Nodup := by
      refine List.nodup_flatMap.mpr ⟨fun id _ => sound.nodup id, ?_⟩
      refine (List.nodup_iff_pairwise_ne.mp nodup).imp fun different child first second => ?_
      exact different (sound.owner first second)
    rw [lists.count]
    obtain isRoot | ⟨owner, among, listed⟩ : id = (tree.outline Tree.rootId).id ∨
        ∃ owner ∈ tree.descendants Tree.rootId, id ∈ tree.children owner := Tree.exists_owner isOf reached
    · rw [Tree.id_outline] at isRoot
      subst isRoot
      rw [if_pos rfl, if_neg fun member => ?_]
      obtain ⟨owner, -, listed⟩ := List.mem_flatMap.mp member
      exact Nat.not_lt_zero owner (sound.later listed).1
    · have below : id ≠ Tree.rootId := Nat.ne_of_gt (Nat.lt_of_le_of_lt (Nat.zero_le owner) (sound.later listed).1)
      rw [if_neg below, if_pos (List.mem_flatMap_of_mem among listed)]
  case linked => exact fun id _ before child after split => numbered.linked split
  case root => exact numbered.root

/-- Annotating a source in a table keeps spans faithful to the source, its line endings made alike, and links to the
lists of children, and the tree that is reached is the one that is annotated without numbers. -/
theorem faithful_of_annotate {source : String} {options : Options} {tree : Tree}
    (ok : Tree.annotate source options = .ok tree) :
    ∃ content annotated, Markup.parse (Text.normalizeLineEndings source) {} = .ok content ∧
      annotate source options = .ok annotated ∧ tree.toFragment = annotated.tree.toFragment ∧
      TellsSource (Text.normalizeLineEndings source).toList
        (classify (Text.normalizeLineEndings source) options
          (normalize (rootOver (Text.normalizeLineEndings source) content))).toFragment tree ∧
      tree.IsLinked := by
  unfold Tree.annotate at ok
  unfold annotate
  dsimp only
  generalize Text.normalizeLineEndings source = text at ok ⊢
  rw [Tree.ofSource_eq] at ok
  cases parsed : Markup.parse text {} with
  | error failure =>
    rw [parsed] at ok
    cases ok
  | ok content =>
    rw [parsed] at ok
    have made : (Tree.ofContent text content).preprocess options = tree := Except.ok.inj ok
    obtain ⟨shown, numbered⟩ := Tree.shows_preprocess_ofContent options parsed
    rw [made] at shown numbered
    have read := readSource_of_parse parsed
    have faithful : (normalize (rootOver text content)).Follows spacing (Faithful text.toList) :=
      faithful_normalize (laid_root read rfl rfl rfl) (nested_root read rfl rfl)
    refine ⟨content, ofContent text options content, rfl, rfl, ?_, ?_, isLinked_of_sound shown.sound numbered⟩
    · rw [shown.fragment_eq]
      exact (Tree.toFragment_ofRoot _ _).symm
    · generalize normalize (rootOver text content) = root at faithful shown ⊢
      have classified : (classify text options root).toFragment.Follows spacing (Faithful text.toList) :=
        faithful_classify faithful
      have nested := nested_mergeSimpleElements (classified.imp fun _ _ faithful => faithful.toNested)
      refine tellsSource_of_follows shown.sound ?_ ?_
      · rw [shown.fragment_eq]
        exact nested
      · rw [shown.fragment_eq]
        exact explained_merge _ (fun _ member => member) classified

/-- A first line feed, an expression, a condition around a start tag, a simple element and character data. -/
def steppedSource : String :=
  "<pre>\r\n a\x7b\x7b b \x7d\x7d</pre> <!--[if !IE]><!--><p><!--<![endif]-->x<b>y</b>z <![CDATA[ w ]]></p>"

/-- Nodes that are left out of the tree are still in the table, some of them with children. -/
theorem faithful_of_annotate_steppedSource : ∃ tree, Tree.annotate steppedSource {} = .ok tree ∧
    tree.ids.map tree.children = [[1, 5], [12, 13], [], [], [], [15], [], [], [9], [], [], [], [], [14], [], []] ∧
    tree.descendants Tree.rootId = [0, 1, 12, 13, 14, 5, 15] ∧
    ∃ content annotated, Markup.parse (Text.normalizeLineEndings steppedSource) {} = .ok content ∧
      annotate steppedSource {} = .ok annotated ∧ tree.toFragment = annotated.tree.toFragment ∧
      TellsSource (Text.normalizeLineEndings steppedSource).toList
        (classify (Text.normalizeLineEndings steppedSource) {}
          (normalize (rootOver (Text.normalizeLineEndings steppedSource) content))).toFragment tree ∧
      tree.IsLinked := by
  have made : (Tree.annotate steppedSource {}).toOption.map (fun tree =>
      (tree.ids.map tree.children, tree.descendants Tree.rootId)) =
      some ([[1, 5], [12, 13], [], [], [], [15], [], [], [9], [], [], [], [], [14], [], []],
        [0, 1, 12, 13, 14, 5, 15]) := by
    decide +kernel
  cases done : Tree.annotate steppedSource {} with
  | ok tree =>
    rw [done] at made
    obtain ⟨lists, reached⟩ := Prod.mk.inj (Option.some.inj made)
    exact ⟨tree, rfl, lists, reached, faithful_of_annotate done⟩
  | error failure =>
    rw [done] at made
    cases made

end MarkupFormat.Annotate
