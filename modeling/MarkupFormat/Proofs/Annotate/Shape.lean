import MarkupFormat.Print.Borrowing
import MarkupFormat.Proofs.Annotate.Spaces
import MarkupFormat.Proofs.Annotate.Tagged

/-!
# The shape of annotated trees

What the printer relies on. Nodes are where their kinds allow them to be, what is flagged as closing itself has
nothing inside, and where no tag could lend a marker no node is glued to it: around front matter, and at both ends
of the source (`shaped_of_annotate`).
-/

namespace MarkupFormat.Markup

/-- A node of an annotated tree. -/
structure NodeInfo.Shaped (node : NodeInfo) (children : List NodeInfo) : Prop where
  closed : node.flags.selfClosing = true → children = []
  leaf : node.kind.canHaveChildren = false → children = []
  below : ∀ child ∈ children, child.kind ≠ .root
  expression : node.kind = .interpolation → ∀ child ∈ children, child.kind.isText = true
  frontMatter : ∀ block, node.kind = .frontMatter block →
    node.flags.leadingSensitive = false ∧ node.flags.trailingSensitive = false
  looseStart : node.kind = .root → ∀ first ∈ children.head?, first.flags.leadingSensitive = false
  looseEnd : node.kind = .root → ∀ last ∈ children.getLast?, last.flags.trailingSensitive = false

theorem NodeInfo.shaped_text {node : NodeInfo} {value : String} (text : node.kind = .text value) : node.Shaped [] :=
  ⟨fun _ => rfl, fun _ => rfl, fun _ member => absurd member List.not_mem_nil,
    fun _ _ member => absurd member List.not_mem_nil, fun _ same => NodeKind.noConfusion (text.symm.trans same),
    fun same => NodeKind.noConfusion (text.symm.trans same), fun same => NodeKind.noConfusion (text.symm.trans same)⟩

namespace Tree

/-- The shape of a tree as the printer needs it. -/
structure Shaped (tree : Tree) : Prop where
  numbered : tree.Numbered
  nonempty : 0 < tree.size
  root : tree.kind rootId = .root
  noCdata : ∀ id value, tree.kind id ≠ .cdata value
  nodes : tree.Obeys (fun info => info) NodeInfo.Shaped

variable {tree : Tree} {id child : NodeId}

theorem Shaped.below (shaped : tree.Shaped) (member : child ∈ tree.children id) : tree.kind child ≠ .root :=
  (shaped.nodes id (List.mem_range.mp (mem_ids_of_mem_children member))).below _ (List.mem_map_of_mem member)

theorem Shaped.leaf (shaped : tree.Shaped) (childless : (tree.kind id).canHaveChildren = false) :
    tree.children id = [] := by
  by_cases inside : id < tree.size
  · exact List.map_eq_nil_iff.mp ((shaped.nodes id inside).leaf childless)
  · exact children_of_size_le (Nat.le_of_not_lt inside)

/-- What is printed without an end tag of its own has nothing before it either. -/
theorem Shaped.selfClosing (shaped : tree.Shaped) (closed : (tree.node id).flags.selfClosing = true) :
    tree.children id = [] := by
  by_cases inside : id < tree.size
  · exact List.map_eq_nil_iff.mp ((shaped.nodes id inside).closed closed)
  · exact children_of_size_le (Nat.le_of_not_lt inside)

theorem Shaped.expression (shaped : tree.Shaped) (isInterpolation : tree.kind id = .interpolation)
    (member : child ∈ tree.children id) : ∃ value, tree.kind child = .text value :=
  Annotate.exists_text_of_isText ((shaped.nodes id (List.mem_range.mp (mem_ids_of_mem_children member))).expression
    isInterpolation _ (List.mem_map_of_mem member))

theorem Shaped.frontMatter (shaped : tree.Shaped) {block : FrontMatter} (same : tree.kind id = .frontMatter block) :
    tree.isGluedBefore id = false ∧ tree.isGluedAfter id = false := by
  by_cases inside : id < tree.size
  · obtain ⟨leading, trailing⟩ := (shaped.nodes id inside).frontMatter block same
    unfold isGluedBefore isGluedAfter
    rw [leading, trailing]
    exact ⟨rfl, rfl⟩
  · unfold kind at same
    rw [node_of_size_le (Nat.le_of_not_lt inside)] at same
    cases same

theorem Shaped.looseStart (shaped : tree.Shaped) (first : tree.firstChild? rootId = some child) :
    tree.isGluedBefore child = false := by
  unfold firstChild? at first
  have leading := (shaped.nodes rootId shaped.nonempty).looseStart shaped.root (tree.node child).toNodeInfo
    (by rw [List.head?_map, first]; rfl)
  unfold isGluedBefore
  rw [leading, Bool.false_and]

theorem Shaped.looseEnd (shaped : tree.Shaped) (last : tree.lastChild? rootId = some child) :
    tree.isGluedAfter child = false := by
  unfold lastChild? at last
  have trailing := (shaped.nodes rootId shaped.nonempty).looseEnd shaped.root (tree.node child).toNodeInfo
    (by rw [List.getLast?_map, last]; rfl)
  unfold isGluedAfter
  rw [trailing, Bool.false_and]

/-! ### Classifying -/

theorem selfClosing_markSelfClosing (inside : id < tree.size) :
    (tree.markSelfClosing.node id).flags.selfClosing = (tree.node id).tags.closesItself := by
  unfold markSelfClosing
  rw [node_mapNodes inside]
  rfl

theorem flags_markSensitivity (inside : id < tree.size) :
    (tree.markSensitivity.node id).flags = tree.sensitivityFlags id (tree.node id) := by
  unfold markSensitivity
  rw [node_mapNodes inside]

theorem isSensitiveTowards_frontMatter {block : FrontMatter} (same : tree.kind id = .frontMatter block)
    (neighbour : Option NodeId) : tree.isSensitiveTowards id neighbour = false := by
  unfold isSensitiveTowards isFrontMatter
  rw [same]
  rfl

theorem isSensitiveTowards_root {parent : NodeId} (above : tree.parent? id = some parent)
    (isRoot : tree.kind parent = .root) : tree.isSensitiveTowards id none = false := by
  have noPre : Annotate.isPreLike .root = false := by decide
  unfold isSensitiveTowards Tree.isRoot
  dsimp only
  rw [Option.any_none, Bool.and_false, above]
  dsimp only
  rw [isRoot, noPre]
  simp

theorem leadingSensitive_markSensitivity (inside : id < tree.size)
    (calm : tree.isSensitiveTowards id (tree.prev? id) = false) :
    (tree.markSensitivity.node id).flags.leadingSensitive = false := by
  rw [flags_markSensitivity inside]
  show ((tree.node id).parent.isSome && tree.agreesLeading id) = false
  unfold agreesLeading isLeadingSensitive
  rw [calm]
  exact Bool.and_false _

theorem trailingSensitive_markSensitivity (inside : id < tree.size)
    (calm : tree.isSensitiveTowards id (tree.next? id) = false) :
    (tree.markSensitivity.node id).flags.trailingSensitive = false := by
  rw [flags_markSensitivity inside]
  show ((tree.node id).parent.isSome && tree.agreesTrailing id) = false
  unfold agreesTrailing isTrailingSensitive
  rw [calm]
  exact Bool.and_false _

theorem tags_markSelfClosing (tree : Tree) (id : NodeId) :
    (tree.markSelfClosing.node id).toNodeInfo.tags = (tree.node id).toNodeInfo.tags :=
  mapNodes_keeps (fun node => node.toNodeInfo.tags) fun _ _ => rfl

theorem children_markSensitivity (tree : Tree) (id : NodeId) : tree.markSensitivity.children id = tree.children id :=
  children_mapNodes (keepsPlaces_markSensitivity tree)

theorem size_markSensitivity (tree : Tree) : tree.markSensitivity.size = tree.size :=
  size_mapNodes

theorem size_markSelfClosing (tree : Tree) : tree.markSelfClosing.size = tree.size :=
  size_mapNodes

theorem shaped_markSensitivity (numbered : tree.Numbered) (holds : tree.Obeys NodeInfo.tags Tags.HoldsTexts)
    (closed : ∀ id < tree.size, (tree.node id).flags.selfClosing = (tree.node id).toNodeInfo.tags.closesItself) :
    tree.markSensitivity.Obeys (fun info => info) NodeInfo.Shaped := by
  intro id inside
  rw [size_markSensitivity] at inside
  have here := holds id inside
  have sameKind : (tree.markSensitivity.node id).kind = tree.kind id := kind_markSensitivity tree id
  have empty (none : (tree.children id).map (fun child => (tree.node child).toNodeInfo.tags) = []) :
      (tree.markSensitivity.children id).map (fun child => (tree.markSensitivity.node child).toNodeInfo) = [] := by
    rw [children_markSensitivity, List.map_eq_nil_iff.mp none]
    rfl
  have child_of_mem {info : NodeInfo} (member : info ∈
      (tree.markSensitivity.children id).map fun child => (tree.markSensitivity.node child).toNodeInfo) :
      ∃ child ∈ tree.children id, info.kind = tree.kind child := by
    obtain ⟨child, inside, rfl⟩ := List.mem_map.mp member
    rw [children_markSensitivity] at inside
    exact ⟨child, inside, kind_markSensitivity tree child⟩
  refine ⟨fun closes => ?_, fun childless => ?_, fun info member => ?_, fun same info member => ?_,
    fun block same => ?_, fun isRoot info head => ?_, fun isRoot info tail => ?_⟩
  · refine empty (here.closed ?_)
    rw [← closed id inside]
    have keeps : (tree.markSensitivity.node id).flags.selfClosing = (tree.node id).flags.selfClosing :=
      mapNodes_keeps (fun node => node.flags.selfClosing) fun _ _ => rfl
    exact keeps.symm.trans closes
  · refine empty (here.closed (Tags.closesItself_of_childless ?_))
    rw [← childless, sameKind]
    rfl
  · obtain ⟨child, inside, same⟩ := child_of_mem member
    rw [same]
    exact here.below _ (List.mem_map_of_mem inside)
  · obtain ⟨child, inside, kind⟩ := child_of_mem member
    rw [kind]
    exact here.expression (sameKind.symm.trans same) _ (List.mem_map_of_mem inside)
  · have same : tree.kind id = .frontMatter block := sameKind.symm.trans same
    exact ⟨leadingSensitive_markSensitivity inside (isSensitiveTowards_frontMatter same _),
      trailingSensitive_markSensitivity inside (isSensitiveTowards_frontMatter same _)⟩
  · rw [children_markSensitivity, List.head?_map] at head
    obtain ⟨first, isFirst, rfl⟩ := Option.map_eq_some_iff.mp head
    obtain ⟨rest, split⟩ := List.head?_eq_some_iff.mp isFirst
    have split : tree.children id = [] ++ first :: rest := split
    obtain ⟨above, prev, _⟩ := numbered.linked split
    have member : first ∈ tree.children id := List.mem_of_head? isFirst
    refine leadingSensitive_markSensitivity (numbered.later member).2 ?_
    rw [prev]
    exact isSensitiveTowards_root above (sameKind.symm.trans isRoot)
  · rw [children_markSensitivity, List.getLast?_map] at tail
    obtain ⟨last, isLast, rfl⟩ := Option.map_eq_some_iff.mp tail
    obtain ⟨before, split⟩ := List.getLast?_eq_some_iff.mp isLast
    obtain ⟨above, _, next⟩ := numbered.linked split
    have member : last ∈ tree.children id := List.mem_of_getLast? isLast
    refine trailingSensitive_markSensitivity (numbered.later member).2 ?_
    rw [next]
    exact isSensitiveTowards_root above (sameKind.symm.trans isRoot)

end Tree

end MarkupFormat.Markup

namespace MarkupFormat.Annotate

open Format (Options)
open Markup (Fragment NodeInfo NodeKind Tags Tree)
open Markup.Fragment (looks)

variable {source : List Char} {options : Options}

theorem shaped_classify (source : String) (options : Options) {root : Fragment}
    (holds : root.Follows NodeInfo.tags Tags.HoldsTexts) :
    (classify source options root).Obeys (fun info => info) NodeInfo.Shaped := by
  have displayed :
      ((Tree.ofRoot source root).resolveDisplays options.sensitivity).Obeys NodeInfo.tags Tags.HoldsTexts :=
    Tree.obeys_mapNodes (Tree.keepsPlaces_resolveDisplays _ _) (fun _ _ => rfl) (Tree.obeys_ofRoot source holds)
  have numbered : ((Tree.ofRoot source root).resolveDisplays options.sensitivity).Numbered :=
    Tree.numbered_mapNodes (Tree.keepsPlaces_resolveDisplays _ _) (Tree.numbered_ofRoot source root)
  unfold classify
  generalize (Tree.ofRoot source root).resolveDisplays options.sensitivity = tree at displayed numbered ⊢
  have marked : tree.markSelfClosing.Obeys NodeInfo.tags Tags.HoldsTexts :=
    Tree.obeys_mapNodes Tree.keepsPlaces_markSelfClosing (fun _ _ => rfl) displayed
  refine Tree.shaped_markSensitivity (Tree.numbered_mapNodes Tree.keepsPlaces_markSelfClosing numbered) marked
    fun id inside => ?_
  rw [Tree.tags_markSelfClosing]
  exact Tree.selfClosing_markSelfClosing (Tree.size_markSelfClosing tree ▸ inside)

/-! ### Merging -/

theorem leadingSensitive_mergeSimple (source : List Char) (nodes : List Fragment) :
    (mergeSimple source nodes).head?.map (·.info.flags.leadingSensitive) =
      nodes.head?.map (·.info.flags.leadingSensitive) := by
  fun_induction mergeSimple source nodes with
  | case1 before fragment after rest text merged ih =>
    exact congrArg some (merges_of_mergedText? merged).leading.2.2
  | case2 before fragment after rest _ ih => rfl
  | case3 nodes => rfl

theorem trailingSensitive_mergeSimple (source : List Char) (nodes : List Fragment) (text after : Fragment)
    (same : text.info.flags.trailingSensitive = after.info.flags.trailingSensitive) :
    ((mergeSimple source nodes).getLast?.getD text).info.flags.trailingSensitive =
      (nodes.getLast?.getD after).info.flags.trailingSensitive := by
  fun_induction mergeSimple source nodes generalizing text after with
  | case1 before fragment last rest merge merged ih =>
    simp only [List.getLast?_cons, Option.getD_some]
    exact ih _ _ (merges_of_mergedText? merged).trailing.2.2
  | case2 before fragment last rest _ ih =>
    rw [List.getLast?_cons, List.getLast?_cons, Option.getD_some, Option.getD_some]
    exact ih _ _ rfl
  | case3 nodes =>
    cases nodes.getLast? with
    | none => exact same
    | some last => rfl

theorem shaped_mergeSimpleElements {fragment : Fragment}
    (shaped : fragment.Follows (fun info => info) NodeInfo.Shaped) :
    (mergeSimpleElements source fragment).Follows (fun info => info) NodeInfo.Shaped := by
  refine Fragment.follows_mapChildren (fun info children here below => ?_) fragment shaped
  have empty (none : looks (fun info => info) children = []) :
      looks (fun info => info) (mergeSimple source children) = [] := by
    rw [List.map_eq_nil_iff.mp none]
    rfl
  have kinds (holds : NodeKind → Prop) (text : ∀ value, holds (.text value))
      (all : ∀ child ∈ looks (fun info => info) children, holds child.kind) :
      ∀ child ∈ looks (fun info => info) (mergeSimple source children), holds child.kind := by
    have merged : ∀ node ∈ mergeSimple source children, holds node.kind := by
      refine forall_mergeSimple children (fun before made after merges _ _ => ?_)
        fun node inside => all node.info (List.mem_map_of_mem inside)
      obtain ⟨_, _, _, _, _, same⟩ := merges.kinds
      rw [same]
      exact text _
    intro child member
    obtain ⟨node, inside, rfl⟩ := List.mem_map.mp member
    exact merged node inside
  refine ⟨⟨fun closed => empty (here.closed closed), fun childless => empty (here.leaf childless),
    kinds (· ≠ .root) (fun _ => NodeKind.noConfusion) here.below,
    fun same => kinds (·.isText = true) (fun _ => rfl) (here.expression same),
    here.frontMatter, fun isRoot info head => ?_, fun isRoot info tail => ?_⟩, ?_⟩
  · obtain ⟨first, isFirst, rfl⟩ := Option.map_eq_some_iff.mp (List.head?_map ▸ head)
    have leading := leadingSensitive_mergeSimple source children
    rw [isFirst] at leading
    obtain ⟨old, isOld, same⟩ := Option.map_eq_some_iff.mp leading.symm
    exact same.symm.trans (here.looseStart isRoot old.info (by rw [looks, List.head?_map, isOld]; rfl))
  · obtain ⟨last, isLast, rfl⟩ := Option.map_eq_some_iff.mp (List.getLast?_map ▸ tail)
    have calm : ((children.getLast?.getD default).info.flags.trailingSensitive) = false := by
      cases isOld : children.getLast? with
      | none => rfl
      | some old => exact here.looseEnd isRoot old.info (by rw [looks, List.getLast?_map, isOld]; rfl)
    have trailing := trailingSensitive_mergeSimple source children default default rfl
    rw [isLast] at trailing
    exact trailing.trans calm
  · refine forall_mergeSimple children (fun before text after merges _ _ => ?_) below
    obtain ⟨_, _, _, _, _, isText⟩ := merges.kinds
    cases text with
    | node info children =>
      cases merges.leaf
      exact Fragment.follows_node.mpr ⟨NodeInfo.shaped_text isText, fun _ member => absurd member List.not_mem_nil⟩

/-! ### Annotated trees -/

theorem shaped_finish {source : String} {root : Fragment} (holds : root.Follows NodeInfo.tags Tags.HoldsTexts) :
    (finish source options root).Follows (fun info => info) NodeInfo.Shaped := by
  refine shaped_mergeSimpleElements (Tree.follows_toFragment (numbered_classify source options root)
    (shaped_classify source options holds) ?_)
  rw [size_classify]
  exact size_pos root

/-- An annotated tree has the shape that the printer relies on. -/
theorem shaped_of_annotate {source : String} {annotated : Annotated}
    (ok : annotate source options = .ok annotated) : annotated.tree.Shaped := by
  obtain ⟨content, read, same⟩ := exists_content ok
  rw [same]
  generalize Text.normalizeLineEndings source = text at read ⊢
  have isRoot : (normalize (rootOver text content)).kind = .root :=
    congrArg Markup.Spacing.kind (spacing_normalize _)
  have trimmed : (normalize (rootOver text content)).Follows NodeInfo.spacing (Trimmed text.toList) :=
    trimmed_normalize (laid_root read rfl rfl rfl)
  have holds : (normalize (rootOver text content)).Follows NodeInfo.tags Tags.HoldsTexts :=
    holdsTexts_normalize (tagged_root read rfl)
  generalize normalize (rootOver text content) = root at isRoot trimmed holds ⊢
  refine ⟨Tree.numbered_ofRoot _ _, ?_, ?_, ?_, Tree.obeys_ofRoot _ (shaped_finish holds)⟩
  · rw [Tree.size_ofRoot]
    exact size_pos _
  · rw [Tree.kind_rootId]
    exact (kind_finish text root).trans isRoot
  · exact (tellsSpaces_ofRoot ((kind_finish text root).trans isRoot) (trimmed_finish trimmed)
      (agree_finish text root)).noCdata

end MarkupFormat.Annotate
