import Mathlib.Data.List.Chain
import MarkupFormat.Annotate.Annotated
import MarkupFormat.Proofs.Annotate.Trimmed
import MarkupFormat.Proofs.Markup.Numbering

/-!
# What an annotated tree tells of white space

Flags for white space are set while texts are trimmed, and are kept when displays and sensitivity are written next to
them.

Displays and flags are written next to what is known of the nodes, so what does not look at them still holds
(`obeys_mapNodes`), also when the table is read back as a tree (`follows_toFragment`). Two neighbours ask each
other whether the white space between them shows, and so come to the same answer
(`agree_markSensitivity`).

What trimming knows of white space lasts: classifying does not touch it, and a text that takes the place of a
text, an element and a text is to its neighbours what these two texts were. So an annotated tree
tells of the white space between its nodes (`TellsSpaces`).
-/

namespace MarkupFormat.Text

theorem solid_append {first middle last : List Char} (solidFirst : Solid first) (solidLast : Solid last) :
    Solid (first ++ middle ++ last) := by
  refine ⟨?_, fun c head => ?_, fun c tail => ?_⟩
  · rw [List.append_assoc]
    exact List.append_ne_nil_of_left_ne_nil solidFirst.nonempty _
  · rw [List.append_assoc, List.head?_append_of_ne_nil _ solidFirst.nonempty] at head
    exact solidFirst.first c head
  · rw [List.getLast?_append_of_ne_nil _ solidLast.nonempty] at tail
    exact solidLast.last c tail

end MarkupFormat.Text

namespace MarkupFormat.Markup.Tree

variable {tree : Tree} {change : NodeId → Node → Node} {id : NodeId}

/-! ### Changes of all nodes -/

theorem size_mapNodes : (tree.mapNodes change).size = tree.size :=
  Array.size_mapIdx

theorem node_mapNodes (inside : id < tree.size) : (tree.mapNodes change).node id = change id (tree.node id) := by
  have found : tree.nodes[id]? = some (tree.node id) := by
    unfold node
    rw [Array.getD_eq_getD_getElem?, Array.getElem?_eq_getElem inside, Option.getD_some]
  refine node_eq ?_
  show (tree.nodes.mapIdx change)[id]? = _
  rw [Array.getElem?_mapIdx, found]
  rfl

theorem node_of_size_le (outside : tree.size ≤ id) : tree.node id = default := by
  unfold node
  rw [Array.getD_eq_getD_getElem?, Array.getElem?_eq_none outside, Option.getD_none]

theorem mapNodes_keeps {β : Type} (part : Node → β) (keeps : ∀ id node, part (change id node) = part node) :
    part ((tree.mapNodes change).node id) = part (tree.node id) := by
  by_cases inside : id < tree.size
  · rw [node_mapNodes inside, keeps]
  · have outside := Nat.le_of_not_lt inside
    rw [node_of_size_le outside, node_of_size_le (by rwa [size_mapNodes])]

/-- Nodes keep their places. -/
def KeepsPlaces (change : NodeId → Node → Node) : Prop :=
  ∀ id node, (change id node).parent = node.parent ∧ (change id node).prev = node.prev ∧
    (change id node).next = node.next ∧ (change id node).children = node.children

variable (keeps : KeepsPlaces change)

include keeps

theorem children_mapNodes : (tree.mapNodes change).children id = tree.children id :=
  mapNodes_keeps Node.children fun id node => (keeps id node).2.2.2

theorem numbered_mapNodes (numbered : tree.Numbered) : (tree.mapNodes change).Numbered := by
  have parent (id : NodeId) : (tree.mapNodes change).parent? id = tree.parent? id :=
    mapNodes_keeps Node.parent fun id node => (keeps id node).1
  have prev (id : NodeId) : (tree.mapNodes change).prev? id = tree.prev? id :=
    mapNodes_keeps Node.prev fun id node => (keeps id node).2.1
  have next (id : NodeId) : (tree.mapNodes change).next? id = tree.next? id :=
    mapNodes_keeps Node.next fun id node => (keeps id node).2.2.1
  refine ⟨fun member => ?_, fun split => ?_, ?_⟩
  · rw [children_mapNodes keeps] at member
    rw [size_mapNodes]
    exact numbered.later member
  · rw [children_mapNodes keeps] at split
    rw [parent, prev, next]
    exact numbered.linked split
  · rw [parent, prev, next]
    exact numbered.root

variable {α : Type} {look : NodeInfo → α} {rule : α → List α → Prop}

theorem obeys_mapNodes (unseen : ∀ id node, look (change id node).toNodeInfo = look node.toNodeInfo)
    (obeys : tree.Obeys look rule) : (tree.mapNodes change).Obeys look rule := by
  have shown (id : NodeId) :
      look ((tree.mapNodes change).node id).toNodeInfo = look (tree.node id).toNodeInfo :=
    mapNodes_keeps (fun node => look node.toNodeInfo) unseen
  intro id inside
  rw [shown, children_mapNodes keeps]
  simp only [shown]
  exact obeys id (by rwa [size_mapNodes] at inside)

omit keeps

/-! ### Reading a tree from its table -/

theorem gatherAll_eq_map (tree : Tree) (outlines : List Outline) :
    tree.gatherAll outlines = outlines.map tree.gather := by
  induction outlines with
  | nil => rfl
  | cons outline rest ih => rw [gatherAll, List.map_cons, ih]

theorem info_gather_outlineTo (tree : Tree) (depth : Nat) (id : NodeId) :
    (tree.gather (tree.outlineTo depth id)).info = (tree.node id).toNodeInfo := by
  cases depth with
  | zero => rfl
  | succ depth => rfl

theorem info_toFragment (tree : Tree) : tree.toFragment.info = (tree.node rootId).toNodeInfo :=
  info_gather_outlineTo tree tree.size rootId

/-- An outline is not cut off if it may be as deep as there are numbers left. -/
theorem follows_gather (numbered : tree.Numbered) (obeys : tree.Obeys look rule) {depth : Nat}
    (inside : id < tree.size) (deep : tree.size ≤ depth + id) :
    (tree.gather (tree.outlineTo depth id)).Follows look rule := by
  induction depth generalizing id with
  | zero => exact absurd inside (Nat.not_lt_of_le (Nat.zero_add id ▸ deep))
  | succ depth ih =>
    have shown : Fragment.looks look (tree.gatherAll ((tree.children id).map (tree.outlineTo depth))) =
        (tree.children id).map fun child => look (tree.node child).toNodeInfo := by
      rw [gatherAll_eq_map, Fragment.looks, List.map_map, List.map_map]
      refine List.map_congr_left fun child _ => ?_
      show look (tree.gather (tree.outlineTo depth child)).info = _
      rw [info_gather_outlineTo]
    refine Fragment.follows_node.mpr ⟨?_, fun child member => ?_⟩
    · rw [shown]
      exact obeys id inside
    · rw [gatherAll_eq_map, List.map_map] at member
      obtain ⟨number, below, rfl⟩ := List.mem_map.mp member
      obtain ⟨later, inside⟩ := numbered.later below
      have deeper : depth + 1 + id ≤ depth + number := by
        rw [Nat.add_assoc, Nat.add_comm 1]
        exact Nat.add_le_add_left later depth
      exact ih inside (Nat.le_trans deep deeper)

theorem follows_toFragment (numbered : tree.Numbered) (obeys : tree.Obeys look rule) (nonempty : 0 < tree.size) :
    tree.toFragment.Follows look rule :=
  follows_gather numbered obeys nonempty (Nat.le_refl _)

/-! ### Classifying -/

theorem keepsPlaces_resolveDisplays (tree : Tree) (sensitivity : Format.Sensitivity) :
    KeepsPlaces fun id node => { node with display := tree.displayOf id sensitivity } :=
  fun _ _ => ⟨rfl, rfl, rfl, rfl⟩

theorem keepsPlaces_markSelfClosing :
    KeepsPlaces fun _ node =>
      { node with flags := { node.flags with selfClosing := isSelfClosing node.toNodeInfo } } :=
  fun _ _ => ⟨rfl, rfl, rfl, rfl⟩

theorem keepsPlaces_markSensitivity (tree : Tree) :
    KeepsPlaces fun id node => { node with flags := tree.sensitivityFlags id node } :=
  fun _ _ => ⟨rfl, rfl, rfl, rfl⟩

theorem kind_resolveDisplays (tree : Tree) (sensitivity : Format.Sensitivity) (id : NodeId) :
    (tree.resolveDisplays sensitivity).kind id = tree.kind id :=
  mapNodes_keeps (fun node => node.kind) fun _ _ => rfl

theorem kind_markSelfClosing (tree : Tree) (id : NodeId) : tree.markSelfClosing.kind id = tree.kind id :=
  mapNodes_keeps (fun node => node.kind) fun _ _ => rfl

theorem kind_markSensitivity (tree : Tree) (id : NodeId) : tree.markSensitivity.kind id = tree.kind id :=
  mapNodes_keeps (fun node => node.kind) fun _ _ => rfl

/-- Two neighbours agree on whether the white space between them shows. -/
def Agree (node next : Flags) : Prop :=
  node.trailingSensitive = next.leadingSensitive

theorem agree_markSensitivity (numbered : tree.Numbered) :
    tree.markSensitivity.Obeys NodeInfo.flags fun _ children => children.IsChain Agree := by
  intro id _
  rw [List.isChain_map, List.isChain_iff_forall_rel_of_append_cons_cons]
  intro first second before after split
  rw [markSensitivity, children_mapNodes (keepsPlaces_markSensitivity tree)] at split
  have ofFirst : first ∈ tree.children id := by
    rw [split]
    exact List.mem_append_right _ List.mem_cons_self
  have ofSecond : second ∈ tree.children id := by
    rw [split]
    exact List.mem_append_right _ (List.mem_cons_of_mem _ List.mem_cons_self)
  obtain ⟨parentFirst, _, next⟩ := numbered.linked split
  have splitSecond : tree.children id = (before ++ [first]) ++ second :: after := by
    rw [split, List.append_assoc]
    rfl
  obtain ⟨parentSecond, prev, _⟩ := numbered.linked splitSecond
  rw [List.getLast?_append_cons] at prev
  show (tree.markSensitivity.node first).flags.trailingSensitive =
    (tree.markSensitivity.node second).flags.leadingSensitive
  unfold markSensitivity
  rw [node_mapNodes (numbered.later ofFirst).2, node_mapNodes (numbered.later ofSecond).2]
  show ((tree.parent? first).isSome && tree.agreesTrailing first) =
    ((tree.parent? second).isSome && tree.agreesLeading second)
  unfold agreesTrailing agreesLeading
  rw [parentFirst, parentSecond, next, prev]
  exact congrArg _ (Bool.and_comm _ _)

end MarkupFormat.Markup.Tree

namespace MarkupFormat.Annotate

open Format (Options)
open Markup (Fragment NodeInfo NodeKind Spacing Tree)
open Markup.Fragment (looks)
open Markup.NodeInfo (spacing)
open Markup.Tree (Agree)
open Text (Solid byteLength)

variable {source : List Char}

/-! ### Merging -/

/-- A merged text is made of a text, more, and a text, and is to its neighbours what these were. -/
structure Merges (before text after : Fragment) : Prop where
  kinds : ∃ first middle last, before.kind = .text first ∧ after.kind = .text last ∧
    text.kind = .text (first ++ middle ++ last)
  leading : text.info.span.start = before.info.span.start ∧
    text.info.flags.leadingSpaces = before.info.flags.leadingSpaces ∧
    text.info.flags.leadingSensitive = before.info.flags.leadingSensitive
  trailing : text.info.span.stop = after.info.span.stop ∧
    text.info.flags.trailingSpaces = after.info.flags.trailingSpaces ∧
    text.info.flags.trailingSensitive = after.info.flags.trailingSensitive
  leaf : text.children = []

theorem merges_of_mergedText? {before fragment after text : Fragment}
    (merged : mergedText? source before fragment after = some text) : Merges before text after := by
  unfold mergedText? at merged
  obtain ⟨⟨element, inner⟩, _, merged⟩ := Option.bind_eq_some_iff.mp merged
  dsimp only at merged
  split at merged
  · next first isFirst =>
    split at merged
    · next last isLast =>
      cases merged
      refine ⟨⟨first, "<" ++ element.rawName ++ ">" ++ inner ++ endTagText source element fragment.info.endSpan,
        last, isFirst, isLast, ?_⟩, ⟨rfl, rfl, rfl⟩, ⟨rfl, rfl, rfl⟩, rfl⟩
      exact congrArg NodeKind.text (by simp only [String.append_assoc])
    · cases merged
  · cases merged

/-- A relation of neighbours that a merged text takes over from the texts it is made of holds after all merges. -/
theorem isChain_mergeSimple {α : Type} {look : NodeInfo → α} {related : α → α → Prop}
    (left : ∀ {before text after x}, Merges before text after → related x (look before.info) →
      related x (look text.info))
    (right : ∀ {before text after x}, Merges before text after → related (look after.info) x →
      related (look text.info) x)
    (nodes : List Fragment) (chain : (looks look nodes).IsChain related) :
    (looks look (mergeSimple source nodes)).IsChain related ∧
      ∀ x, (∀ first ∈ (looks look nodes).head?, related x first) →
        ∀ first ∈ (looks look (mergeSimple source nodes)).head?, related x first := by
  fun_induction mergeSimple source nodes with
  | case1 before fragment after rest text merged ih =>
    have merges := merges_of_mergedText? merged
    obtain ⟨_, chain⟩ := List.isChain_cons_cons.mp chain
    obtain ⟨_, chain⟩ := List.isChain_cons_cons.mp chain
    obtain ⟨toRest, chain⟩ := List.isChain_cons.mp chain
    obtain ⟨chain, heads⟩ := ih chain
    refine ⟨List.isChain_cons.mpr ⟨fun first head => right merges (heads _ toRest first head), chain⟩, ?_⟩
    rintro x towards first ⟨⟩
    exact left merges (towards _ rfl)
  | case2 before fragment after rest _ ih =>
    obtain ⟨toRest, chain⟩ := List.isChain_cons.mp chain
    obtain ⟨chain, heads⟩ := ih chain
    refine ⟨List.isChain_cons.mpr ⟨fun first head => heads _ toRest first head, chain⟩, ?_⟩
    rintro x towards first ⟨⟩
    exact towards _ rfl
  | case3 nodes => exact ⟨chain, fun _ towards => towards⟩

theorem forall_mergeSimple {holds : Fragment → Prop} (nodes : List Fragment)
    (merged : ∀ before text after, Merges before text after → holds before → holds after → holds text)
    (all : ∀ node ∈ nodes, holds node) : ∀ node ∈ mergeSimple source nodes, holds node := by
  fun_induction mergeSimple source nodes with
  | case1 before fragment after rest text made ih =>
    intro node member
    rcases List.mem_cons.mp member with rfl | member
    · refine merged before node after (merges_of_mergedText? made) (all before List.mem_cons_self) (all after ?_)
      exact List.mem_cons_of_mem _ (List.mem_cons_of_mem _ List.mem_cons_self)
    · refine ih (fun other inside => all other ?_) node member
      exact List.mem_cons_of_mem _ (List.mem_cons_of_mem _ (List.mem_cons_of_mem _ inside))
  | case2 before fragment after rest _ ih =>
    intro node member
    rcases List.mem_cons.mp member with rfl | member
    · exact all node List.mem_cons_self
    · exact ih (fun other inside => all other (List.mem_cons_of_mem _ inside)) node member
  | case3 nodes => exact all

theorem Spaced.merged_left {before text after : Fragment} {x : Spacing} (merges : Merges before text after)
    (spaced : Spaced source x before.info.spacing) : Spaced source x text.info.spacing := by
  obtain ⟨trailing, leading, gap, apart⟩ := spaced
  obtain ⟨start, flag, _⟩ := merges.leading
  obtain ⟨first, _, _, isText, _, _⟩ := merges.kinds
  have start : text.info.spacing.span.start = before.info.spacing.span.start := start
  refine ⟨start ▸ trailing, ?_, start ▸ gap, fun both => apart ⟨both.1, ?_⟩⟩
  · rw [start]
    exact flag.trans leading
  · show before.kind.isText = true
    rw [isText]
    rfl

theorem Spaced.merged_right {before text after : Fragment} {x : Spacing} (merges : Merges before text after)
    (spaced : Spaced source after.info.spacing x) : Spaced source text.info.spacing x := by
  obtain ⟨trailing, leading, gap, apart⟩ := spaced
  obtain ⟨stop, flag, _⟩ := merges.trailing
  obtain ⟨_, _, last, _, isText, _⟩ := merges.kinds
  have stop : text.info.spacing.span.stop = after.info.spacing.span.stop := stop
  refine ⟨?_, stop ▸ leading, stop ▸ gap, fun both => apart ⟨?_, both.2⟩⟩
  · rw [stop]
    exact flag.trans trailing
  · show after.kind.isText = true
    rw [isText]
    rfl

theorem trimmed_mergeSimpleElements {fragment : Fragment} (trimmed : fragment.Follows spacing (Trimmed source)) :
    (mergeSimpleElements source fragment).Follows spacing (Trimmed source) := by
  refine Fragment.follows_mapChildren (fun info children here below => ?_) fragment trimmed
  obtain ⟨noCdata, spaced, solid⟩ := here
  have leaf : ∀ before text after, Merges before text after → text.Follows spacing (Trimmed source) := by
    intro before text after merges
    cases text with
    | node info children =>
      cases merges.leaf
      exact Fragment.follows_node.mpr ⟨trimmed_leaf _, nofun⟩
  have plainKind : ∀ node ∈ mergeSimple source children, ∀ value, node.kind ≠ .cdata value := by
    refine forall_mergeSimple children (fun before text after merges _ _ value isCdata => ?_)
      fun node member => noCdata node.info.spacing (List.mem_map_of_mem member)
    obtain ⟨_, _, _, _, _, isText⟩ := merges.kinds
    rw [isText] at isCdata
    cases isCdata
  refine ⟨⟨fun child member => ?_, fun plain => ?_, fun plain child member => ?_⟩, ?_⟩
  · obtain ⟨node, inside, rfl⟩ := List.mem_map.mp member
    exact plainKind node inside
  · exact (isChain_mergeSimple Spaced.merged_left Spaced.merged_right children (spaced plain)).1
  · obtain ⟨node, inside, rfl⟩ := List.mem_map.mp member
    have solid : ∀ node ∈ children, ∀ value, node.kind = .text value → Solid value.toList :=
      fun node member => solid plain node.info.spacing (List.mem_map_of_mem member)
    refine forall_mergeSimple children (fun before text after merges solidBefore solidAfter value isText => ?_)
      solid node inside
    obtain ⟨first, middle, last, isFirst, isLast, isMerged⟩ := merges.kinds
    have same : NodeKind.text (first ++ middle ++ last) = .text value := isMerged.symm.trans isText
    cases same
    rw [String.toList_append, String.toList_append]
    exact Text.solid_append (solidBefore first isFirst) (solidAfter last isLast)
  · exact forall_mergeSimple children (fun before text after merges _ _ => leaf before text after merges) below

theorem agree_mergeSimpleElements {fragment : Fragment}
    (agree : fragment.Follows NodeInfo.flags fun _ children => children.IsChain Agree) :
    (mergeSimpleElements source fragment).Follows NodeInfo.flags fun _ children => children.IsChain Agree := by
  refine Fragment.follows_mapChildren (fun info children here below => ⟨?_, ?_⟩) fragment agree
  · refine (isChain_mergeSimple (fun merges related => ?_) (fun merges related => ?_) children here).1
    · exact related.trans merges.leading.2.2.symm
    · exact merges.trailing.2.2.trans related
  · refine forall_mergeSimple children (fun before text after merges _ _ => ?_) below
    cases text with
    | node info children =>
      cases merges.leaf
      exact Fragment.follows_node.mpr ⟨.nil, nofun⟩

/-! ### Annotated trees -/

theorem numbered_classify (source : String) (options : Options) (root : Fragment) :
    (classify source options root).Numbered :=
  Tree.numbered_mapNodes (Tree.keepsPlaces_markSensitivity _)
    (Tree.numbered_mapNodes Tree.keepsPlaces_markSelfClosing
      (Tree.numbered_mapNodes (Tree.keepsPlaces_resolveDisplays _ _) (Tree.numbered_ofRoot source root)))

theorem obeys_classify {rule : Spacing → List Spacing → Prop} (source : String) (options : Options)
    {root : Fragment} (follows : root.Follows spacing rule) : (classify source options root).Obeys spacing rule :=
  Tree.obeys_mapNodes (Tree.keepsPlaces_markSensitivity _) (fun _ _ => rfl)
    (Tree.obeys_mapNodes Tree.keepsPlaces_markSelfClosing (fun _ _ => rfl)
      (Tree.obeys_mapNodes (Tree.keepsPlaces_resolveDisplays _ _) (fun _ _ => rfl)
        (Tree.obeys_ofRoot source follows)))

theorem agree_classify (source : String) (options : Options) (root : Fragment) :
    (classify source options root).Obeys NodeInfo.flags fun _ children => children.IsChain Agree :=
  Tree.agree_markSensitivity
    (Tree.numbered_mapNodes Tree.keepsPlaces_markSelfClosing
      (Tree.numbered_mapNodes (Tree.keepsPlaces_resolveDisplays _ _) (Tree.numbered_ofRoot source root)))

theorem size_classify (source : String) (options : Options) (root : Fragment) :
    (classify source options root).size = root.size := by
  unfold classify Tree.markSensitivity Tree.markSelfClosing Tree.resolveDisplays
  rw [Tree.size_mapNodes, Tree.size_mapNodes, Tree.size_mapNodes, Tree.size_ofRoot]

theorem size_pos (fragment : Fragment) : 0 < fragment.size := by
  cases fragment with
  | node info children =>
    rw [Fragment.size]
    omega

/-- A normal tree that is classified and merged. -/
def finish (source : String) (options : Options) (root : Fragment) : Fragment :=
  mergeSimpleElements source.toList (classify source options root).toFragment

variable {options : Options}

theorem info_finish (source : String) (root : Fragment) :
    (finish source options root).info = ((classify source options root).node Tree.rootId).toNodeInfo := by
  have keeps (fragment : Fragment) : (mergeSimpleElements source.toList fragment).info = fragment.info := by
    cases fragment with
    | node info children => rfl
  rw [finish, keeps, Tree.info_toFragment]

theorem kind_finish (source : String) (root : Fragment) : (finish source options root).kind = root.kind := by
  unfold Fragment.kind
  rw [info_finish]
  show (classify source options root).kind Tree.rootId = _
  rw [classify, Tree.kind_markSensitivity, Tree.kind_markSelfClosing, Tree.kind_resolveDisplays, Tree.kind_rootId]
  rfl

theorem trimmed_finish {source : String} {root : Fragment} (trimmed : root.Follows spacing (Trimmed source.toList)) :
    (finish source options root).Follows spacing (Trimmed source.toList) := by
  refine trimmed_mergeSimpleElements (Tree.follows_toFragment (numbered_classify source options root)
    (obeys_classify source options trimmed) ?_)
  rw [size_classify]
  exact size_pos root

theorem agree_finish (source : String) (root : Fragment) :
    (finish source options root).Follows NodeInfo.flags fun _ children => children.IsChain Agree := by
  refine agree_mergeSimpleElements (Tree.follows_toFragment (numbered_classify source options root)
    (agree_classify source options root) ?_)
  rw [size_classify]
  exact size_pos root

theorem spacing_normalize (root : Fragment) : (normalize root).info.spacing = root.info.spacing := by
  cases root with
  | node info children => exact look_trimNode (fun _ _ _ _ => rfl) info _

theorem readSource_of_parse {source : String} {options : Markup.ParseOptions} {content : List Fragment}
    (parsed : Markup.parse source options = .ok content) :
    Markup.readSource options source.toList = .ok content := by
  unfold Markup.parse at parsed
  dsimp only at parsed
  split at parsed
  · cases parsed
  · cases found : Markup.readSource options source.toList with
    | error failure =>
      rw [found] at parsed
      cases parsed
    | ok read =>
      rw [found] at parsed
      cases parsed
      rfl

/-- The root over what was read. -/
def rootOver (source : String) (content : List Fragment) : Fragment :=
  .node { kind := .root, span := ⟨0, byteLength source.toList⟩ } content

theorem exists_parsed {source : String} {annotated : Annotated} (ok : annotate source options = .ok annotated) :
    ∃ content, Markup.parse (Text.normalizeLineEndings source) {} = .ok content ∧
      annotated.tree = Tree.ofRoot (Text.normalizeLineEndings source)
        (finish (Text.normalizeLineEndings source) options
          (normalize (rootOver (Text.normalizeLineEndings source) content))) := by
  unfold annotate at ok
  dsimp only at ok
  generalize Text.normalizeLineEndings source = text at ok ⊢
  cases parsed : Markup.parse text {} with
  | error failure =>
    rw [parsed] at ok
    cases ok
  | ok content =>
    rw [parsed] at ok
    refine ⟨content, rfl, ?_⟩
    rw [← Except.ok.inj ok]
    rfl

theorem exists_content {source : String} {annotated : Annotated} (ok : annotate source options = .ok annotated) :
    ∃ content, Markup.readSource {} (Text.normalizeLineEndings source).toList = .ok content ∧
      annotated.tree = Tree.ofRoot (Text.normalizeLineEndings source)
        (finish (Text.normalizeLineEndings source) options
          (normalize (rootOver (Text.normalizeLineEndings source) content))) := by
  obtain ⟨content, parsed, same⟩ := exists_parsed ok
  exact ⟨content, readSource_of_parse parsed, same⟩

theorem exists_normal {source : String} {annotated : Annotated} (ok : annotate source options = .ok annotated) :
    ∃ root : Fragment, root.kind = .root ∧
      root.Follows spacing (Trimmed (Text.normalizeLineEndings source).toList) ∧
      annotated.tree = Tree.ofRoot (Text.normalizeLineEndings source)
        (finish (Text.normalizeLineEndings source) options root) := by
  obtain ⟨content, read, same⟩ := exists_content ok
  refine ⟨normalize (rootOver _ content), ?_, trimmed_normalize (laid_root read rfl rfl rfl), same⟩
  exact congrArg Spacing.kind (spacing_normalize _)

/-- What a tree tells of the white space between its nodes. -/
structure TellsSpaces (tree : Tree) : Prop where
  noCdata : ∀ id value, tree.kind id ≠ .cdata value
  solid : ∀ id, isWhitespaceSensitive (tree.kind id) = false →
    ∀ child ∈ tree.children id, ∀ value, tree.kind child = .text value → Solid value.toList
  spaced : ∀ id, isWhitespaceSensitive (tree.kind id) = false →
    (tree.children id).IsChain fun node next =>
      Spaced tree.source.toList (tree.node node).spacing (tree.node next).spacing
  agree : ∀ id, (tree.children id).IsChain fun node next =>
    Agree (tree.node node).flags (tree.node next).flags

theorem tellsSpaces_ofRoot {source : String} {root : Fragment} (isRoot : root.kind = .root)
    (trimmed : root.Follows spacing (Trimmed source.toList))
    (agree : root.Follows NodeInfo.flags fun _ children => children.IsChain Agree) :
    TellsSpaces (Tree.ofRoot source root) := by
  have trimmed := Tree.obeys_ofRoot source trimmed
  have agree := Tree.obeys_ofRoot source agree
  have inside {id child : Markup.NodeId} (member : child ∈ (Tree.ofRoot source root).children id) :
      id < (Tree.ofRoot source root).size := List.mem_range.mp (Tree.mem_ids_of_mem_children member)
  refine ⟨fun id value isCdata => ?_, fun id plain child member => ?_, fun id plain => ?_, fun id => ?_⟩
  · by_cases isInside : id < (Tree.ofRoot source root).size
    · by_cases first : id = Tree.rootId
      · rw [first, Tree.kind_rootId, isRoot] at isCdata
        cases isCdata
      · obtain ⟨parent, member⟩ := Tree.exists_parent isInside first
        exact (trimmed parent (inside member)).noCdata _ (List.mem_map_of_mem member) value isCdata
    · unfold Tree.kind at isCdata
      rw [Tree.node_of_size_le (Nat.le_of_not_lt isInside)] at isCdata
      cases isCdata
  · exact (trimmed id (inside member)).solid plain _ (List.mem_map_of_mem member)
  · by_cases isInside : id < (Tree.ofRoot source root).size
    · exact (List.isChain_map _).mp ((trimmed id isInside).spaced plain)
    · rw [Tree.children_of_size_le (Nat.le_of_not_lt isInside)]
      exact .nil
  · by_cases isInside : id < (Tree.ofRoot source root).size
    · exact (List.isChain_map _).mp (agree id isInside)
    · rw [Tree.children_of_size_le (Nat.le_of_not_lt isInside)]
      exact .nil

/-- Annotating a source leaves no character data, trims the texts wherever white space does not show, and records
what was removed at the nodes on both sides; these also agree on whether it shows. -/
theorem tellsSpaces_of_annotate {source : String} {annotated : Annotated}
    (ok : annotate source options = .ok annotated) :
    annotated.tree.source = Text.normalizeLineEndings source ∧ TellsSpaces annotated.tree := by
  obtain ⟨root, isRoot, trimmed, same⟩ := exists_normal ok
  rw [same]
  refine ⟨rfl, ?_⟩
  exact tellsSpaces_ofRoot ((kind_finish _ root).trans isRoot) (trimmed_finish trimmed) (agree_finish _ root)

/-- Character data and a simple element inside text, and white space between all of it. -/
def spacedSource : String :=
  " a<b>c</b>d\r\n<i> <![CDATA[ e ]]>\x7b\x7b f \x7d\x7d </i> <pre>\n\n g </pre>"

theorem tellsSpaces_of_annotate_spacedSource : ∃ annotated, annotate spacedSource {} = .ok annotated ∧
    annotated.tree.source = Text.normalizeLineEndings spacedSource ∧ TellsSpaces annotated.tree := by
  cases done : annotate spacedSource {} with
  | ok annotated => exact ⟨annotated, rfl, tellsSpaces_of_annotate done⟩
  | error failure =>
    have readable : (annotate spacedSource {}).isOk = true := by decide +kernel
    rw [done] at readable
    cases readable

end MarkupFormat.Annotate
