import MarkupFormat.Proofs.Annotate.Faithful
import MarkupFormat.Proofs.Annotate.InOrder
import MarkupFormat.Proofs.Annotate.Shape
import MarkupFormat.Proofs.Markup.Marks

/-!
# How annotated nodes are written

The tags of annotated nodes, and all that is known of the source that an annotated tree covers.

Every node of an annotated tree that is no text is cut out of the source by its span, and begins and ends there as
its kind and its tags tell (`tellsTags_of_annotate`). Only two steps make such nodes anew: a start tag that takes over
a condition begins where the comment before it began, and an expression is split off with its braces.

All that is known of an annotated tree at once: its shape, where its nodes lie in the source and inside of each other,
how they are written there, and what neighbours agree on (`covers_of_annotate`).
-/

namespace MarkupFormat.Markup

open Text (Cut)

variable {source : List Char}

/-! ### The rule -/

namespace Tags

/-- How an element is written, as far as its tags tell. A start tag with a condition begins with a comment. -/
structure TagsWrittenAs (node : Tags) (element : Element) (text : List Char) : Prop where
  starts : ∀ start, node.startSpan = some start → start.start = node.span.start
  ordered : ∀ stop, node.endSpan = some stop → node.span.start ≤ stop.start
  named : ∀ c ∈ element.rawName.toList, isTagNameChar c = true
  opening : element.condition = none → '<' :: element.rawName.toList <+: text
  closing : element.tag.isVoid = true ∨ node.endSpan ≠ none → ['>'] <:+ text
  selfClosed : node.endSpan ≠ none → node.endSpan = node.startSpan → ['/', '>'] <:+ text

/-- A node that is no text is written as its kind and its tags tell. -/
def Written (source : List Char) (node : Tags) : Prop :=
  node.kind.isText = false → ∃ text, Cut source node.span.start node.span.stop text ∧ node.kind.WrittenAs text ∧
    ∀ element, node.kind = .element element → node.TagsWrittenAs element text

theorem written_of_isText {node : Tags} (isText : node.kind.isText = true) : node.Written source := by
  intro noText
  rw [isText] at noText
  cases noText

end Tags

/-- All nodes in a tree are written as their kinds and their tags tell. -/
abbrev Fragment.AllWritten (source : List Char) (fragment : Fragment) : Prop :=
  fragment.Follows NodeInfo.tags fun node _ => node.Written source

/-! ### Reading -/

theorem StartTag.ReadIn.named {tag : StartTag} (read : tag.ReadIn source) (parent : Option Element) :
    ∀ c ∈ (tag.elementIn parent).rawName.toList, isTagNameChar c = true := by
  obtain ⟨cursor, next, stop, -, -, read⟩ := read
  unfold readStartTag at read
  dsimp only [bind, Except.bind] at read
  split at read
  · cases read
  cases read
  rw [rawName_elementIn]
  dsimp only [readTagName]
  rw [full_ofChars, String.toList_ofList]
  exact fun c member => List.all_eq_true.mp List.all_takeWhile c member

theorem NodeInfo.Encloses.spans {info : NodeInfo} {start stop : Nat} (encloses : info.Encloses source start stop)
    (ordered : start ≤ stop) :
    (∃ inner, info.startSpan = some ⟨info.span.start, inner⟩ ∧ info.span.start < inner ∧ inner ≤ info.span.stop) ∧
      (∀ last, info.endSpan = some last → info.span.start ≤ last.start ∧ last.stop = info.span.stop) ∧
        (info.endSpan = none → info.startSpan = some ⟨info.span.start, start⟩ ∧ stop = info.span.stop) := by
  cases encloses with
  | whole opening closing fills =>
    refine ⟨⟨info.span.stop, opening, fills.lt, Nat.le_refl _⟩, fun last ends => ?_, fun ends => ?_⟩
    · rw [← Option.some.inj (closing.symm.trans ends)]
      exact ⟨Nat.le_refl _, rfl⟩
    · rw [closing] at ends
      cases ends
  | unended opening closing fills =>
    refine ⟨⟨start, opening, fills.lt, ordered⟩, fun last ends => ?_, fun _ => ⟨opening, rfl⟩⟩
    rw [closing] at ends
    cases ends
  | ended opening closing fills filled =>
    have inside : start ≤ info.span.stop := Nat.le_trans ordered (Nat.le_of_lt filled.lt)
    refine ⟨⟨start, opening, fills.lt, inside⟩, fun last ends => ?_, fun ends => ?_⟩
    · rw [← Option.some.inj (closing.symm.trans ends)]
      exact ⟨Nat.le_trans (Nat.le_of_lt fills.lt) ordered, rfl⟩
    · rw [closing] at ends
      cases ends

/-- What an element tells of its start tag. -/
def Element.Opens (source : List Char) (start : Span) (element : Element) : Prop :=
  element.WrittenAs source start ∧ ∀ c ∈ element.rawName.toList, isTagNameChar c = true

theorem tagsWrittenAs_of_encloses {info : NodeInfo} {children : List Fragment} {element : Element} {start stop : Nat}
    {text : List Char} (encloses : info.Encloses source start stop) (tiles : Fragment.Tiles source children start stop)
    (void : element.tag.isVoid = true → children = []) (ends : info.Ends source)
    (opens : ∃ start, info.startSpan = some start ∧ element.Opens source start)
    (cut : Cut source info.span.start info.span.stop text) : info.tags.TagsWrittenAs element text := by
  obtain ⟨⟨inner, opening, some, inside⟩, last, unended⟩ := encloses.spans tiles.start_le_stop
  obtain ⟨span, same, ⟨_, attributes, bracket, tag, -, -, -, closes, -⟩, named⟩ := opens
  obtain rfl : span = ⟨info.span.start, inner⟩ := Option.some.inj (same.symm.trans opening)
  -- A tag at the end of the node is its own end.
  have ended (stop : Span) (isEnd : info.endSpan = .some stop) :
      ['>'] <:+ text ∧ (stop = ⟨info.span.start, inner⟩ → ['/', '>'] <:+ text) := by
    obtain ⟨after, sameStop⟩ := last stop isEnd
    obtain ⟨back, cutBack, closes⟩ := ends _ stop opening isEnd
    rw [sameStop] at cutBack
    have isSuffix := cut.isSuffix cutBack after
    obtain ⟨-, slash⟩ | ⟨later, angle⟩ := closes
    · exact ⟨((List.suffix_cons '/' ['>']).trans slash).trans isSuffix, fun _ => slash.trans isSuffix⟩
    · refine ⟨angle.trans isSuffix, ?_⟩
      rintro rfl
      exact absurd (Nat.lt_of_lt_of_le some later) (Nat.lt_irrefl _)
  constructor
  case starts =>
    intro start isStart
    rw [← Option.some.inj (opening.symm.trans isStart)]
    rfl
  case ordered => exact fun stop isEnd => (last stop isEnd).1
  case named => exact named
  case opening =>
    intro _
    refine (List.prefix_append _ (attributes ++ bracket)).trans ?_
    rw [← List.append_assoc]
    exact cut.isPrefix tag inside
  case closing =>
    intro closed
    cases isEnd : info.endSpan with
    | some stop => exact (ended stop isEnd).1
    | none =>
      obtain isVoid | never := closed
      · obtain ⟨isStart, whole⟩ := unended isEnd
        have atEnd : start = stop := by
          rw [void isVoid] at tiles
          exact tiles
        obtain rfl : inner = info.span.stop := by
          rw [← whole, ← atEnd]
          exact congrArg Span.stop (Option.some.inj (opening.symm.trans isStart))
        rw [cut.unique tag]
        obtain rfl | rfl := closes
        · exact List.suffix_append _ _
        · exact (List.suffix_cons '/' ['>']).trans (List.suffix_append _ _)
      · exact absurd isEnd never
  case selfClosed =>
    intro closed same
    obtain ⟨stop, isEnd⟩ := Option.ne_none_iff_exists'.mp closed
    exact (ended stop isEnd).2 (Option.some.inj (isEnd.symm.trans (same.trans opening)))

theorem exists_element_of_isElement {kind : NodeKind} (isElement : kind.isElement = true) :
    ∃ element, kind = .element element := by
  cases kind <;> first | exact ⟨_, rfl⟩ | cases isElement

/-- What is known of the nodes of a source. -/
structure NodeInfo.ReadAs (source : List Char) (info : NodeInfo) (children : List NodeInfo) : Prop where
  marked : info.Marked source
  opens : info.ElementSays (Element.Opens source)
  void : ∀ element, info.kind = .element element → element.tag.isVoid = true → children = []

mutual

theorem allWritten_of_tiled : ∀ fragment : Fragment, fragment.Tiled source →
    fragment.Follows id (NodeInfo.ReadAs source) → fragment.AllWritten source
  | .node info children, .inl ⟨holds, start, stop, encloses, tiles⟩, ⟨read, below⟩ => by
    have tiled : (Fragment.node info children).Tiled source := .inl ⟨holds, start, stop, encloses, tiles⟩
    refine ⟨fun _ => ?_, allWritten_of_tiles children tiles below⟩
    cases isElement : info.kind.isElement with
    | false =>
      obtain ⟨text, cut, written⟩ := read.marked.written isElement
      refine ⟨text, cut, written, fun element same => ?_⟩
      rw [show info.kind = .element element from same] at isElement
      cases isElement
    | true =>
      refine ⟨_, tiled.cut_written, ?_, fun element same => ?_⟩
      · obtain ⟨element, same⟩ := exists_element_of_isElement isElement
        rw [show info.tags.kind = .element element from same]
        trivial
      · have void : element.tag.isVoid = true → children = [] :=
          fun isVoid => List.map_eq_nil_iff.mp (read.void element same isVoid)
        exact tagsWrittenAs_of_encloses encloses tiles void (read.marked.ends isElement) (read.opens element same)
          tiled.cut_written
  | .node info children, .inr ⟨plain, empty, _⟩, ⟨read, _⟩ => by
    subst empty
    refine ⟨fun _ => ?_, trivial⟩
    have other : info.kind.isElement = false := by
      cases kind : info.kind <;> rw [kind] at plain <;> first | rfl | cases plain
    obtain ⟨text, cut, written⟩ := read.marked.written other
    refine ⟨text, cut, written, fun element same => ?_⟩
    rw [show info.kind = .element element from same] at other
    cases other

theorem allWritten_of_tiles : ∀ (fragments : List Fragment) {start stop : Nat},
    Fragment.Tiles source fragments start stop → Fragment.AllFollow id (NodeInfo.ReadAs source) fragments →
    Fragment.AllFollow NodeInfo.tags (fun node _ => node.Written source) fragments
  | [], _, _, _, _ => trivial
  | first :: rest, _, _, ⟨_, tiled, tiles⟩, ⟨read, others⟩ =>
    ⟨allWritten_of_tiled first tiled read, allWritten_of_tiles rest tiles others⟩

end

end MarkupFormat.Markup

namespace MarkupFormat.Annotate

open Format (Options)
open Markup (Fragment NodeId NodeInfo NodeKind Spacing Span Tags Tree)
open Markup.Fragment (looks)
open Markup.NodeInfo (spacing tags)
open Markup.Tree (Agree)
open Text (Cut byteLength)

variable {source : List Char}

theorem allWritten_root {options : Markup.ParseOptions} {content : List Fragment} {info : NodeInfo}
    (read : Markup.readSource options source = .ok content) (isRoot : info.kind = .root)
    (whole : info.span = ⟨0, byteLength source⟩) : (Fragment.node info content).AllWritten source := by
  have known : ∀ node ∈ content, node.Follows id (NodeInfo.ReadAs source) := by
    intro node member
    have marked := Markup.marked_of_readSource read node member
    have opens : node.ElementsSay (Markup.Element.Opens source) :=
      Markup.elementsSay_of_readSource (fun tag read parent => ⟨read.writtenAs parent, read.named parent⟩) read node
        member
    have kinds := Fragment.follows_comp.mp (Markup.kindsAsRead_of_readSource read node member)
    refine ((marked.both opens).both kinds).imp fun info children ⟨⟨marked, opens⟩, kind⟩ => ⟨marked, opens, ?_⟩
    exact fun element same isVoid => List.map_eq_nil_iff.mp (kind.void element same isVoid)
  refine ⟨fun _ => ?_, Markup.allWritten_of_tiles content (Markup.tiles_of_readSource read)
    (Fragment.allFollow_iff.mpr known)⟩
  have isRoot : info.tags.kind = .root := isRoot
  have whole : info.tags.span = ⟨0, byteLength source⟩ := whole
  rw [isRoot, whole]
  exact ⟨source, Cut.whole source, trivial, fun _ same => NodeKind.noConfusion same⟩

/-! ### Steps -/

theorem allWritten_asText {info : NodeInfo} {inner : List Fragment} {text : String} {span : Span}
    (written : (Fragment.node info inner).AllWritten source) :
    (Fragment.node { info with kind := .text text, span := span } inner).AllWritten source :=
  Fragment.follows_node.mpr ⟨Tags.written_of_isText rfl, (Fragment.follows_node.mp written).2⟩

theorem allWritten_dropFirstLineFeeds {fragment : Fragment} (written : fragment.AllWritten source) :
    (dropFirstLineFeeds fragment).AllWritten source := by
  refine follows_mapChildren_alone (fun info children below => ?_) written
  split
  · exact forall_dropLineFeed (fun _ _ _ _ _ _ written => allWritten_asText written) below
  · exact below

theorem allWritten_withCondition? {before element joined : Fragment}
    (found : withCondition? before element = some joined) (first : before.AllWritten source)
    (written : element.AllWritten source) : joined.AllWritten source := by
  obtain ⟨condition, e, startSpan, finish, inner, starts, isElement, tag, children, _, touch, _, rfl⟩ :=
    withCondition?_eq_some found
  cases before with
  | node beforeInfo beforeInner =>
    cases element with
    | node info below =>
      obtain rfl : below = finish :: inner := children
      obtain ⟨here, -, others⟩ := written
      have starts : beforeInfo.tags.kind = .conditionalStart condition := starts
      have isElement : info.tags.kind = .element e := isElement
      obtain ⟨front, cutFront, ⟨-, raw, rfl⟩, -⟩ := starts ▸ first.1 (by rw [starts]; rfl)
      obtain ⟨text, cut, -, tagged⟩ := here (by rw [isElement]; rfl)
      have tagged := tagged e isElement
      have filled := cutFront.lt_of_ne_nil (by simp)
      have meets : beforeInfo.span.stop = info.span.start := touch.trans (tagged.starts startSpan tag)
      refine ⟨fun _ => ⟨_, cutFront.append (meets ▸ cut), trivial, ?_⟩, others⟩
      rintro _ ⟨⟩
      have later (stop : Span) (isEnd : info.endSpan = .some stop) : beforeInfo.span.start < stop.start :=
        Nat.lt_of_lt_of_le (Nat.lt_of_lt_of_eq filled meets) (tagged.ordered stop isEnd)
      refine ⟨?_, fun stop isEnd => Nat.le_of_lt (later stop isEnd), tagged.named, nofun, fun closed => ?_, ?_⟩
      · rintro _ ⟨⟩
        rfl
      · exact (tagged.closing closed).trans (List.suffix_append _ _)
      · -- A tag that begins with the comment is not the end tag.
        exact fun _ same => absurd (later _ same) (Nat.lt_irrefl _)

theorem allWritten_foldConditions {fragment : Fragment} (written : fragment.AllWritten source) :
    (foldConditions fragment).AllWritten source := by
  refine follows_mapChildren_alone (fun info children below => ?_) written
  exact forall_joinConditions children (fun _ _ _ found first written => allWritten_withCondition? found first written)
    below

theorem allWritten_mergeCdata {fragment : Fragment} (written : fragment.AllWritten source) :
    (mergeCdata fragment).AllWritten source := by
  refine follows_mapChildren_alone (fun info children below => ?_) written
  split
  · exact forall_joinTexts children (fun _ _ _ _ written => allWritten_asText written)
      (fun _ _ _ _ _ _ _ _ written _ => allWritten_asText written) below
  · exact below

/-! ### Interpolations -/

theorem allWritten_text (value : String) (span : Span) : (Fragment.leaf (.text value) span).AllWritten source :=
  Fragment.follows_leaf.mpr (Tags.written_of_isText rfl)

theorem allWritten_nodes (pieces : List TextPiece) {start stop : Nat}
    (cut : Cut source start stop (TextPiece.allChars pieces)) :
    ∀ node ∈ TextPiece.nodes start pieces, node.AllWritten source := by
  induction pieces generalizing start with
  | nil => exact fun node member => absurd member List.not_mem_nil
  | cons piece rest ih =>
    obtain ⟨here, others⟩ := Cut.of_append cut
    rw [← TextPiece.bytes_eq] at here others
    refine List.forall_mem_cons.mpr ⟨?_, ih others⟩
    cases piece with
    | text cs => exact allWritten_text _ _
    | expression cs =>
      refine Fragment.follows_node.mpr ⟨fun _ => ⟨_, here, ⟨cs, ?_⟩, fun _ same => NodeKind.noConfusion same⟩, ?_⟩
      · exact (List.append_assoc _ _ _).symm
      · exact List.forall_mem_singleton.mpr (allWritten_text _ _)

theorem allWritten_splitText {fragment : Fragment} (laid : LaidNode source fragment.info.spacing)
    (written : fragment.AllWritten source) : ∀ node ∈ splitText fragment, node.AllWritten source := by
  unfold splitText
  split
  · next value text =>
    have cut : Cut source fragment.span.start fragment.span.stop (TextPiece.allChars (textPieces value.toList)) := by
      rw [allChars_textPieces]
      refine laid.spelled value ?_
      rw [show fragment.info.spacing.kind = .text value from text]
      rfl
    exact allWritten_nodes _ cut
  · exact List.forall_mem_singleton.mpr written

theorem allWritten_splitInterpolations {fragment : Fragment} (laid : fragment.Follows spacing (LaidText source))
    (written : fragment.AllWritten source) : (splitInterpolations fragment).AllWritten source := by
  have own (node : Spacing) (children : List Spacing) (laid : LaidText source node children) : LaidNode source node :=
    laidNode_of_laid node children laid.toLaid
  -- What is known of the texts is about spacing, and what is to be shown about tags.
  have laid := Fragment.follows_comp.mp (Fragment.follows_childrenToo own fragment laid)
  have both := laid.both (Fragment.follows_comp.mp written)
  refine Fragment.follows_comp.mpr (Fragment.follows_mapChildren (fun info children here below => ?_) fragment both)
  obtain ⟨⟨-, texts⟩, here⟩ := here
  refine ⟨here, ?_⟩
  split
  · intro node member
    obtain ⟨child, inside, piece⟩ := List.mem_flatMap.mp member
    have laid := texts _ (List.mem_map_of_mem (List.mem_map_of_mem inside))
    have written : child.AllWritten source := Fragment.follows_comp.mpr (below child inside)
    exact Fragment.follows_comp.mp (allWritten_splitText laid written node piece)
  · exact below

/-! ### Trimming -/

theorem allWritten_trimText {fragment : Fragment} (written : fragment.AllWritten source) :
    (trimText fragment).AllWritten source :=
  follows_trimText_alone (fun _ _ => rfl) (fun _ _ _ _ written => allWritten_asText written) written

/-- Every node of a normal tree is written as its kind and its tags tell. -/
theorem allWritten_normalize {root : Fragment} (laid : root.Follows spacing (Laid source))
    (written : root.AllWritten source) : (normalize root).AllWritten source := by
  have afterCdata := laidText_mergeCdata (laid_foldConditions (laid_dropFirstLineFeeds laid))
  have writtenCdata := allWritten_mergeCdata (allWritten_foldConditions (allWritten_dropFirstLineFeeds written))
  exact allWritten_trimText (allWritten_splitInterpolations afterCdata writtenCdata)

/-! ### Annotated trees -/

/-- The tags of a node, and whether it is flagged as closing itself. -/
def marks (info : NodeInfo) : Tags × Bool :=
  (info.tags, info.flags.selfClosing)

/-- A node that is no text is written as its tags tell, and flagged as closing itself if it does so. -/
structure Flagged (source : List Char) (node : Tags × Bool) : Prop where
  written : node.1.Written source
  closed : node.1.kind.isText = false → node.2 = node.1.closesItself

theorem flagged_of_isText {node : Tags × Bool} (isText : node.1.kind.isText = true) : Flagged source node := by
  refine ⟨Tags.written_of_isText isText, fun noText => ?_⟩
  rw [isText] at noText
  cases noText

theorem flagged_classify {source : String} {options : Options} {root : Fragment}
    (written : root.AllWritten source.toList) :
    (classify source options root).Obeys marks fun node _ => Flagged source.toList node := by
  have displayed : ((Tree.ofRoot source root).resolveDisplays options.sensitivity).Obeys tags
      fun node _ => node.Written source.toList :=
    Tree.obeys_mapNodes (Tree.keepsPlaces_resolveDisplays _ _) (fun _ _ => rfl) (Tree.obeys_ofRoot source written)
  unfold classify
  generalize (Tree.ofRoot source root).resolveDisplays options.sensitivity = tree at displayed ⊢
  refine Tree.obeys_mapNodes (Tree.keepsPlaces_markSensitivity _) (fun _ _ => rfl) fun id inside => ?_
  rw [Tree.size_markSelfClosing] at inside
  have same := Tree.tags_markSelfClosing tree id
  refine ⟨?_, fun _ => ?_⟩
  · show (tree.markSelfClosing.node id).tags.Written source.toList
    rw [same]
    exact displayed id inside
  · show (tree.markSelfClosing.node id).flags.selfClosing = (tree.markSelfClosing.node id).tags.closesItself
    rw [same]
    exact Tree.selfClosing_markSelfClosing inside

theorem flagged_mergeSimpleElements {fragment : Fragment}
    (flagged : fragment.Follows marks fun node _ => Flagged source node) :
    (mergeSimpleElements source fragment).Follows marks fun node _ => Flagged source node := by
  refine Fragment.follows_mapChildren (fun info children here below => ?_) fragment flagged
  refine ⟨here, ?_⟩
  refine forall_mergeSimple children (fun before text after merges _ _ => ?_) below
  obtain ⟨_, _, _, _, _, same⟩ := merges.kinds
  cases text with
  | node info inner =>
    cases merges.leaf
    have isText : info.kind.isText = true := by
      rw [show info.kind = _ from same]
      rfl
    exact Fragment.follows_node.mpr ⟨flagged_of_isText isText, fun _ member => absurd member List.not_mem_nil⟩

theorem flagged_finish {source : String} {options : Options} {root : Fragment}
    (written : root.AllWritten source.toList) :
    (finish source options root).Follows marks fun node _ => Flagged source.toList node := by
  have classified : (classify source options root).toFragment.Follows marks
      fun node _ => Flagged source.toList node := by
    refine Tree.follows_toFragment (numbered_classify source options root) (flagged_classify written) ?_
    rw [size_classify]
    exact size_pos root
  exact flagged_mergeSimpleElements classified

/-- What a tree tells of the tags of its nodes. -/
structure TellsTags (tree : Tree) : Prop where
  written : ∀ id < tree.size, (tree.node id).tags.Written tree.source.toList
  closed : ∀ id < tree.size, (tree.kind id).isText = false →
    (tree.node id).flags.selfClosing = (tree.node id).tags.closesItself

theorem tellsTags_of_obeys {tree : Tree} (obeys : tree.Obeys marks fun node _ => Flagged tree.source.toList node) :
    TellsTags tree :=
  ⟨fun id inside => (obeys id inside).written, fun id inside => (obeys id inside).closed⟩

/-- The nodes of an annotated tree that are no texts are written as their kinds and their tags tell, and flagged as
closing themselves if their tags say so. -/
theorem tellsTags_of_annotate {source : String} {options : Options} {annotated : Annotated}
    (ok : annotate source options = .ok annotated) : TellsTags annotated.tree := by
  obtain ⟨content, read, same⟩ := exists_content ok
  rw [same]
  generalize Text.normalizeLineEndings source = text at read ⊢
  have laid : (rootOver text content).Follows spacing (Laid text.toList) := laid_root read rfl rfl rfl
  have root : (rootOver text content).AllWritten text.toList := allWritten_root read rfl rfl
  have written : (normalize (rootOver text content)).AllWritten text.toList := allWritten_normalize laid root
  generalize normalize (rootOver text content) = normal at written ⊢
  exact tellsTags_of_obeys (Tree.obeys_ofRoot text (flagged_finish written))

/-! ### What an annotated tree covers -/

/-- What is known of the nodes of an annotated tree and of the source that they cover. -/
structure Covers (tree : Tree) : Prop extends TellsTags tree where
  shaped : tree.Shaped
  nested : tree.Obeys spacing (Nested (Between tree.source.toList))
  agree : tree.Obeys NodeInfo.flags fun _ children => children.IsChain Agree
  placed : ∀ id < tree.size, id ≠ Tree.rootId → ∃ parent, id ∈ tree.children parent

theorem covers_of_annotate {source : String} {options : Options} {annotated : Annotated}
    (ok : annotate source options = .ok annotated) : Covers annotated.tree := by
  have tags := tellsTags_of_annotate ok
  have shaped := shaped_of_annotate ok
  obtain ⟨content, read, same⟩ := exists_content ok
  generalize annotated.tree = tree at tags shaped same
  subst same
  generalize Text.normalizeLineEndings source = text at read tags shaped
  have faithful : (normalize (rootOver text content)).Follows spacing (Faithful text.toList) :=
    faithful_normalize (laid_root read rfl rfl rfl) (nested_root read rfl rfl)
  generalize normalize (rootOver text content) = root at faithful tags shaped
  have nested : (finish text options root).Follows spacing (Nested (Between text.toList)) :=
    nested_mergeSimpleElements ((faithful_classify faithful).imp fun _ _ faithful => faithful.toNested)
  exact ⟨tags, shaped, Tree.obeys_ofRoot text nested, Tree.obeys_ofRoot text (agree_finish text root),
    fun id inside below => Tree.exists_parent inside below⟩

namespace Covers

variable {tree : Tree} {id parent child : NodeId}

theorem within (covers : Covers tree) (member : child ∈ tree.children parent) :
    (tree.node parent).span.start ≤ (tree.node child).span.start ∧
      (tree.node child).span.start < (tree.node child).span.stop ∧
      (tree.node child).span.stop ≤ (tree.node parent).span.stop := by
  have inside : parent < tree.size := List.mem_range.mp (Tree.mem_ids_of_mem_children member)
  refine (covers.nested parent inside).inOrder.bounds (tree.node child).span ?_
  rw [List.map_map]
  exact List.mem_map_of_mem member

theorem exists_split (covers : Covers tree) {prev : NodeId} (behind : tree.prev? id = some prev) :
    ∃ parent before after, tree.children parent = (before ++ [prev]) ++ id :: after := by
  have inside : id < tree.size := by
    refine Nat.lt_of_not_le fun outside => ?_
    unfold Tree.prev? at behind
    rw [Tree.node_of_size_le outside] at behind
    cases behind
  have below : id ≠ Tree.rootId := by
    rintro rfl
    rw [covers.shaped.numbered.root.2.1] at behind
    cases behind
  obtain ⟨parent, member⟩ := covers.placed id inside below
  obtain ⟨before, after, split⟩ := List.append_of_mem member
  have linked := (covers.shaped.numbered.linked split).2.1
  rw [behind] at linked
  obtain ⟨earlier, rfl⟩ := List.getLast?_eq_some_iff.mp linked.symm
  exact ⟨parent, earlier, after, split⟩

theorem agrees (covers : Covers tree) {node next : NodeId} {before after : List NodeId}
    (split : tree.children parent = before ++ node :: next :: after) :
    (tree.node node).flags.trailingSensitive = (tree.node next).flags.leadingSensitive := by
  have member : node ∈ tree.children parent := by
    rw [split]
    exact List.mem_append_right _ List.mem_cons_self
  have chain := (List.isChain_map _).mp (covers.agree parent (List.mem_range.mp (Tree.mem_ids_of_mem_children member)))
  rw [split] at chain
  exact (List.isChain_cons_cons.mp (List.isChain_append.mp chain).2.1).1

/-- What contains a node is written in the source, so the node is as well. -/
theorem stop_le (covers : Covers tree) (member : child ∈ tree.children parent) :
    (tree.node child).span.stop ≤ byteLength tree.source.toList := by
  have inside : parent < tree.size := List.mem_range.mp (Tree.mem_ids_of_mem_children member)
  have noText : (tree.kind parent).isText = false := by
    cases isText : (tree.kind parent).isText with
    | false => rfl
    | true =>
      obtain ⟨value, same⟩ := exists_text_of_isText isText
      rw [covers.shaped.leaf (by rw [same]; rfl)] at member
      cases member
  obtain ⟨text, cut, -⟩ := covers.written parent inside noText
  exact Nat.le_trans (covers.within member).2.2 cut.stop_le_byteLength

end Covers

end MarkupFormat.Annotate
