import MarkupFormat.Proofs.Annotate.Passes
import MarkupFormat.Proofs.Markup.Elements

/-!
# Tags of normal trees

A node that closes itself has nothing inside: no step of `normalize` gives it anything, and no step makes a node
that has something inside look like one. The second is in doubt only where a conditional comment moves the start
of a start tag, and holds because the end tag starts after the comment (`settled_withCondition?`). The children of
an interpolation are texts from the moment it is made.
-/

namespace MarkupFormat.Markup

/-- What is known of a node apart from its display and its flags. -/
structure Tags where
  kind : NodeKind
  span : Span
  startSpan : Option Span
  endSpan : Option Span

def NodeInfo.tags (info : NodeInfo) : Tags :=
  ⟨info.kind, info.span, info.startSpan, info.endSpan⟩

namespace Tags

/-- Whether a node is printed without an end tag of its own. -/
def closesItself (tags : Tags) : Bool :=
  Tree.isSelfClosing
    { kind := tags.kind, span := tags.span, startSpan := tags.startSpan, endSpan := tags.endSpan }

/-- What may be inside of a node. -/
structure Holds (node : Tags) (children : List Tags) : Prop where
  closed : node.closesItself = true → children = []
  below : ∀ child ∈ children, child.kind ≠ .root

/-- A node with its tags as they are read. -/
structure AsTagged (node : Tags) (children : List Tags) : Prop extends Holds node children where
  ordered : node.kind.isElement = true →
    ∀ start stop, node.startSpan = some start → node.endSpan = some stop → start.start ≤ stop.start
  filled : ∀ condition, node.kind = .conditionalStart condition → node.span.start < node.span.stop
  noInterpolation : node.kind ≠ .interpolation

/-- A node of a tree in which interpolations are nodes of their own. -/
structure HoldsTexts (node : Tags) (children : List Tags) : Prop extends Holds node children where
  expression : node.kind = .interpolation → ∀ child ∈ children, child.kind.isText = true

theorem holds_nil (node : Tags) : node.Holds [] :=
  ⟨fun _ => rfl, fun _ member => absurd member List.not_mem_nil⟩

theorem asTagged_text {node : Tags} {value : String} (text : node.kind = .text value) : node.AsTagged [] := by
  refine ⟨holds_nil node, fun element => ?_, fun condition same => ?_, fun same => ?_⟩
  · rw [text] at element
    cases element
  · exact NodeKind.noConfusion (text.symm.trans same)
  · exact NodeKind.noConfusion (text.symm.trans same)

theorem holdsTexts_text {node : Tags} {value : String} (text : node.kind = .text value) : node.HoldsTexts [] :=
  ⟨holds_nil node, fun same => NodeKind.noConfusion (text.symm.trans same)⟩

theorem closesItself_of_childless {tags : Tags} (childless : tags.kind.canHaveChildren = false) :
    tags.closesItself = true := by
  unfold closesItself Tree.isSelfClosing
  rw [childless]
  rfl

theorem closesItself_element {tags : Tags} {element : Element} (same : tags.kind = .element element) :
    tags.closesItself = (element.tag.isVoid || (tags.endSpan.isSome && tags.endSpan = tags.startSpan)) := by
  unfold closesItself Tree.isSelfClosing
  rw [same]
  rfl

end Tags

end MarkupFormat.Markup

namespace MarkupFormat.Annotate

open Markup (Fragment NodeInfo NodeKind Span Tags)
open Markup.Fragment (looks)
open Markup.NodeInfo (tags)
open Markup.Tags (AsTagged Holds HoldsTexts)

variable {source : List Char}

/-! ### Reading -/

theorem hasSection_of_isElement {kind : NodeKind} (element : kind.isElement = true) : kind.hasSection = true := by
  cases kind <;> first | rfl | cases element

theorem eq_nil_of_tiles {fragments : List Fragment} {stop : Nat} (tiles : Fragment.Tiles source fragments stop stop) :
    fragments = [] := by
  cases fragments with
  | nil => rfl
  | cons fragment rest =>
    obtain ⟨begins, tiled, others⟩ := tiles
    have first := tiled.start_lt_stop
    have between := others.start_le_stop
    omega

theorem eq_nil_of_closesItself {info : NodeInfo} {children : List Fragment} {start stop : Nat}
    (holds : info.kind.hasSection = true) (encloses : info.Encloses source start stop)
    (tiles : Fragment.Tiles source children start stop)
    (void : ∀ element, info.kind = .element element → element.tag.isVoid = true → children = [])
    (closed : info.tags.closesItself = true) : children = [] := by
  cases kind : info.kind with
  | element element =>
    have isElement : info.tags.kind = .element element := kind
    rw [Tags.closesItself_element isElement, Bool.or_eq_true] at closed
    rcases closed with isVoid | same
    · exact void element kind isVoid
    · obtain ⟨ended, same⟩ := Bool.and_eq_true_iff.mp same
      have same : info.endSpan = info.startSpan := of_decide_eq_true same
      cases encloses with
      | whole opening closing fills => exact eq_nil_of_tiles tiles
      | unended opening closing fills =>
        rw [show info.tags.endSpan = none from closing] at ended
        cases ended
      | ended opening closing fills filled =>
        rw [opening, closing] at same
        have starts := congrArg Span.start (Option.some.inj same)
        have first := fills.lt
        have between := tiles.start_le_stop
        dsimp only at starts
        omega
  | conditional condition complete =>
    unfold Tags.closesItself Markup.Tree.isSelfClosing at closed
    rw [show info.tags.kind = .conditional condition complete from kind] at closed
    cases closed
  | _ =>
    rw [kind] at holds
    cases holds

mutual

theorem tagged_of_tiled : ∀ fragment : Fragment, fragment.Tiled source → fragment.KindsAsRead →
    fragment.Follows tags AsTagged
  | .node info children, .inl ⟨holds, start, stop, encloses, tiles⟩, ⟨here, below⟩ => by
    refine ⟨⟨⟨fun closed => ?_, fun child member => ?_⟩, fun _ first last opens ends => ?_, fun condition same => ?_,
      here.noInterpolation⟩, allTagged_of_tiles children tiles below⟩
    · have void : ∀ element, info.kind = .element element → element.tag.isVoid = true → children = [] :=
        fun element kind isVoid => List.map_eq_nil_iff.mp (here.void element kind isVoid)
      rw [eq_nil_of_closesItself holds encloses tiles void closed]
      rfl
    · obtain ⟨fragment, inside, rfl⟩ := List.mem_map.mp member
      exact (Fragment.allFollow_iff.mp below fragment inside).self fun _ _ kinds => kinds.noRoot
    · change info.startSpan = some first at opens
      change info.endSpan = some last at ends
      cases encloses with
      | whole opening closing fills =>
        rw [← Option.some.inj (opening.symm.trans opens), ← Option.some.inj (closing.symm.trans ends)]
      | unended opening closing fills =>
        rw [closing] at ends
        cases ends
      | ended opening closing fills filled =>
        rw [← Option.some.inj (opening.symm.trans opens), ← Option.some.inj (closing.symm.trans ends)]
        exact Nat.le_of_lt (Nat.lt_of_lt_of_le fills.lt tiles.start_le_stop)
    · rw [show info.kind = .conditionalStart condition from same] at holds
      cases holds
  | .node info children, .inr ⟨plain, empty, part, nonempty, cut, text⟩, ⟨here, _⟩ => by
    subst empty
    refine ⟨⟨Tags.holds_nil _, fun element => ?_, fun _ _ => cut.lt_of_ne_nil nonempty, here.noInterpolation⟩,
      trivial⟩
    exact absurd (hasSection_of_isElement element) (Bool.eq_false_iff.mp plain)

theorem allTagged_of_tiles : ∀ (fragments : List Fragment) {start stop : Nat},
    Fragment.Tiles source fragments start stop → Fragment.AllFollow NodeInfo.kind Markup.KindAsRead fragments →
    Fragment.AllFollow tags AsTagged fragments
  | [], _, _, _, _ => trivial
  | first :: rest, _, _, ⟨_, tiled, tiles⟩, ⟨kinds, others⟩ =>
    ⟨tagged_of_tiled first tiled kinds, allTagged_of_tiles rest tiles others⟩

end

theorem tagged_root {options : Markup.ParseOptions} {content : List Fragment} {info : NodeInfo}
    (read : Markup.readSource options source = .ok content) (isRoot : info.kind = .root) :
    (Fragment.node info content).Follows tags AsTagged := by
  have tiles := Markup.tiles_of_readSource read
  have kinds := Markup.kindsAsRead_of_readSource read
  have open_ : info.tags.closesItself = false := by
    unfold Tags.closesItself Markup.Tree.isSelfClosing
    rw [show info.tags.kind = .root from isRoot]
    rfl
  refine ⟨⟨⟨fun closed => ?_, fun child member => ?_⟩, fun element => ?_, fun condition same => ?_, fun same => ?_⟩,
    allTagged_of_tiles content tiles (Fragment.allFollow_iff.mpr kinds)⟩
  · rw [open_] at closed
    cases closed
  · obtain ⟨fragment, inside, rfl⟩ := List.mem_map.mp member
    exact (kinds fragment inside).self fun _ _ kinds => kinds.noRoot
  · rw [show info.tags.kind = .root from isRoot] at element
    cases element
  · cases isRoot.symm.trans same
  · cases isRoot.symm.trans same

/-! ### Steps before interpolations -/

/-- A node that can be a child. -/
structure Settled (rule : Tags → List Tags → Prop) (node : Fragment) : Prop where
  follows : node.Follows tags rule
  noRoot : node.kind ≠ .root

theorem settled_of_mem {rule : Tags → List Tags → Prop} {node : Tags} {children : List Fragment}
    (holds : Holds node (looks tags children)) (below : ∀ child ∈ children, child.Follows tags rule) :
    ∀ child ∈ children, Settled rule child :=
  fun child member => ⟨below child member, holds.below child.info.tags (List.mem_map_of_mem member)⟩

/-- Changes of children that neither fill an empty node nor put anything odd among them. -/
theorem tagged_mapChildren {change : NodeInfo → List Fragment → List Fragment} (none : ∀ info, change info [] = [])
    (each : ∀ info children, (∀ child ∈ children, Settled AsTagged child) →
      ∀ child ∈ change info children, Settled AsTagged child)
    {fragment : Fragment} (tagged : fragment.Follows tags AsTagged) :
    (fragment.mapChildren change).Follows tags AsTagged := by
  refine Fragment.follows_mapChildren (fun info children here below => ?_) fragment tagged
  have settled := each info children (settled_of_mem here.toHolds below)
  refine ⟨⟨⟨fun closed => ?_, fun child member => ?_⟩, here.ordered, here.filled, here.noInterpolation⟩,
    fun child member => (settled child member).follows⟩
  · rw [List.map_eq_nil_iff.mp (here.closed closed), none]
    rfl
  · obtain ⟨node, inside, rfl⟩ := List.mem_map.mp member
    exact (settled node inside).noRoot

theorem settled_asText {info : NodeInfo} {inner : List Fragment} (settled : Settled AsTagged (.node info inner))
    (childless : info.kind.canHaveChildren = false) (value : String) (span : Span) :
    Settled AsTagged (.node { info with kind := .text value, span := span } inner) := by
  obtain rfl : inner = [] :=
    List.map_eq_nil_iff.mp (settled.follows.1.closed (Tags.closesItself_of_childless childless))
  refine ⟨Fragment.follows_node.mpr ⟨Tags.asTagged_text rfl, fun _ member => absurd member List.not_mem_nil⟩, ?_⟩
  exact fun same => NodeKind.noConfusion same

theorem tagged_dropFirstLineFeeds {fragment : Fragment} (tagged : fragment.Follows tags AsTagged) :
    (dropFirstLineFeeds fragment).Follows tags AsTagged := by
  refine tagged_mapChildren (fun info => ?_) (fun info children settled => ?_) tagged
  · split <;> rfl
  · split
    · exact forall_dropLineFeed (fun _ _ _ _ text _ settled => settled_asText settled (by rw [text]; rfl) _ _) settled
    · exact settled

theorem settled_withCondition? {before element joined : Fragment} (first : Settled AsTagged before)
    (settled : Settled AsTagged element) (found : withCondition? before element = some joined) :
    Settled AsTagged joined := by
  obtain ⟨condition, e, startSpan, finish, inner, starts, isElement, tag, children, _, touch, _, rfl⟩ :=
    withCondition?_eq_some found
  cases element with
  | node info below =>
    obtain rfl : below = finish :: inner := children
    obtain ⟨here, _, others⟩ := settled.follows
    have kind : info.tags.kind = .element e := isElement
    have opened : info.tags.closesItself = false := Bool.eq_false_iff.mpr fun closed => by
      cases here.closed closed
    rw [Tags.closesItself_element kind, Bool.or_eq_false_iff] at opened
    have filled : before.span.start < before.span.stop := by
      cases before with
      | node beforeInfo beforeInner => exact first.follows.1.filled condition starts
    have after : ∀ stop, info.endSpan = some stop → before.span.start < stop.start := by
      intro stop ends
      have ordered := here.ordered (by rw [kind]; rfl) startSpan stop tag ends
      omega
    refine ⟨⟨⟨⟨fun closed => ?_, fun child member => ?_⟩, fun _ start stop opens ends => ?_, nofun, nofun⟩, others⟩,
      nofun⟩
    · rw [Tags.closesItself_element rfl, Bool.or_eq_true] at closed
      rcases closed with isVoid | same
      · rw [show e.tag.isVoid = true from isVoid] at opened
        cases opened.1
      · obtain ⟨_, same⟩ := Bool.and_eq_true_iff.mp same
        have ends := after _ (of_decide_eq_true same)
        exact absurd ends (Nat.lt_irrefl _)
    · exact here.below child (List.mem_cons_of_mem _ member)
    · cases opens
      exact Nat.le_of_lt (after stop ends)

theorem tagged_foldConditions {fragment : Fragment} (tagged : fragment.Follows tags AsTagged) :
    (foldConditions fragment).Follows tags AsTagged := by
  refine tagged_mapChildren (fun info => rfl) (fun info children settled => ?_) tagged
  exact forall_joinConditions children (fun _ _ _ found first settled => settled_withCondition? first settled found)
    settled

theorem tagged_mergeCdata {fragment : Fragment} (tagged : fragment.Follows tags AsTagged) :
    (mergeCdata fragment).Follows tags AsTagged := by
  refine tagged_mapChildren (fun info => rfl) (fun info children settled => ?_) tagged
  split
  · refine forall_joinTexts children (fun info _ _ text settled => ?_) (fun _ _ _ _ _ _ text _ settled _ => ?_) settled
    · exact settled_asText settled (canHaveChildren_of_textOf? text) _ info.span
    · exact settled_asText settled (canHaveChildren_of_textOf? text) _ _
  · exact settled

/-! ### Interpolations -/

theorem settled_text (value : String) (span : Span) : Settled HoldsTexts (.leaf (.text value) span) :=
  ⟨Fragment.follows_leaf.mpr (Tags.holdsTexts_text rfl), fun same => NodeKind.noConfusion same⟩

theorem settled_node (piece : TextPiece) (start : Nat) : Settled HoldsTexts (piece.node start) := by
  cases piece with
  | text cs => exact settled_text _ _
  | expression cs =>
    refine ⟨Fragment.follows_node.mpr ⟨⟨⟨fun closed => ?_, fun child member => ?_⟩, fun _ child member => ?_⟩,
      fun child member => ?_⟩, fun same => NodeKind.noConfusion same⟩
    · cases closed
    · rw [List.mem_singleton.mp member]
      exact fun same => NodeKind.noConfusion same
    · rw [List.mem_singleton.mp member]
      rfl
    · rw [List.mem_singleton.mp member]
      exact (settled_text _ _).follows

theorem settled_nodes (pieces : List TextPiece) (start : Nat) :
    ∀ node ∈ TextPiece.nodes start pieces, Settled HoldsTexts node := by
  induction pieces generalizing start with
  | nil => exact fun node member => absurd member List.not_mem_nil
  | cons piece rest ih =>
    intro node member
    rcases List.mem_cons.mp member with rfl | member
    · exact settled_node piece start
    · exact ih _ node member

theorem settled_splitText {fragment : Fragment} (settled : Settled HoldsTexts fragment) :
    ∀ node ∈ splitText fragment, Settled HoldsTexts node := by
  unfold splitText
  split
  · exact settled_nodes _ _
  · intro node member
    rw [List.mem_singleton.mp member]
    exact settled

theorem holdsTexts_splitInterpolations {fragment : Fragment} (tagged : fragment.Follows tags AsTagged) :
    (splitInterpolations fragment).Follows tags HoldsTexts := by
  refine Fragment.follows_mapChildren (fun info children here below => ?_) fragment tagged
  have settled := settled_of_mem here.toHolds below
  have changed : ∀ child ∈ (if splits info children then children.flatMap splitText else children),
      Settled HoldsTexts child := by
    split
    · intro child member
      obtain ⟨old, inside, piece⟩ := List.mem_flatMap.mp member
      exact settled_splitText (settled old inside) child piece
    · exact settled
  refine ⟨⟨⟨fun closed => ?_, fun child member => ?_⟩, fun same => absurd same here.noInterpolation⟩,
    fun child member => (changed child member).follows⟩
  · rw [List.map_eq_nil_iff.mp (here.closed closed)]
    split <;> rfl
  · obtain ⟨node, inside, rfl⟩ := List.mem_map.mp member
    exact (changed node inside).noRoot

/-! ### Trimming -/

theorem settled_withFlag (flag : Markup.Flag) (node : Fragment) (settled : Settled HoldsTexts node) :
    Settled HoldsTexts (withFlag flag node) := by
  cases node with
  | node info children => exact ⟨settled.follows, settled.noRoot⟩

theorem settled_trimmedText (info : NodeInfo) (inner : List Fragment) (value : String)
    (settled : Settled HoldsTexts (.node info inner)) (text : info.kind = .text value) :
    Settled HoldsTexts (trimmedText info value.toList inner) := by
  have childless : info.tags.kind.canHaveChildren = false := by
    rw [show info.tags.kind = .text value from text]
    rfl
  obtain rfl : inner = [] :=
    List.map_eq_nil_iff.mp (settled.follows.1.closed (Tags.closesItself_of_childless childless))
  refine ⟨Fragment.follows_node.mpr ⟨Tags.holdsTexts_text rfl, fun _ member => absurd member List.not_mem_nil⟩, ?_⟩
  exact fun same => NodeKind.noConfusion same

theorem holdsTexts_trimText {fragment : Fragment} (texts : fragment.Follows tags HoldsTexts) :
    (trimText fragment).Follows tags HoldsTexts := by
  refine Fragment.follows_bottomUp (look_trimNode fun _ _ _ _ => rfl) (fun info children here below => ?_) fragment
    texts
  unfold trimNode
  split
  · exact Fragment.follows_node.mpr ⟨here, below⟩
  · split
    · refine Fragment.follows_node.mpr ⟨⟨Tags.holds_nil _, fun _ _ member => ?_⟩, fun _ member => ?_⟩
      · exact absurd member List.not_mem_nil
      · exact absurd member List.not_mem_nil
    · next some =>
      dsimp only
      split
      · exact Fragment.follows_node.mpr ⟨here, below⟩
      · next calm =>
        have settled : ∀ child ∈ trimTexts [] children, Settled HoldsTexts child :=
          forall_trimTexts (fun flag _ => settled_withFlag flag) (fun flag _ => settled_withFlag flag)
            (fun info inner value settled text _ => settled_trimmedText info inner value settled text)
            (fun _ _ settled _ => settled) [] children (fun _ member => absurd member List.not_mem_nil)
            (settled_of_mem here.toHolds below)
        refine Fragment.follows_node.mpr ⟨⟨⟨fun closed => ?_, fun child member => ?_⟩, fun same => ?_⟩,
          fun child member => (settled child member).follows⟩
        · rw [List.map_eq_nil_iff.mp (here.closed closed)] at some
          exact absurd rfl some
        · obtain ⟨node, inside, rfl⟩ := List.mem_map.mp member
          exact (settled node inside).noRoot
        · refine absurd ?_ calm
          unfold isWhitespaceSensitive
          rw [show info.kind = .interpolation from same]
          rfl

theorem holdsTexts_normalize {root : Fragment} (tagged : root.Follows tags AsTagged) :
    (normalize root).Follows tags HoldsTexts :=
  holdsTexts_trimText (holdsTexts_splitInterpolations
    (tagged_mergeCdata (tagged_foldConditions (tagged_dropFirstLineFeeds tagged))))

end MarkupFormat.Annotate
