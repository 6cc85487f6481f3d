import MarkupFormat.Proofs.Annotate.Shape
import MarkupFormat.Proofs.Annotate.Survivors
import MarkupFormat.Proofs.Annotate.TextsKept
import MarkupFormat.Proofs.Markup.Elements

/-!
# Preformatted elements

What becomes of a preformatted element with a text and nothing else inside. The line feed after its start tag goes, and
a text that is white space then goes too, as it would in any other node. All other texts stay as they are
(`contains_trimText`), and the white space at their end shows (`contains_classify`). Only an element that touches the
words around it is merged with them, tags and all (`contains_mergeSimpleElements`).
-/

namespace MarkupFormat.Markup

/-- An element whose text is laid out as it is written. -/
structure Element.IsPreformatted (element : Element) : Prop where
  name : element.name = "pre" ∨ element.name = "textarea" ∨ element.name = "listing"
  ns : element.ns = none

/-- How the end tag of an element begins, with its name or without one. -/
def Element.EndTagBegins (element : Element) (tag : List Char) : Prop :=
  tag = "<//".toList ∨ tag = ("</" ++ element.rawName).toList

namespace Element.IsPreformatted

open Annotate (isPreLike isScriptLike isWhitespaceSensitive)

variable {element : Element} (preformatted : element.IsPreformatted)

include preformatted

theorem rawName_eq : element.rawName = element.name := by
  unfold Element.rawName Element.fullName
  rw [preformatted.ns, ite_self]

theorem isPreLike : isPreLike (.element element) = true := by
  have known : ∀ name, name = "pre" ∨ name = "textarea" ∨ name = "listing" →
      "pre".toList.isPrefixOf (Annotate.defaultWhiteSpace name).toList = true := by
    rintro name (rfl | rfl | rfl) <;> decide
  unfold Annotate.isPreLike Annotate.whiteSpaceOf
  dsimp only
  rw [preformatted.ns]
  exact known _ preformatted.name

theorem isScriptLike : isScriptLike (.element element) = false := by
  have known : ∀ name, name = "pre" ∨ name = "textarea" ∨ name = "listing" →
      ["script", "style", "svg:style", "svg:script"].contains name = false ∧
        ["script", "style"].contains name = false := by
    rintro name (rfl | rfl | rfl) <;> decide
  obtain ⟨noFullName, noName⟩ := known _ preformatted.name
  have full : element.fullName = element.name := by
    unfold Element.fullName
    rw [preformatted.ns]
  unfold Annotate.isScriptLike
  dsimp only
  rw [full, noFullName, noName, Bool.and_false]
  rfl

theorem ignoresFirstLineFeed (named : element.tag = .ofElement element.name element.ns) :
    element.tag.ignoresFirstLineFeed = true := by
  have known : ∀ name, name = "pre" ∨ name = "textarea" ∨ name = "listing" →
      (Tag.ofName name).ignoresFirstLineFeed = true := by
    rintro name (rfl | rfl | rfl) <;> rfl
  rw [named, preformatted.ns]
  exact known _ preformatted.name

end Element.IsPreformatted

end MarkupFormat.Markup

namespace MarkupFormat.Markup.Tree

open Annotate (isPreLike)

variable {tree : Tree} {id child : NodeId} {element : Element} {value : String}

/-- White space at the end of preformatted text shows, unless the element does not, and none shows before the text. -/
theorem sensitivity_markSensitivity (numbered : tree.Numbered) (only : tree.children id = [child])
    (kind : tree.kind id = .element element) (text : tree.kind child = .text value)
    (preLike : isPreLike (.element element) = true) (ignores : element.tag.ignoresFirstLineFeed = true) :
    (tree.markSensitivity.node child).flags.leadingSensitive = false ∧ ((tree.node id).display ≠ .none →
      (tree.markSensitivity.node child).flags.trailingSensitive = true) := by
  have split : tree.children id = [] ++ child :: [] := only
  obtain ⟨above, prev, next⟩ : tree.parent? child = some id ∧ tree.prev? child = none ∧ tree.next? child = none :=
    numbered.linked split
  obtain ⟨-, inside⟩ := numbered.later (show child ∈ tree.children id by rw [only]; exact List.mem_singleton_self child)
  have isChild : (tree.node child).parent.isSome = true := by
    rw [show (tree.node child).parent = some id from above]
    rfl
  have notFront : tree.isFrontMatter child = false := by
    unfold isFrontMatter
    rw [text]
  rw [flags_markSensitivity inside]
  refine ⟨?_, fun shown => ?_⟩
  · have ignored : tree.parentIgnoresLineFeed child = true := by
      unfold parentIgnoresLineFeed
      rw [above, Option.map_some, kind]
      exact ignores
    have calm : tree.isLeadingSensitive child = false := by
      unfold isLeadingSensitive
      rw [prev, ignored, text]
      dsimp only
      cases tree.isSensitiveTowards child none <;> rfl
    show ((tree.node child).parent.isSome && tree.agreesLeading child) = false
    unfold agreesLeading
    rw [calm, Bool.false_and, Bool.and_false]
  · have sensitive : tree.isTrailingSensitive child = true := by
      unfold isTrailingSensitive isSensitiveTowards
      rw [next, notFront, if_neg Bool.false_ne_true, Option.any_none, Bool.and_false, if_neg Bool.false_ne_true, above]
      dsimp only
      rw [if_neg shown, kind, if_pos preLike]
    show ((tree.node child).parent.isSome && tree.agreesTrailing child) = true
    unfold agreesTrailing
    rw [isChild, sensitive, next]
    rfl

end MarkupFormat.Markup.Tree

namespace MarkupFormat.Annotate

open Format (Options)
open Markup (Element Flag Fragment NodeId NodeInfo NodeKind Span Tree)
open Markup.Fragment (AnyContains Contains contains_bottomUp contains_mapChildren)
open Text (isMarkupSpace)

variable {element : Element} {start : Span} {cs : List Char} {root fragment : Fragment} {children : List Fragment}

/-! ### Before texts are trimmed -/

/-- The text without a line feed that begins it. -/
def afterLineFeed : List Char → List Char
  | '\n' :: cs => cs
  | cs => cs

/-- Nothing, if the text is empty, or the text with no white space removed around it. -/
def IsText (cs : List Char) (nodes : List Fragment) : Prop :=
  (cs = [] ∧ nodes = []) ∨ ∃ info, nodes = [.node info []] ∧ info.kind = .text (String.ofList cs) ∧
    info.flags.leadingSpaces = false ∧ info.flags.trailingSpaces = false

/-- An element that holds a text. -/
structure HoldsText (element : Element) (start : Span) (cs : List Char) (fragment : Fragment) : Prop where
  kind : fragment.kind = .element element
  starts : fragment.info.startSpan = some start
  inside : IsText cs fragment.children

/-- What can have children. -/
abbrev IsParent (info : NodeInfo) : Prop :=
  info.kind.canHaveChildren = true

theorem isParent_of_holdsText (fragment : Fragment) (holds : HoldsText element start cs fragment) :
    fragment.kind.canHaveChildren = true := by
  rw [holds.kind]
  rfl

/-- A pass finds nothing to do below a text. -/
theorem map_mapChildren_of_isText {change : NodeInfo → List Fragment → List Fragment}
    (none : ∀ info, change info [] = []) (isText : IsText cs children) :
    children.map (·.mapChildren change) = children := by
  obtain ⟨-, rfl⟩ | ⟨info, rfl, -⟩ := isText
  · rfl
  · exact congrArg (fun inner => [Fragment.node info inner]) (none info)

theorem contains_holdsText {change : NodeInfo → List Fragment → List Fragment} {after : List Char}
    (none : ∀ info, change info [] = [])
    (changes : ∀ info children, info.kind = .element element → IsText cs children → IsText after (change info children))
    (keeps : ∀ info children, AnyContains IsParent (HoldsText element start after) children →
      AnyContains IsParent (HoldsText element start after) (change info children))
    (contains : root.Contains IsParent (HoldsText element start cs)) :
    (root.mapChildren change).Contains IsParent (HoldsText element start after) := by
  refine contains_mapChildren (fun info children holds => ?_) keeps contains
  have inside : IsText cs children := holds.inside
  rw [map_mapChildren_of_isText none inside]
  exact ⟨holds.kind, holds.starts, changes info children holds.kind inside⟩

theorem contains_dropFirstLineFeeds (ignores : element.tag.ignoresFirstLineFeed = true)
    (contains : root.Contains IsParent (HoldsText element start cs)) :
    (dropFirstLineFeeds root).Contains IsParent (HoldsText element start (afterLineFeed cs)) := by
  refine contains_holdsText (fun info => ?_) (fun info children kind isText => ?_) (fun info children any => ?_)
    contains
  · split <;> rfl
  · have here : ignoresFirstLineFeed info.kind = true := by
      unfold ignoresFirstLineFeed
      rw [kind]
      exact ignores
    rw [if_pos here]
    obtain ⟨rfl, rfl⟩ | ⟨text, rfl, isText, unspaced⟩ := isText
    · exact .inl ⟨rfl, rfl⟩
    · unfold dropLineFeed
      dsimp only
      rw [isText]
      dsimp only
      rw [String.toList_ofList]
      split
      · exact .inl ⟨rfl, rfl⟩
      · exact .inr ⟨_, rfl, rfl, unspaced⟩
      · next noLine noLines =>
        have same : afterLineFeed cs = cs := by
          unfold afterLineFeed
          split
          · next cs => exact absurd rfl (noLines cs)
          · rfl
        rw [same]
        exact .inr ⟨text, rfl, isText, unspaced⟩
  · split
    · exact anyContains_dropLineFeed (fun _ parent => parent) isParent_of_holdsText any
    · exact any

theorem contains_foldConditions (contains : root.Contains IsParent (HoldsText element start cs)) :
    (foldConditions root).Contains IsParent (HoldsText element start cs) := by
  refine contains_holdsText (fun info => rfl) (fun info children _ isText => ?_) (fun info children any => ?_) contains
  · obtain ⟨-, rfl⟩ | ⟨text, rfl, -⟩ := id isText <;> exact isText
  · refine anyContains_joinConditions (fun _ parent => parent) isParent_of_holdsText
      (fun fragment holds first head => ?_) (fun _ _ _ _ _ _ => rfl) any
    obtain ⟨-, none⟩ | ⟨text, only, isText, -⟩ := holds.inside
    · rw [none] at head
      cases head
    · rw [only] at head
      cases head
      rw [show (Fragment.node text []).kind = _ from isText]
      exact NodeKind.noConfusion

theorem contains_mergeCdata (contains : root.Contains IsParent (HoldsText element start cs)) :
    (mergeCdata root).Contains IsParent (HoldsText element start cs) := by
  refine contains_holdsText (fun info => rfl) (fun info children _ isText => ?_) (fun info children any => ?_) contains
  · have noCdata : children.any isCdata = false := by
      obtain ⟨-, rfl⟩ | ⟨text, rfl, kind, -⟩ := isText
      · rfl
      · rw [List.any_cons, List.any_nil, isCdata, show (Fragment.node text []).kind = _ from kind]
        rfl
    rw [noCdata, if_neg Bool.false_ne_true]
    exact isText
  · split
    · exact anyContains_joinTexts (fun _ parent => parent) isParent_of_holdsText any
    · exact any

theorem contains_splitInterpolations (plain : (textPieces cs).any TextPiece.isExpression = false)
    (contains : root.Contains IsParent (HoldsText element start cs)) :
    (splitInterpolations root).Contains IsParent (HoldsText element start cs) := by
  refine contains_holdsText (fun info => ?_) (fun info children _ isText => ?_) (fun info children any => ?_) contains
  · split <;> rfl
  · have whole : splits info children = false := by
      unfold splits
      obtain ⟨-, rfl⟩ | ⟨text, rfl, kind, -⟩ := isText
      · exact Bool.and_false _
      · rw [List.any_cons, List.any_nil, hasExpression, show (Fragment.node text []).kind = _ from kind]
        dsimp only
        rw [String.toList_ofList, plain]
        exact Bool.and_false _
    rw [whole, if_neg Bool.false_ne_true]
    exact isText
  · split
    · exact anyContains_flatMap_splitText (fun _ parent => parent) isParent_of_holdsText any
    · exact any

/-! ### Trimming texts -/

/-- A node with something inside tells how the white space of its content is treated. -/
structure TellsContent (info : NodeInfo) : Prop where
  parent : info.kind.canHaveChildren = true
  whitespace : info.flags.whitespaceSensitive = isWhitespaceSensitive info.kind
  indentation : info.flags.indentationSensitive = isIndentationSensitive info.kind

/-- An element that keeps its text, or has nothing inside if that is white space. -/
structure KeepsText (element : Element) (start : Span) (cs : List Char) (fragment : Fragment) : Prop where
  kind : fragment.kind = .element element
  starts : fragment.info.startSpan = some start
  blank : cs.all isMarkupSpace = true → fragment.children = []
  text : cs.all isMarkupSpace = false → TellsContent fragment.info ∧ ∃ info, fragment.children = [.node info []] ∧
    info.kind = .text (String.ofList cs) ∧ info.flags.leadingSpaces = false ∧ info.flags.trailingSpaces = false

theorem isParent_of_keepsText (fragment : Fragment) (keeps : KeepsText element start cs fragment) :
    fragment.kind.canHaveChildren = true := by
  rw [keeps.kind]
  rfl

/-- Where white space was removed says nothing about the content. -/
theorem tellsContent_flagged {flag : Flag} (spaces : flag = .leadingSpaces ∨ flag = .trailingSpaces) {info : NodeInfo}
    (tells : TellsContent info) : TellsContent { info with flags := info.flags.add flag } := by
  obtain ⟨parent, whitespace, indentation⟩ := tells
  obtain rfl | rfl := spaces
  · exact ⟨parent, whitespace, indentation⟩
  · exact ⟨parent, whitespace, indentation⟩

theorem contains_withFlag (flag : Flag) (fragment : Fragment) (spaces : flag = .leadingSpaces ∨ flag = .trailingSpaces)
    (contains : fragment.Contains TellsContent (KeepsText element start cs)) :
    (withFlag flag fragment).Contains TellsContent (KeepsText element start cs) := by
  cases contains with
  | here keeps =>
    cases fragment with
    | node info children =>
      exact .here ⟨keeps.kind, keeps.starts, keeps.blank, fun some =>
        ⟨tellsContent_flagged spaces (keeps.text some).1, (keeps.text some).2⟩⟩
  | under tells member inside => exact .under (tellsContent_flagged spaces tells) member inside

theorem map_bottomUp_of_isText (isText : IsText cs children) : children.map (·.bottomUp trimNode) = children := by
  obtain ⟨-, rfl⟩ | ⟨info, rfl, kind, -⟩ := isText
  · rfl
  · have leaf : trimNode info [] = .node info [] := by
      unfold trimNode
      rw [kind]
      rfl
    exact congrArg (fun node => [node]) leaf

theorem keepsText_trimNode (preLike : isPreLike (.element element) = true) {info : NodeInfo}
    (kind : info.kind = .element element) (starts : info.startSpan = some start) (isText : IsText cs children) :
    KeepsText element start cs (trimNode info children) := by
  have parent : (!info.kind.canHaveChildren) = false := by
    rw [kind]
    rfl
  have sensitive : isWhitespaceSensitive info.kind = true := by
    unfold isWhitespaceSensitive
    rw [kind, preLike, Bool.or_true]
  have blank : isBlankContent children = cs.all isMarkupSpace := by
    obtain ⟨rfl, rfl⟩ | ⟨text, rfl, kind, -⟩ := isText
    · rfl
    · unfold isBlankContent
      dsimp only
      rw [show (Fragment.node text []).kind = _ from kind]
      dsimp only
      rw [String.toList_ofList]
  unfold trimNode
  rw [parent, if_neg Bool.false_ne_true, blank, sensitive]
  cases empty : cs.all isMarkupSpace with
  | true => exact ⟨kind, starts, fun _ => rfl, fun some => absurd (some.symm.trans empty) Bool.false_ne_true⟩
  | false =>
    refine ⟨kind, starts, fun none => absurd (empty.symm.trans none) Bool.false_ne_true, fun _ => ⟨⟨?_, ?_, rfl⟩, ?_⟩⟩
    · rw [kind]
      rfl
    · exact sensitive.symm
    · obtain ⟨rfl, -⟩ | text := isText
      · cases empty
      · exact text

theorem contains_trimText (preLike : isPreLike (.element element) = true)
    (contains : root.Contains IsParent (HoldsText element start cs)) :
    (trimText root).Contains TellsContent (KeepsText element start cs) := by
  refine contains_bottomUp (fun fragment holds => ?_) (fun info children parent any => ?_) contains
  · cases fragment with
    | node info children =>
      have inside : IsText cs children := holds.inside
      rw [Fragment.bottomUp, Markup.Fragment.bottomUpAll_eq_map, map_bottomUp_of_isText inside]
      exact keepsText_trimNode preLike holds.kind holds.starts inside
  · have outer : ∀ info, TellsContent info → info.kind.canHaveChildren = true := fun _ tells => tells.parent
    have content := isBlankContent_of_anyContains outer isParent_of_keepsText any
    have trimmed : AnyContains TellsContent (KeepsText element start cs) (trimTexts [] children) :=
      anyContains_trimTexts outer isParent_of_keepsText contains_withFlag (.inr any)
    obtain ⟨child, member, inside⟩ : AnyContains TellsContent (KeepsText element start cs)
        (if isWhitespaceSensitive info.kind then children else trimTexts [] children) := by
      split
      · exact any
      · exact trimmed
    unfold trimNode
    rw [show info.kind.canHaveChildren = true from parent, Bool.not_true, if_neg Bool.false_ne_true, content,
      if_neg Bool.false_ne_true]
    exact .under ⟨parent, rfl, rfl⟩ member inside

/-! ### Classified trees -/

variable {source : String} {options : Options}

/-- An element that keeps its text, at the end of which white space shows. -/
structure ShowsText (element : Element) (start : Span) (cs : List Char) (fragment : Fragment) : Prop
    extends KeepsText element start cs fragment where
  sensitive : ∀ child ∈ fragment.children, child.info.flags.leadingSensitive = false ∧
    (fragment.info.display ≠ .none → child.info.flags.trailingSensitive = true)

/-- What classifying does not change. -/
def told (info : NodeInfo) : NodeKind × Option Span × Bool × Bool × Bool × Bool :=
  (info.kind, info.startSpan, info.flags.whitespaceSensitive, info.flags.indentationSensitive,
    info.flags.leadingSpaces, info.flags.trailingSpaces)

theorem told_classify (source : String) (options : Options) {id : NodeId} {fragment : Fragment}
    (at_id : root.preorder[id]? = some fragment) :
    told ((classify source options root).node id).toNodeInfo = told fragment.info := by
  have displays (tree : Tree) :
      told ((tree.resolveDisplays options.sensitivity).node id).toNodeInfo = told (tree.node id).toNodeInfo :=
    Tree.mapNodes_keeps (fun node => told node.toNodeInfo) fun _ _ => rfl
  have closings (tree : Tree) : told (tree.markSelfClosing.node id).toNodeInfo = told (tree.node id).toNodeInfo :=
    Tree.mapNodes_keeps (fun node => told node.toNodeInfo) fun _ _ => rfl
  have spaces (tree : Tree) : told (tree.markSensitivity.node id).toNodeInfo = told (tree.node id).toNodeInfo :=
    Tree.mapNodes_keeps (fun node => told node.toNodeInfo) fun _ _ => rfl
  unfold classify
  rw [spaces, closings, displays, Tree.info_ofRoot at_id]

theorem children_classify (id : NodeId) :
    (classify source options root).children id = (Tree.ofRoot source root).children id := by
  unfold classify
  rw [Tree.children_markSensitivity, Tree.markSelfClosing, Tree.children_mapNodes Tree.keepsPlaces_markSelfClosing,
    Tree.resolveDisplays, Tree.children_mapNodes (Tree.keepsPlaces_resolveDisplays _ _)]

theorem tellsContent_of_told {info other : NodeInfo} (same : told info = told other) (tells : TellsContent other) :
    TellsContent info := by
  simp only [told, Prod.mk.injEq] at same
  obtain ⟨kind, -, whitespace, indentation, -, -⟩ := same
  obtain ⟨parent, tellsWhitespace, tellsIndentation⟩ := tells
  refine ⟨?_, ?_, ?_⟩ <;> rw [kind]
  · exact parent
  · rw [whitespace, tellsWhitespace]
  · rw [indentation, tellsIndentation]

theorem sensitivity_classify (preLike : isPreLike (.element element) = true)
    (ignores : element.tag.ignoresFirstLineFeed = true) {id child : NodeId} {value : String}
    (only : (classify source options root).children id = [child])
    (kind : (classify source options root).kind id = .element element)
    (text : (classify source options root).kind child = .text value) :
    ((classify source options root).node child).flags.leadingSensitive = false ∧
      (((classify source options root).node id).display ≠ .none →
        ((classify source options root).node child).flags.trailingSensitive = true) := by
  obtain ⟨before, numbered, marked⟩ :
      ∃ before : Tree, before.Numbered ∧ before.markSensitivity = classify source options root :=
    ⟨_, Tree.numbered_mapNodes Tree.keepsPlaces_markSelfClosing
      (Tree.numbered_mapNodes (Tree.keepsPlaces_resolveDisplays _ _) (Tree.numbered_ofRoot source root)), rfl⟩
  rw [← marked] at only kind text ⊢
  have display : (before.markSensitivity.node id).display = (before.node id).display :=
    Tree.mapNodes_keeps (fun node => node.display) fun _ _ => rfl
  rw [display]
  exact Tree.sensitivity_markSensitivity numbered ((Tree.children_markSensitivity before id).symm.trans only)
    ((Tree.kind_markSensitivity before id).symm.trans kind)
    ((Tree.kind_markSensitivity before child).symm.trans text) preLike ignores

theorem showsText_classify (preLike : isPreLike (.element element) = true)
    (ignores : element.tag.ignoresFirstLineFeed = true) {id : NodeId} {depth : Nat} {fragment : Fragment}
    (at_id : root.preorder[id]? = some fragment) (keeps : KeepsText element start cs fragment)
    (deep : (classify source options root).size ≤ depth + id) :
    ShowsText element start cs
      ((classify source options root).gather ((classify source options root).outlineTo depth id)) := by
  have same := told_classify source options at_id
  have here := same
  simp only [told, Prod.mk.injEq] at here
  obtain ⟨sameKind, sameStart, -⟩ := here
  have kind := sameKind.trans keeps.kind
  have starts := sameStart.trans keeps.starts
  cases blank : cs.all isMarkupSpace with
  | true =>
    have childless : (classify source options root).children id = [] := by
      rw [children_classify, Tree.children_ofRoot at_id, keeps.blank blank]
      rfl
    rw [Tree.gather_leaf childless]
    exact ⟨⟨kind, starts, fun _ => rfl, fun some => absurd (blank.symm.trans some) (by decide)⟩,
      fun _ member => absurd member List.not_mem_nil⟩
  | false =>
    obtain ⟨tells, info, children, isText, unspaced⟩ := keeps.text blank
    obtain ⟨fragmentInfo, _⟩ := fragment
    obtain rfl : _ = [Fragment.node info []] := children
    obtain ⟨child, isChild, at_child⟩ := Tree.exists_mem_children_ofRoot source at_id
      (List.mem_singleton_self _)
    have only : (classify source options root).children id = [child] := by
      rw [Tree.children_ofRoot at_id] at isChild
      rw [children_classify, Tree.children_ofRoot at_id, List.mem_singleton.mp isChild]
      rfl
    have childless : (classify source options root).children child = [] := by
      rw [children_classify, Tree.children_ofRoot at_child]
      rfl
    obtain ⟨later, inside⟩ := (Tree.numbered_ofRoot source root).later isChild
    have there := told_classify source options at_child
    simp only [told, Prod.mk.injEq] at there
    obtain ⟨sameChildKind, -, -, -, leading, trailing⟩ := there
    have kindChild := sameChildKind.trans isText
    have sensitivity := sensitivity_classify preLike ignores only kind kindChild
    cases depth with
    | zero =>
      rw [size_classify, Nat.zero_add] at deep
      rw [Tree.size_ofRoot] at inside
      exact absurd (later.trans inside) (Nat.not_lt_of_le deep)
    | succ depth =>
      rw [Tree.gather_only only childless]
      have tells := tellsContent_of_told same tells
      generalize classify source options root = tree at *
      exact ⟨⟨kind, starts, fun all => absurd (all.symm.trans blank) (by decide), fun _ =>
        ⟨tells, _, rfl, kindChild, leading.trans unspaced.1, trailing.trans unspaced.2⟩⟩,
        List.forall_mem_singleton.mpr sensitivity⟩

theorem contains_classify (preLike : isPreLike (.element element) = true)
    (ignores : element.tag.ignoresFirstLineFeed = true)
    (contains : root.Contains TellsContent (KeepsText element start cs)) :
    (classify source options root).toFragment.Contains TellsContent (ShowsText element start cs) := by
  have first : root.preorder[Tree.rootId]? = some root := by
    rw [Fragment.preorder_eq_cons]
    rfl
  exact Tree.contains_gather (size_classify source options root) children_classify
    (fun id fragment at_id tells => tellsContent_of_told (told_classify source options at_id) tells)
    (fun id fragment depth at_id keeps deep => showsText_classify preLike ignores at_id keeps deep) contains first
    (Nat.le_add_right _ _)

/-! ### Merging -/

/-- A node with a text that holds the text of an element between its tags. -/
structure HoldsMerged (element : Element) (cs : List Char) (fragment : Fragment) : Prop where
  tells : TellsContent fragment.info
  unbroken : ∀ c ∈ cs, isMarkupSpace c = false
  text : ∃ text ∈ fragment.children, ∃ value, text.kind = .text value ∧
    ∃ tag, element.EndTagBegins tag ∧ '>' :: (cs ++ tag) <:+: value.toList

/-- What becomes of an element that shows its text. -/
abbrev Outlives (element : Element) (start : Span) (cs : List Char) (fragment : Fragment) : Prop :=
  ShowsText element start cs fragment ∨ HoldsMerged element cs fragment

theorem isParent_of_outlives (fragment : Fragment) (outlives : Outlives element start cs fragment) :
    fragment.kind.canHaveChildren = true :=
  outlives.elim (fun shows => isParent_of_keepsText fragment shows.toKeepsText) fun holds => holds.tells.parent

theorem endTagText_begins (source : List Char) (element : Element) (endSpan : Option Span) :
    ∃ tag, element.EndTagBegins tag ∧ tag <+: (endTagText source element endSpan).toList := by
  have named : ("</" ++ element.rawName).toList <+: ("</" ++ element.rawName ++ ">").toList := by
    rw [String.toList_append (s := "</" ++ element.rawName)]
    exact List.prefix_append _ _
  unfold endTagText
  split
  · split
    · exact ⟨_, .inl rfl, by decide⟩
    · exact ⟨_, .inr rfl, named⟩
  · exact ⟨_, .inr rfl, named⟩

theorem infix_mergedText? {source : List Char} {before fragment after text : Fragment}
    (merged : mergedText? source before fragment after = some text) :
    ∃ e only inner value, fragment.kind = .element e ∧ fragment.children = [only] ∧ only.kind = .text inner ∧
      (∀ c ∈ inner.toList, isMarkupSpace c = false) ∧ text.kind = .text value ∧
      ∃ tag, e.EndTagBegins tag ∧ '>' :: (inner.toList ++ tag) <:+: value.toList := by
  unfold mergedText? at merged
  obtain ⟨⟨e, inner⟩, simple, merged⟩ := Option.bind_eq_some_iff.mp merged
  obtain ⟨only, isElement, children, isInner, unbroken⟩ := simpleElement?_spec simple
  dsimp only at merged
  split at merged
  · next first isFirst =>
    split at merged
    · next last isLast =>
      cases merged
      obtain ⟨tag, begins, rest, same⟩ := endTagText_begins source e fragment.info.endSpan
      refine ⟨e, only, inner, _, isElement, children, isInner, fun c member => ?_, rfl, tag, begins, ?_⟩
      · exact Bool.eq_false_iff.mpr fun space => Bool.false_ne_true (unbroken.symm.trans
          (List.any_eq_true.mpr ⟨c, member, space⟩))
      · refine ⟨(first ++ "<" ++ e.rawName).toList, rest ++ last.toList, ?_⟩
        simp [String.toList_append, ← same]
    · cases merged
  · cases merged

/-- An element that has a text and nothing else is left as it is, before its neighbours are looked at. -/
theorem mergeSimpleElements_of_isText (source : List Char) (info : NodeInfo) {children : List Fragment}
    (isText : IsText cs children) : mergeSimpleElements source (.node info children) = .node info children := by
  rw [mergeSimpleElements_node]
  obtain ⟨-, rfl⟩ | ⟨text, rfl, -⟩ := isText
  · rfl
  · rw [List.map_singleton, mergeSimpleElements_node]
    rfl

theorem contains_mergeSimpleElements (source : List Char)
    (contains : root.Contains TellsContent (ShowsText element start cs)) :
    (mergeSimpleElements source root).Contains TellsContent (Outlives element start cs) := by
  refine Markup.Fragment.contains_bottomUp (fun fragment shows => .inl ?_) (fun info children tells any => ?_) contains
  · obtain ⟨info, children⟩ := fragment
    obtain ⟨ds, isText⟩ : ∃ ds, IsText ds children := by
      cases blank : cs.all isMarkupSpace with
      | true => exact ⟨[], .inl ⟨rfl, shows.blank blank⟩⟩
      | false => exact ⟨cs, .inr (shows.text blank).2⟩
    have same := mergeSimpleElements_of_isText source info isText
    unfold mergeSimpleElements Fragment.mapChildren at same
    rwa [same]
  · have outer : ∀ info, TellsContent info → info.kind.canHaveChildren = true := fun _ tells => tells.parent
    obtain ⟨child, member, inside⟩ | ⟨text, member, before, merging, after, inside, merged⟩ :=
      anyContains_mergeSimple outer isParent_of_outlives source any
    · exact .under tells member inside
    · obtain ⟨e, only, inner, value, isElement, children, isInner, unbroken, isText, tag, begins, within⟩ :=
        infix_mergedText? merged
      refine .here (.inr ?_)
      cases inside with
      | here outlives =>
        obtain shows | holds := outlives
        · obtain rfl := NodeKind.element.inj (isElement.symm.trans shows.kind)
          cases blank : cs.all isMarkupSpace with
          | true =>
            have none := shows.blank blank
            rw [children] at none
            cases none
          | false =>
            obtain ⟨-, info, isOnly, kind, -⟩ := shows.text blank
            obtain rfl := List.head_eq_of_cons_eq (children.symm.trans isOnly)
            obtain rfl := NodeKind.text.inj (isInner.symm.trans kind)
            rw [String.toList_ofList] at unbroken within
            exact ⟨tells, unbroken, text, member, value, isText, tag, begins, within⟩
        · obtain ⟨other, isOther, otherValue, otherText, otherTag, otherBegins, otherWithin⟩ := holds.text
          rw [children] at isOther
          obtain rfl := List.mem_singleton.mp isOther
          obtain rfl := NodeKind.text.inj (isInner.symm.trans otherText)
          refine ⟨tells, holds.unbroken, text, member, value, isText, otherTag, otherBegins, otherWithin.trans ?_⟩
          exact (List.infix_cons (List.prefix_append inner.toList tag).isInfix).trans within
      | @under info inner child _ isChild inside =>
        obtain rfl : inner = [only] := children
        obtain rfl := List.mem_singleton.mp isChild
        exact absurd isInner (isText_of_contains outer isParent_of_outlives inside _)

/-! ### From the source to the annotated tree -/

theorem any_consPiece (c : Char) (pieces : List TextPiece) :
    (consPiece c pieces).any TextPiece.isExpression = pieces.any TextPiece.isExpression := by
  unfold consPiece
  split <;> rfl

theorem any_textPieces_eq_false (plain : ¬ ['{', '{'] <:+: cs) :
    (textPieces cs).any TextPiece.isExpression = false := by
  fun_induction textPieces cs with
  | case1 => rfl
  | case2 c cs inner rest found ih =>
    rw [append_of_expression? found] at plain
    exact absurd ⟨[], inner ++ ['}', '}'] ++ rest, by simp [TextPiece.chars]⟩ plain
  | case3 c cs _ ih =>
    rw [any_consPiece]
    exact ih fun inside => plain (List.infix_cons inside)

/-- A preformatted element as it is read, with nothing inside but a text without expressions. -/
structure IsPlain (element : Element) (start : Span) (cs : List Char) (node : Fragment) : Prop where
  kind : node.kind = .element element
  preformatted : element.IsPreformatted
  starts : node.info.startSpan = some start
  text : (cs = [] ∧ node.children = []) ∨ node.children.map Fragment.kind = [.text (String.ofList cs)]
  plain : ¬ ['{', '{'] <:+: cs

variable {content : List Fragment}

theorem ignoresFirstLineFeed_of_isPlain (read : Markup.readSource {} source.toList = .ok content) {node : Fragment}
    (member : node ∈ Fragment.preorderAll content) (plain : IsPlain element start cs node) :
    element.tag.ignoresFirstLineFeed = true := by
  have named : ∀ node ∈ content,
      node.ElementsSay fun _ element => element.tag = .ofElement element.name element.ns :=
    Markup.elementsSay_of_readSource (fun _ _ _ => rfl) read
  have all := Fragment.follows_of_mem_preorderAll content (Fragment.allFollow_iff.mpr named) member
  obtain ⟨info, children⟩ := node
  obtain ⟨_, -, here⟩ := (Fragment.follows_node.mp all).1 element plain.kind
  exact plain.preformatted.ignoresFirstLineFeed here

theorem contains_rootOver (read : Markup.readSource {} source.toList = .ok content) {node : Fragment}
    (member : node ∈ Fragment.preorderAll content) (plain : IsPlain element start cs node) :
    (rootOver source content).Contains IsParent (HoldsText element start cs) := by
  have laid : (rootOver source content).Follows NodeInfo.spacing (Laid source.toList) := laid_root read rfl rfl rfl
  have kinds : (rootOver source content).Follows NodeInfo.spacing fun node children =>
      Markup.Fragment.Rooted node.kind (children.map Markup.Spacing.kind) :=
    laid.imp fun _ _ laid leaf => List.map_eq_nil_iff.mpr (laid.leaf leaf)
  have rooted : (rootOver source content).Follows (fun info => info.spacing.kind) Markup.Fragment.Rooted :=
    Fragment.follows_comp.mpr kinds
  have inside : node ∈ (rootOver source content).preorder := List.mem_cons_of_mem _ member
  refine Markup.Fragment.contains_of_mem_preorder ⟨plain.kind, plain.starts, ?_⟩ _ rooted inside
  obtain none | text := plain.text
  · exact .inl none
  · obtain ⟨⟨info, below⟩, only, kind⟩ := List.map_eq_singleton_iff.mp text
    obtain ⟨nodeInfo, children⟩ := node
    obtain rfl : children = [.node info below] := only
    have here := Fragment.follows_of_mem_preorder _ laid inside
    obtain ⟨child, -⟩ := (Fragment.follows_node.mp here).2 _ (List.mem_singleton_self _)
    have leaf : below = [] := List.map_eq_nil_iff.mp (child.leaf (by rw [show info.spacing.kind = _ from kind]; rfl))
    exact .inr ⟨info, by rw [leaf]; rfl, kind, child.unspaced⟩

theorem afterLineFeed_suffix (cs : List Char) : afterLineFeed cs <:+ cs := by
  unfold afterLineFeed
  split
  · exact List.suffix_cons ..
  · exact List.suffix_rfl

theorem contains_finish (read : Markup.readSource {} source.toList = .ok content) (options : Options) {node : Fragment}
    (member : node ∈ Fragment.preorderAll content) (plain : IsPlain element start cs node) :
    (finish source options (normalize (rootOver source content))).Contains TellsContent
      (Outlives element start (afterLineFeed cs)) := by
  have ignores := ignoresFirstLineFeed_of_isPlain read member plain
  have preLike := plain.preformatted.isPreLike
  have whole := any_textPieces_eq_false fun inside => plain.plain (inside.trans (afterLineFeed_suffix cs).isInfix)
  have joined := contains_mergeCdata (contains_foldConditions
    (contains_dropFirstLineFeeds ignores (contains_rootOver read member plain)))
  have normal := contains_trimText preLike (contains_splitInterpolations whole joined)
  exact contains_mergeSimpleElements source.toList (contains_classify preLike ignores normal)

end MarkupFormat.Annotate
