import MarkupFormat.Proofs.Annotate.Passes
import MarkupFormat.Proofs.Annotate.Spaces
import MarkupFormat.Proofs.Markup.TextsRead

/-!
# Texts of annotated trees

Every pass over a tree leaves its texts made up of the characters of the source, one lemma for each pass. Only where
character data or a simple element becomes part of a text, the characters of its delimiters or tags are added; no
carriage return is among them. `textsIn_of_annotate` says so of the tree that is printed.
-/

namespace MarkupFormat.Annotate

open Format (Options)
open Markup (Fragment NodeId NodeInfo NodeKind Tree)
open Text (Admits Within)

variable {p : Char → Prop}

theorem textsIn_text {value : String} : NodeKind.TextsIn p (.text value) ↔ Within p value.toList :=
  List.forall_mem_singleton

theorem textsIn_kind {fragment : Fragment} (texts : fragment.TextsIn p) : fragment.kind.TextsIn p := by
  cases fragment with
  | node info children => exact (Fragment.follows_node.mp texts).1

/-! ### Passes over the children of nodes -/

theorem textsIn_dropFirstLineFeeds {fragment : Fragment} (texts : fragment.TextsIn p) :
    (dropFirstLineFeeds fragment).TextsIn p := by
  refine follows_mapChildren_alone (fun info children below => ?_) texts
  split
  · refine forall_dropLineFeed (fun info inner value cs isText begins node => ?_) below
    obtain ⟨here, below⟩ := Fragment.follows_node.mp node
    rw [isText, textsIn_text, begins] at here
    have left : Within p cs := (List.forall_mem_cons.mp here).2
    exact Fragment.follows_node.mpr ⟨textsIn_text.mpr (Text.within_ofList left), below⟩
  · exact below

theorem textsIn_withCondition? {before element joined : Fragment} (first : before.TextsIn p)
    (second : element.TextsIn p) (found : withCondition? before element = some joined) : joined.TextsIn p := by
  obtain ⟨condition, e, startSpan, finish, inner, starts, isElement, _, children, _, _, _, rfl⟩ :=
    withCondition?_eq_some found
  cases before with
  | node info below =>
  cases element with
  | node elementInfo elementChildren =>
  obtain rfl : elementChildren = finish :: inner := children
  obtain ⟨own, _⟩ := Fragment.follows_node.mp first
  obtain ⟨here, inside⟩ := Fragment.follows_node.mp second
  rw [show info.kind = .conditionalStart condition from starts] at own
  rw [show elementInfo.kind = .element e from isElement] at here
  obtain ⟨name, ns, _, attributes⟩ := Markup.Element.textsIn_iff.mp here
  refine Fragment.follows_node.mpr ⟨Markup.Element.textsIn_iff.mpr ⟨name, ns, ?_, attributes⟩,
    fun child member => inside child (List.mem_cons_of_mem _ member)⟩
  rintro _ ⟨⟩
  exact own condition List.mem_cons_self

theorem textsIn_foldConditions {fragment : Fragment} (texts : fragment.TextsIn p) :
    (foldConditions fragment).TextsIn p :=
  follows_mapChildren_alone (fun _ children below => forall_joinConditions children
    (fun _ _ _ found first second => textsIn_withCondition? first second found) below) texts

theorem within_textOf? (admits : Admits p) {kind : NodeKind} {value : String} (texts : kind.TextsIn p)
    (found : textOf? kind = some value) : Within p value.toList := by
  cases kind with
  | text _ =>
    cases found
    exact textsIn_text.mp texts
  | cdata inner =>
    cases found
    have opening : Within p "<![CDATA[".toList := Text.within_of_clean admits (by decide)
    have closing : Within p "]]>".toList := Text.within_of_clean admits (by decide)
    have inside : Within p inner.toList := texts inner List.mem_cons_self
    exact Text.within_string_append (Text.within_string_append opening inside) closing
  | _ => cases found

theorem textsIn_mergeCdata (admits : Admits p) {fragment : Fragment} (texts : fragment.TextsIn p) :
    (mergeCdata fragment).TextsIn p := by
  have own {info : NodeInfo} {inner : List Fragment} {value : String} (found : textOf? info.kind = some value)
      (node : (Fragment.node info inner).TextsIn p) : Within p value.toList :=
    within_textOf? admits (Fragment.follows_node.mp node).1 found
  refine follows_mapChildren_alone (fun info children below => ?_) texts
  split
  · refine forall_joinTexts children (fun info inner value found node => ?_)
      (fun info inner value next _ more found isText node after => ?_) below
    · exact Fragment.follows_node.mpr ⟨textsIn_text.mpr (own found node), (Fragment.follows_node.mp node).2⟩
    · have here := (Fragment.follows_node.mp after).1
      rw [isText, textsIn_text] at here
      exact Fragment.follows_node.mpr ⟨textsIn_text.mpr (Text.within_string_append (own found node) here),
        (Fragment.follows_node.mp node).2⟩
  · exact below

/-! ### Interpolations -/

theorem textsIn_piece {piece : TextPiece} {start : Nat} (within : Within p piece.chars) :
    (piece.node start).TextsIn p := by
  cases piece with
  | text cs => exact Markup.textsIn_textLeaf within
  | expression cs =>
    have inside : Within p cs := (List.forall_mem_append.mp (List.forall_mem_append.mp within).2).1
    exact Fragment.follows_node.mpr ⟨fun _ member => absurd member List.not_mem_nil,
      List.forall_mem_singleton.mpr (Markup.textsIn_textLeaf inside)⟩

theorem textsIn_pieces {pieces : List TextPiece} {start : Nat} (within : Within p (TextPiece.allChars pieces)) :
    ∀ node ∈ TextPiece.nodes start pieces, node.TextsIn p := by
  induction pieces generalizing start with
  | nil => exact fun _ member => absurd member List.not_mem_nil
  | cons piece pieces ih =>
    obtain ⟨first, others⟩ := List.forall_mem_append.mp within
    exact List.forall_mem_cons.mpr ⟨textsIn_piece first, ih others⟩

theorem textsIn_splitText {fragment : Fragment} (texts : fragment.TextsIn p) :
    ∀ node ∈ splitText fragment, node.TextsIn p := by
  unfold splitText
  split
  · next value isText =>
    have here := textsIn_kind texts
    rw [isText, textsIn_text] at here
    refine textsIn_pieces ?_
    rwa [allChars_textPieces]
  · exact List.forall_mem_singleton.mpr texts

theorem textsIn_splitInterpolations {fragment : Fragment} (texts : fragment.TextsIn p) :
    (splitInterpolations fragment).TextsIn p := by
  refine follows_mapChildren_alone (fun info children below node member => ?_) texts
  split at member
  · obtain ⟨child, inside, member⟩ := List.mem_flatMap.mp member
    exact textsIn_splitText (below child inside) node member
  · exact below node member

/-! ### Trimming -/

theorem textsIn_trimText {fragment : Fragment} (texts : fragment.TextsIn p) : (trimText fragment).TextsIn p := by
  refine follows_trimText_alone (fun _ _ => rfl) (fun info inner value isText node => ?_) texts
  obtain ⟨here, below⟩ := Fragment.follows_node.mp node
  rw [isText, textsIn_text] at here
  have trimmed := Text.within_ofList (here.subset (Text.dropEnds_subset Text.isMarkupSpace value.toList))
  exact Fragment.follows_node.mpr ⟨textsIn_text.mpr trimmed, below⟩

theorem textsIn_normalize (admits : Admits p) {root : Fragment} (texts : root.TextsIn p) :
    (normalize root).TextsIn p :=
  textsIn_trimText (textsIn_splitInterpolations (textsIn_mergeCdata admits
    (textsIn_foldConditions (textsIn_dropFirstLineFeeds texts))))

/-! ### Merging -/

variable {source : List Char} {options : Options}

theorem simpleElement?_spec {fragment : Fragment} {element : Markup.Element} {inner : String}
    (found : simpleElement? fragment = some (element, inner)) :
    ∃ only, fragment.kind = .element element ∧ fragment.children = [only] ∧ only.kind = .text inner ∧
      inner.toList.any Text.isMarkupSpace = false := by
  unfold simpleElement? at found
  split at found
  · next isElement children =>
    split at found
    · next isText =>
      split at found
      · next simple =>
        cases found
        simp only [Bool.and_eq_true, Bool.not_eq_true'] at simple
        exact ⟨_, isElement, children, isText, simple.1.1.1.1.2⟩
      · cases found
    · cases found
  · cases found

theorem within_endTagText (admits : Admits p) {element : Markup.Element} (name : Within p element.rawName.toList)
    (endSpan : Option Markup.Span) : Within p (endTagText source element endSpan).toList := by
  have opening : Within p "</".toList := Text.within_of_clean admits (by decide)
  have closing : Within p ">".toList := Text.within_of_clean admits (by decide)
  have named := Text.within_string_append (Text.within_string_append opening name) closing
  unfold endTagText
  split
  · split
    · exact Text.within_of_clean admits (by decide)
    · exact named
  · exact named

theorem textsIn_mergedText? (admits : Admits p) {before fragment after text : Fragment} (first : before.TextsIn p)
    (second : fragment.TextsIn p) (third : after.TextsIn p)
    (merged : mergedText? source before fragment after = some text) : text.TextsIn p := by
  unfold mergedText? at merged
  obtain ⟨⟨element, inner⟩, simple, merged⟩ := Option.bind_eq_some_iff.mp merged
  obtain ⟨only, isElement, children, isInner, -⟩ := simpleElement?_spec simple
  dsimp only at merged
  split at merged
  · next opening isFirst =>
    split at merged
    · next closing isLast =>
      cases merged
      have start : Within p opening.toList := by simpa only [isFirst, textsIn_text] using textsIn_kind first
      have stop : Within p closing.toList := by simpa only [isLast, textsIn_text] using textsIn_kind third
      have name : Within p element.rawName.toList := by
        refine Markup.Element.within_rawName admits ?_
        have here := textsIn_kind second
        rwa [isElement] at here
      have inside : Within p inner.toList := by
        cases fragment with
        | node info below =>
          obtain rfl : below = [only] := children
          have here := textsIn_kind ((Fragment.follows_node.mp second).2 only List.mem_cons_self)
          rwa [isInner, textsIn_text] at here
      have less : Within p "<".toList := Text.within_of_clean admits (by decide)
      have greater : Within p ">".toList := Text.within_of_clean admits (by decide)
      have tag := Text.within_string_append (Text.within_string_append (Text.within_string_append start less) name)
        greater
      have content := Text.within_string_append tag inside
      have endTag : Within p (endTagText source element fragment.info.endSpan).toList :=
        within_endTagText admits name fragment.info.endSpan
      have ended := Text.within_string_append content endTag
      exact Fragment.follows_node.mpr ⟨textsIn_text.mpr (Text.within_string_append ended stop),
        fun _ member => absurd member List.not_mem_nil⟩
    · cases merged
  · cases merged

theorem textsIn_mergeSimple (admits : Admits p) {nodes : List Fragment} (texts : ∀ node ∈ nodes, node.TextsIn p) :
    ∀ node ∈ mergeSimple source nodes, node.TextsIn p := by
  fun_induction mergeSimple source nodes with
  | case1 before fragment after rest text merged ih =>
    simp only [List.forall_mem_cons] at texts
    obtain ⟨first, second, third, rest⟩ := texts
    exact List.forall_mem_cons.mpr ⟨textsIn_mergedText? admits first second third merged, ih rest⟩
  | case2 before fragment after rest _ ih =>
    obtain ⟨first, others⟩ := List.forall_mem_cons.mp texts
    exact List.forall_mem_cons.mpr ⟨first, ih others⟩
  | case3 nodes => exact texts

theorem textsIn_mergeSimpleElements (admits : Admits p) {fragment : Fragment} (texts : fragment.TextsIn p) :
    (mergeSimpleElements source fragment).TextsIn p :=
  follows_mapChildren_alone (fun _ _ below => textsIn_mergeSimple admits below) texts

/-! ### Annotated trees -/

theorem obeys_kind_classify {rule : NodeKind → List NodeKind → Prop} (source : String) (options : Options)
    {root : Fragment} (follows : root.Follows NodeInfo.kind rule) :
    (classify source options root).Obeys NodeInfo.kind rule :=
  Tree.obeys_mapNodes (Tree.keepsPlaces_markSensitivity _) (fun _ _ => rfl)
    (Tree.obeys_mapNodes Tree.keepsPlaces_markSelfClosing (fun _ _ => rfl)
      (Tree.obeys_mapNodes (Tree.keepsPlaces_resolveDisplays _ _) (fun _ _ => rfl)
        (Tree.obeys_ofRoot source follows)))

theorem textsIn_finish {source : String} (admits : Admits p) {root : Fragment} (texts : root.TextsIn p) :
    (finish source options root).TextsIn p := by
  have classified : (classify source options root).toFragment.TextsIn p := by
    refine Tree.follows_toFragment (numbered_classify source options root)
      (obeys_kind_classify source options texts) ?_
    rw [size_classify]
    exact size_pos root
  unfold finish
  exact textsIn_mergeSimpleElements admits classified

theorem textsIn_ofRoot (source : String) {root : Fragment} (texts : root.TextsIn p) :
    ∀ id, ((Tree.ofRoot source root).kind id).TextsIn p := by
  intro id
  by_cases inside : id < (Tree.ofRoot source root).size
  · exact Tree.obeys_ofRoot source texts id inside
  · unfold Tree.kind
    rw [Tree.node_of_size_le (Nat.le_of_not_lt inside)]
    exact fun _ member => absurd member List.not_mem_nil

/-- The texts of an annotated tree are made up of the characters of the source. -/
theorem textsIn_of_annotate (admits : Admits p) {source : String} {annotated : Annotated}
    (within : Within p (Text.normalizeLineEndings source).toList) (ok : annotate source options = .ok annotated) :
    ∀ id, (annotated.tree.kind id).TextsIn p := by
  obtain ⟨content, read, same⟩ := exists_content ok
  have texts : (rootOver (Text.normalizeLineEndings source) content).TextsIn p :=
    Fragment.follows_node.mpr ⟨fun _ member => absurd member List.not_mem_nil,
      Markup.textsIn_of_readSource admits within read⟩
  -- The trees are named, as no pass has to be unfolded any more.
  generalize rootOver (Text.normalizeLineEndings source) content = root at same texts
  have normal : (normalize root).TextsIn p := textsIn_normalize admits texts
  generalize normalize root = normalized at same normal
  rw [same]
  exact textsIn_ofRoot (Text.normalizeLineEndings source) (textsIn_finish admits normal)

end MarkupFormat.Annotate
