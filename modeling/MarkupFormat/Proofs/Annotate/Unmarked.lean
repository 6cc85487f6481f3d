import MarkupFormat.Annotate.Annotated
import MarkupFormat.Proofs.Annotate.Passes

/-!
# Nodes before they are classified

A node is read without flags, and the steps that make trees normal flag nothing but removed white space. So until a tree
is classified no node tells that white space around it shows (`unmarked_normalize`).
-/

namespace MarkupFormat.Markup

/-- No flag tells that white space shows. -/
structure Flags.Unmarked (flags : Flags) : Prop where
  leading : flags.leadingSensitive = false
  trailing : flags.trailingSensitive = false
  dangling : flags.danglingSensitive = false

/-- No node of a tree tells that white space shows. -/
abbrev Fragment.Unmarked (fragment : Fragment) : Prop :=
  fragment.Follows NodeInfo.flags fun flags _ => flags.Unmarked

theorem Flags.unmarked_default : ({} : Flags).Unmarked :=
  ⟨rfl, rfl, rfl⟩

theorem Fragment.unmarked_leaf (kind : NodeKind) (span : Span) : (Fragment.leaf kind span).Unmarked :=
  Fragment.follows_leaf.mpr Flags.unmarked_default

namespace OpenElements

/-- No node inside of the open elements or outside of them tells that white space shows. -/
structure Unmarked (opened : OpenElements) : Prop where
  nodes : ∀ node ∈ opened.nodes, node.Unmarked
  stack : ∀ element ∈ opened.stack, ∀ child ∈ element.children, child.Unmarked

variable {opened after : OpenElements}

theorem unmarked_empty : Unmarked {} :=
  ⟨nofun, nofun⟩

theorem unmarked_add {node : Fragment} (unmarked : opened.Unmarked) (here : node.Unmarked) :
    (opened.add node).Unmarked := by
  unfold add
  split
  · exact ⟨List.forall_mem_cons.mpr ⟨here, unmarked.nodes⟩, unmarked.stack⟩
  · next innermost outer same =>
    have stack := unmarked.stack
    rw [same] at stack
    obtain ⟨children, others⟩ := List.forall_mem_cons.mp stack
    exact ⟨unmarked.nodes, List.forall_mem_cons.mpr ⟨List.forall_mem_cons.mpr ⟨here, children⟩, others⟩⟩

theorem unmarked_close (unmarked : opened.Unmarked) (endSpan : Option Span) : (opened.close endSpan).Unmarked := by
  unfold close
  split
  · exact unmarked
  · next innermost outer same =>
    have stack := unmarked.stack
    rw [same] at stack
    obtain ⟨children, others⟩ := List.forall_mem_cons.mp stack
    have around : Unmarked { opened with stack := outer } := ⟨unmarked.nodes, others⟩
    refine unmarked_add around (Fragment.follows_node.mpr ⟨Flags.unmarked_default, fun child member => ?_⟩)
    exact children child (List.mem_reverse.mp member)

theorem unmarked_finish (unmarked : opened.Unmarked) : ∀ node ∈ opened.finish, node.Unmarked := by
  have closed := closeAll_keeps (motive := Unmarked) unmarked fun unmarked => unmarked_close unmarked none
  exact fun node member => closed.nodes node (List.mem_reverse.mp member)

theorem unmarked_startTag (unmarked : opened.Unmarked) (tag : StartTag) : (opened.startTag tag).1.Unmarked := by
  have ended := endedBy_keeps (motive := Unmarked) unmarked (unmarked_close unmarked none) tag.name.name
  rw [startTag_eq_startElement]
  unfold startElement
  split
  · exact unmarked_add ended (Fragment.follows_node.mpr ⟨Flags.unmarked_default, nofun⟩)
  · exact ⟨ended.nodes, List.forall_mem_cons.mpr ⟨nofun, ended.stack⟩⟩

end OpenElements

variable {opened after : OpenElements} {cursor next : Cursor}

theorem unmarked_readElement {tag : StartTag} (unmarked : opened.Unmarked)
    (found : readElement opened tag cursor = .ok (after, next)) : after.Unmarked := by
  have started := OpenElements.unmarked_startTag unmarked tag
  unfold readElement at found
  split at found
  · next inner same =>
    rw [same] at started
    unfold readRawContent at found
    dsimp only at found
    have raw : (if (readRaw tag.name.name.toList cursor.rest).1 = [] then inner
        else inner.add (.leaf (.text (String.ofList (readRaw tag.name.name.toList cursor.rest).1))
          (cursor.spanTo (cursor.skip (readRaw tag.name.name.toList cursor.rest).1
            (readRaw tag.name.name.toList cursor.rest).2)))).Unmarked := by
      split
      · exact started
      · exact OpenElements.unmarked_add started (Fragment.unmarked_leaf _ _)
    split at found
    · cases found
      exact raw
    · obtain ⟨_, _, same⟩ := exists_ok_of_map found
      cases same
      exact OpenElements.unmarked_close raw _
  · next inner same =>
    rw [same] at started
    cases found
    exact started

theorem unmarked_follow {lexeme : Lexeme} (unmarked : opened.Unmarked) (followed : opened.follow lexeme = .ok after) :
    after.Unmarked := by
  cases lexeme with
  | text | cdata | doctype | directive =>
    cases followed
    exact OpenElements.unmarked_add unmarked (Fragment.unmarked_leaf _ _)
  | endTag tag =>
    change opened.endTag tag = .ok after at followed
    unfold OpenElements.endTag at followed
    split at followed
    · cases followed
    · split at followed
      · next closed =>
        cases followed
        exact OpenElements.closeNamed?_keeps (motive := OpenElements.Unmarked) unmarked
          (fun unmarked => OpenElements.unmarked_close unmarked none) (fun unmarked => OpenElements.unmarked_close unmarked _)
          closed
      · cases followed
  | componentEnd span =>
    change opened.componentEnd span = .ok after at followed
    unfold OpenElements.componentEnd at followed
    split at followed
    · cases followed
    · cases followed
      exact OpenElements.unmarked_close unmarked _
  | startTag | comment =>
    cases followed
    exact unmarked

theorem unmarked_conditionalNode {span : Span} {condition : String} {before body : List Char}
    {content : Except Failure OpenElements} (inside : ∀ opened, content = .ok opened → opened.Unmarked) :
    (conditionalNode span condition before body content).Unmarked := by
  unfold conditionalNode
  cases content with
  | ok opened =>
    exact Fragment.follows_node.mpr ⟨Flags.unmarked_default, OpenElements.unmarked_finish (inside opened rfl)⟩
  | error failure =>
    exact Fragment.follows_node.mpr ⟨Flags.unmarked_default, List.forall_mem_singleton.mpr (Fragment.unmarked_leaf _ _)⟩

theorem unmarked_commentNode (span : Span) (value : List Char) (comment : Option ConditionalComment) :
    (commentNode span value comment).Unmarked := by
  unfold commentNode
  split <;> exact Fragment.unmarked_leaf _ _

theorem unmarked_readContent {options : ParseOptions} (unmarked : opened.Unmarked)
    (found : readContent options opened cursor = .ok after) : after.Unmarked := by
  fun_induction readContent options opened cursor generalizing after with
  | case1 opened cursor empty =>
    cases found
    exact unmarked
  | case2 => cases found
  | case3 => cases found
  | case4 opened cursor nonempty tag next lexed inner later element ih =>
    exact ih (unmarked_readElement unmarked element) found
  | case5 opened cursor nonempty value span next lexed condition before body classified content ihInside =>
    rename_i ih
    have node : (conditionalNode span condition before body content).Unmarked :=
      unmarked_conditionalNode fun _ ok => ihInside OpenElements.unmarked_empty ok
    exact ih (OpenElements.unmarked_add unmarked node) found
  | case6 opened cursor nonempty value span next lexed _ ih =>
    exact ih (OpenElements.unmarked_add unmarked (unmarked_commentNode _ _ _)) found
  | case7 => cases found
  | case8 opened cursor nonempty lexeme next noElement noComment lexed inner followed ih =>
    exact ih (unmarked_follow unmarked followed) found

theorem unmarked_of_readSource {options : ParseOptions} {source : List Char} {content : List Fragment}
    (read : readSource options source = .ok content) : ∀ node ∈ content, node.Unmarked := by
  cases readsSource_of_readSource read with
  | all found => exact OpenElements.unmarked_finish (unmarked_readContent OpenElements.unmarked_empty found)
  | afterBlock isBlock nonempty front window found =>
    have after := unmarked_readContent OpenElements.unmarked_empty found
    exact List.forall_mem_cons.mpr ⟨Fragment.unmarked_leaf _ _, OpenElements.unmarked_finish after⟩

end MarkupFormat.Markup

namespace MarkupFormat.Annotate

open Markup (Flag Flags Fragment NodeInfo)

/-! ### Normal trees -/

theorem unmarked_dropFirstLineFeeds {fragment : Fragment} (unmarked : fragment.Unmarked) :
    (dropFirstLineFeeds fragment).Unmarked := by
  refine follows_mapChildren_alone (fun info children below => ?_) unmarked
  split
  · exact forall_dropLineFeed (fun _ _ _ _ _ _ node => Fragment.follows_node.mpr (Fragment.follows_node.mp node)) below
  · exact below

theorem unmarked_foldConditions {fragment : Fragment} (unmarked : fragment.Unmarked) :
    (foldConditions fragment).Unmarked := by
  refine follows_mapChildren_alone (fun info children below => ?_) unmarked
  refine forall_joinConditions children (fun before element joined found _ second => ?_) below
  obtain ⟨_, _, _, finish, inner, _, _, _, children, _, _, _, rfl⟩ := withCondition?_eq_some found
  cases element with
  | node info elementChildren =>
    obtain rfl : elementChildren = finish :: inner := children
    obtain ⟨here, inside⟩ := Fragment.follows_node.mp second
    exact Fragment.follows_node.mpr ⟨here, fun child member => inside child (List.mem_cons_of_mem _ member)⟩

theorem unmarked_mergeCdata {fragment : Fragment} (unmarked : fragment.Unmarked) : (mergeCdata fragment).Unmarked := by
  refine follows_mapChildren_alone (fun info children below => ?_) unmarked
  split
  · exact forall_joinTexts children (fun _ _ _ _ node => Fragment.follows_node.mpr (Fragment.follows_node.mp node))
      (fun _ _ _ _ _ _ _ _ first _ => Fragment.follows_node.mpr (Fragment.follows_node.mp first)) below
  · exact below

theorem unmarked_pieces (pieces : List TextPiece) (start : Nat) :
    ∀ node ∈ TextPiece.nodes start pieces, node.Unmarked := by
  induction pieces generalizing start with
  | nil => exact nofun
  | cons piece pieces ih =>
    refine List.forall_mem_cons.mpr ⟨?_, ih _⟩
    cases piece with
    | text cs => exact Fragment.unmarked_leaf _ _
    | expression cs =>
      exact Fragment.follows_node.mpr ⟨Flags.unmarked_default, List.forall_mem_singleton.mpr (Fragment.unmarked_leaf _ _)⟩

theorem unmarked_splitInterpolations {fragment : Fragment} (unmarked : fragment.Unmarked) :
    (splitInterpolations fragment).Unmarked := by
  refine follows_mapChildren_alone (fun info children below node member => ?_) unmarked
  split at member
  · obtain ⟨child, inside, member⟩ := List.mem_flatMap.mp member
    unfold splitText at member
    split at member
    · exact unmarked_pieces _ _ node member
    · exact List.mem_singleton.mp member ▸ below child inside
  · exact below node member

theorem unmarked_withFlag {flag : Flag} (spaces : flag ∈ [Flag.leadingSpaces, .trailingSpaces]) (node : Fragment)
    (unmarked : node.Unmarked) : (withFlag flag node).Unmarked := by
  cases node with
  | node info children =>
    obtain ⟨here, below⟩ := Fragment.follows_node.mp unmarked
    refine Fragment.follows_node.mpr ⟨?_, below⟩
    obtain rfl | spaces := List.mem_cons.mp spaces
    · exact ⟨here.leading, here.trailing, here.dangling⟩
    · obtain rfl := List.mem_singleton.mp spaces
      exact ⟨here.leading, here.trailing, here.dangling⟩

theorem unmarked_trimNode {info : NodeInfo} {children : List Fragment} (here : info.flags.Unmarked)
    (below : ∀ child ∈ children, child.Unmarked) : (trimNode info children).Unmarked := by
  unfold trimNode
  split
  · exact Fragment.follows_node.mpr ⟨here, below⟩
  · split
    · exact Fragment.follows_node.mpr ⟨⟨here.leading, here.trailing, here.dangling⟩, nofun⟩
    · refine Fragment.follows_node.mpr ⟨⟨here.leading, here.trailing, here.dangling⟩, ?_⟩
      split
      · exact below
      · refine forall_trimTexts (fun _ spaces => unmarked_withFlag spaces) (fun _ spaces => unmarked_withFlag spaces)
          (fun info inner value unmarked _ _ => ?_) (fun _ _ unmarked _ => unmarked) [] children nofun below
        obtain ⟨here, inside⟩ := Fragment.follows_node.mp unmarked
        exact Fragment.follows_node.mpr ⟨⟨here.leading, here.trailing, here.dangling⟩, inside⟩

mutual

theorem unmarked_trimText : ∀ fragment : Fragment, fragment.Unmarked → (trimText fragment).Unmarked
  | .node _ children, ⟨here, below⟩ => unmarked_trimNode here (allUnmarked_trimText children below)

theorem allUnmarked_trimText : ∀ fragments : List Fragment, Fragment.AllFollow NodeInfo.flags (fun flags _ => flags.Unmarked)
    fragments → ∀ child ∈ Fragment.bottomUpAll trimNode fragments, child.Unmarked
  | [], _ => nofun
  | fragment :: rest, ⟨first, others⟩ =>
    List.forall_mem_cons.mpr ⟨unmarked_trimText fragment first, allUnmarked_trimText rest others⟩

end

/-- Before a tree is classified no node tells that white space shows. -/
theorem unmarked_normalize {root : Fragment} (unmarked : root.Unmarked) : (normalize root).Unmarked :=
  unmarked_trimText _ (unmarked_splitInterpolations (unmarked_mergeCdata (unmarked_foldConditions
    (unmarked_dropFirstLineFeeds unmarked))))

end MarkupFormat.Annotate
