import MarkupFormat.Proofs.Markup.LocalRule
import MarkupFormat.Proofs.Markup.Losslessness

/-!
# The elements that are read

What the start tags of a source decide about its elements.

Every element of a source was opened by a start tag that was read somewhere in the source, and it keeps what this
tag tells (`elementsSay_of_parse`). So what is to be shown of all elements is shown of what one tag tells.

An element whose name says that it is empty never stays open, so nothing is read inside of it
(`kindsAsRead_of_readSource`). Neither roots nor interpolations are read at all: the root is put over what was
read, and interpolations are only found in its texts later on.
-/

namespace MarkupFormat.Markup

open Text (Cut)

/-- The tag was read where a part of the source begins. -/
def StartTag.ReadIn (source : List Char) (tag : StartTag) : Prop :=
  ∃ cursor next stop, Cut source cursor.pos stop cursor.rest ∧ ['<'].isPrefixOf cursor.rest ∧
    readStartTag cursor = .ok (tag, next)

/-- Whatever holds of a node that is an element, holds of it and the span of its start tag. -/
def NodeInfo.ElementSays (stated : Span → Element → Prop) (info : NodeInfo) : Prop :=
  ∀ element, info.kind = .element element → ∃ start, info.startSpan = some start ∧ stated start element

/-- All elements in a tree say something. -/
abbrev Fragment.ElementsSay (stated : Span → Element → Prop) (fragment : Fragment) : Prop :=
  fragment.Follows id fun info _ => info.ElementSays stated

variable {stated : Span → Element → Prop} {opened after : OpenElements} {cursor next : Cursor} {source : List Char}

theorem elementsSay_imp {other : Span → Element → Prop} {fragment : Fragment}
    (imp : ∀ start element, stated start element → other start element) (say : fragment.ElementsSay stated) :
    fragment.ElementsSay other := by
  refine say.imp fun info _ here element same => ?_
  obtain ⟨start, starts, states⟩ := here element same
  exact ⟨start, starts, imp start element states⟩

theorem elementsSay_leaf {kind : NodeKind} {span : Span} (plain : kind.hasSection = false) :
    (Fragment.leaf kind span).ElementsSay stated := by
  refine Fragment.follows_leaf.mpr ?_
  rintro element rfl
  cases plain

theorem elementsSay_element {info : NodeInfo} {children : List Fragment} {start : Span} {element : Element}
    (kind : info.kind = .element element) (starts : info.startSpan = some start) (here : stated start element)
    (below : ∀ child ∈ children, child.ElementsSay stated) : (Fragment.node info children).ElementsSay stated := by
  refine Fragment.follows_node.mpr ⟨?_, below⟩
  intro other same
  obtain rfl := NodeKind.element.inj (kind.symm.trans same)
  exact ⟨start, starts, here⟩

/-- The attributes of a node that is an element. -/
def Fragment.attributes? (fragment : Fragment) : Option (List Attribute) :=
  match fragment.kind with
  | .element element => some element.attributes
  | _ => none

theorem exists_said_of_attributes? {fragment : Fragment} {attributes : List Attribute}
    (say : fragment.ElementsSay stated) (found : fragment.attributes? = some attributes) :
    ∃ start element, stated start element ∧ element.attributes = attributes := by
  cases fragment with
  | node info children =>
    unfold Fragment.attributes? at found
    split at found
    · next element isElement =>
      obtain ⟨start, -, here⟩ := (Fragment.follows_node.mp say).1 element isElement
      exact ⟨start, element, here, Option.some.inj found⟩
    · cases found

theorem exists_parse_of_attributes? {source : String} {options : ParseOptions} {attributes : List Attribute}
    (read : (parse source options).toOption.map (·.map Fragment.attributes?) = some [some attributes]) :
    ∃ node, parse source options = .ok [node] ∧ node.attributes? = some attributes := by
  cases parsed : parse source options with
  | ok content =>
    rw [parsed] at read
    obtain ⟨node, rfl, found⟩ := List.map_eq_singleton_iff.mp (Option.some.inj read)
    exact ⟨node, rfl, found⟩
  | error failure =>
    rw [parsed] at read
    cases read

/-! ### Open elements -/

namespace OpenElements

/-- All elements say something, those that are open and those that were read. -/
structure AllSay (stated : Span → Element → Prop) (opened : OpenElements) : Prop where
  nodes : ∀ node ∈ opened.nodes, node.ElementsSay stated
  stack : ∀ inner ∈ opened.stack,
    stated inner.startSpan inner.element ∧ ∀ child ∈ inner.children, child.ElementsSay stated

theorem allSay_empty : AllSay stated {} :=
  ⟨fun _ member => absurd member List.not_mem_nil, fun _ member => absurd member List.not_mem_nil⟩

theorem allSay_add {node : Fragment} (say : opened.AllSay stated) (here : node.ElementsSay stated) :
    (opened.add node).AllSay stated := by
  unfold add
  split
  · exact ⟨List.forall_mem_cons.mpr ⟨here, say.nodes⟩, say.stack⟩
  · next innermost outer same =>
    have stack := say.stack
    rw [same] at stack
    obtain ⟨⟨own, below⟩, others⟩ := List.forall_mem_cons.mp stack
    exact ⟨say.nodes, List.forall_mem_cons.mpr ⟨⟨own, List.forall_mem_cons.mpr ⟨here, below⟩⟩, others⟩⟩

theorem allSay_close (say : opened.AllSay stated) (endSpan : Option Span) : (opened.close endSpan).AllSay stated := by
  unfold close
  split
  · exact say
  · next innermost outer same =>
    have stack := say.stack
    rw [same] at stack
    obtain ⟨⟨own, below⟩, others⟩ := List.forall_mem_cons.mp stack
    have around : AllSay stated { opened with stack := outer } := ⟨say.nodes, others⟩
    refine allSay_add around (elementsSay_element rfl rfl own ?_)
    exact fun child member => below child (List.mem_reverse.mp member)

theorem elementsSay_finish (say : opened.AllSay stated) : ∀ node ∈ opened.finish, node.ElementsSay stated := by
  have closed := closeAll_keeps (motive := AllSay stated) say fun say => allSay_close say none
  exact fun node member => closed.nodes node (List.mem_reverse.mp member)

theorem allSay_closeNamed? {name : String} {ns : Option String} {endSpan : Span} (say : opened.AllSay stated)
    (closed : opened.closeNamed? name ns endSpan = some after) : after.AllSay stated :=
  closeNamed?_keeps (motive := AllSay stated) say (fun say => allSay_close say none) (fun say => allSay_close say _)
    closed

theorem allSay_startElement {tag : StartTag} {element : Element} (say : opened.AllSay stated)
    (here : stated tag.span element) : (opened.startElement tag element).1.AllSay stated := by
  have none : ∀ child ∈ ([] : List Fragment), child.ElementsSay stated := fun _ member => absurd member List.not_mem_nil
  unfold startElement
  split
  · exact allSay_add say (elementsSay_element rfl rfl here none)
  · exact ⟨say.nodes, List.forall_mem_cons.mpr ⟨⟨here, none⟩, say.stack⟩⟩

theorem allSay_startTag {tag : StartTag} (say : opened.AllSay stated)
    (here : ∀ parent, stated tag.span (tag.elementIn parent)) : (opened.startTag tag).1.AllSay stated := by
  have ended := endedBy_keeps (motive := AllSay stated) say (allSay_close say none)
  rw [startTag_eq_startElement]
  exact allSay_startElement (ended tag.name.name) (here _)

end OpenElements

/-! ### Content -/

theorem readStartTag_of_readLexeme {options : ParseOptions} {tag : StartTag}
    (lexed : readLexeme options cursor = .ok (.startTag tag, next)) :
    ['<'].isPrefixOf cursor.rest ∧ readStartTag cursor = .ok (tag, next) := by
  have delimited {opening closing : List Char} {inside : Construct} {make : List Char × Span × Cursor → Lexeme × Cursor}
      (other : ∀ found, ∀ tag, (make found).1 ≠ .startTag tag) :
      (readDelimited opening closing inside cursor).map make ≠ .ok (.startTag tag, next) := by
    intro read
    obtain ⟨found, -, same⟩ := exists_ok_of_map read
    exact other found tag (congrArg Prod.fst same)
  unfold readLexeme at lexed
  dsimp only at lexed
  split at lexed
  · cases lexed
  · next markup =>
    refine ⟨isPrefixOf_of_atMarkup (by simpa using markup), ?_⟩
    split at lexed
    · exact absurd lexed (delimited nofun)
    split at lexed
    · exact absurd lexed (delimited nofun)
    split at lexed
    · exact absurd lexed (delimited nofun)
    split at lexed
    · exact absurd lexed (delimited nofun)
    split at lexed
    · cases lexed
    split at lexed
    · obtain ⟨found, -, same⟩ := exists_ok_of_map lexed
      cases same
    · obtain ⟨⟨read, after⟩, found, same⟩ := exists_ok_of_map lexed
      cases same
      exact found

theorem allSay_readElement {tag : StartTag} (say : opened.AllSay stated)
    (here : ∀ parent, stated tag.span (tag.elementIn parent))
    (found : readElement opened tag cursor = .ok (after, next)) :
    after.AllSay stated :=
  readElement_keeps (motive := OpenElements.AllSay stated) (OpenElements.allSay_startTag say here)
    (fun say _ _ => OpenElements.allSay_add say (elementsSay_leaf rfl)) OpenElements.allSay_close found

theorem allSay_follow {lexeme : Lexeme} (say : opened.AllSay stated) (followed : opened.follow lexeme = .ok after) :
    after.AllSay stated := by
  cases lexeme with
  | text | cdata | doctype | directive =>
    cases followed
    exact OpenElements.allSay_add say (elementsSay_leaf rfl)
  | endTag tag =>
    change opened.endTag tag = .ok after at followed
    unfold OpenElements.endTag at followed
    split at followed
    · cases followed
    split at followed
    · next closed =>
      cases followed
      exact OpenElements.allSay_closeNamed? say closed
    · cases followed
  | componentEnd span =>
    change opened.componentEnd span = .ok after at followed
    unfold OpenElements.componentEnd at followed
    split at followed
    · cases followed
    · cases followed
      exact OpenElements.allSay_close say _
  | startTag | comment =>
    cases followed
    exact say

theorem elementsSay_conditionalNode {span : Span} {condition : String} {before body : List Char}
    {content : Except Failure OpenElements} (say : ∀ opened, content = .ok opened → opened.AllSay stated) :
    (conditionalNode span condition before body content).ElementsSay stated := by
  have plain (complete : Bool) : (conditionalInfo span condition before body complete).ElementSays stated :=
    fun _ same => NodeKind.noConfusion same
  unfold conditionalNode
  cases content with
  | ok opened =>
    exact Fragment.follows_node.mpr ⟨plain true, OpenElements.elementsSay_finish (say opened rfl)⟩
  | error failure =>
    exact Fragment.follows_node.mpr ⟨plain false, List.forall_mem_singleton.mpr (elementsSay_leaf rfl)⟩

/-- Reading a part of the source opens elements by start tags in the source only. -/
theorem allSay_readContent {options : ParseOptions} {stop : Nat}
    (tags : ∀ tag : StartTag, tag.ReadIn source → ∀ parent, stated tag.span (tag.elementIn parent))
    (say : opened.AllSay stated) (window : Cut source cursor.pos stop cursor.rest)
    (found : readContent options opened cursor = .ok after) : after.AllSay stated := by
  fun_induction readContent options opened cursor generalizing stop after with
  | case1 opened cursor empty =>
    cases found
    exact say
  | case2 => cases found
  | case3 => cases found
  | case4 opened cursor nonempty tag next lexed inner later element ih =>
    obtain ⟨taken, -, -, -, rest⟩ := window_of_readLexeme nonempty window lexed
    obtain ⟨opens, read⟩ := readStartTag_of_readLexeme lexed
    obtain ⟨content, takes⟩ := reaches_readElement element
    have here := tags tag ⟨cursor, next, stop, window, opens, read⟩
    exact ih (allSay_readElement say here element) (takes.cut rest).2 found
  | case5 opened cursor nonempty value span next lexed condition before body classified content ihInside =>
    rename_i ih
    -- The section is a part of the source of its own, in which nothing is open at first.
    obtain ⟨taken, -, readAs, cut, rest⟩ := window_of_readLexeme nonempty window lexed
    obtain rfl : span = cursor.spanTo next := readAs.span
    have cut : Cut source (cursor.spanTo next).start (cursor.spanTo next).stop _ := readAs.comment _ _ rfl ▸ cut
    obtain ⟨-, inside, -⟩ := window_of_classify? cut (classify?_of_conditionalOf? classified)
    have node : (conditionalNode (cursor.spanTo next) condition before body content).ElementsSay stated :=
      elementsSay_conditionalNode fun _ ok => ihInside OpenElements.allSay_empty inside ok
    exact ih (OpenElements.allSay_add say node) rest found
  | case6 opened cursor nonempty value span next lexed _ ih =>
    obtain ⟨-, -, -, -, rest⟩ := window_of_readLexeme nonempty window lexed
    obtain ⟨kind, leaf, plain, -⟩ := commentNode_eq_leaf span value (conditionalOf? options value)
    rw [leaf] at found ih
    exact ih (OpenElements.allSay_add say (elementsSay_leaf plain)) rest found
  | case7 => cases found
  | case8 opened cursor nonempty lexeme next noElement noComment lexed inner followed ih =>
    obtain ⟨-, -, -, -, rest⟩ := window_of_readLexeme nonempty window lexed
    exact ih (allSay_follow say followed) rest found

theorem elementsSay_of_readSource {options : ParseOptions} {content : List Fragment}
    (tags : ∀ tag : StartTag, tag.ReadIn source → ∀ parent, stated tag.span (tag.elementIn parent))
    (read : readSource options source = .ok content) : ∀ node ∈ content, node.ElementsSay stated := by
  cases readsSource_of_readSource read with
  | all found =>
    exact OpenElements.elementsSay_finish (allSay_readContent tags OpenElements.allSay_empty (Cut.whole source) found)
  | afterBlock isBlock nonempty front window found =>
    have say := allSay_readContent tags OpenElements.allSay_empty window found
    exact List.forall_mem_cons.mpr ⟨elementsSay_leaf rfl, OpenElements.elementsSay_finish say⟩

/-- What every start tag of a source stated of its element, all elements say that are read of the source. -/
theorem elementsSay_of_parse {options : ParseOptions} {source : String} {content : List Fragment}
    (tags : ∀ tag : StartTag, tag.ReadIn source.toList → ∀ parent, stated tag.span (tag.elementIn parent))
    (read : parse source options = .ok content) : ∀ node ∈ content, node.ElementsSay stated := by
  unfold parse at read
  dsimp only at read
  split at read
  · cases read
  · cases found : readSource options source.toList with
    | error failure => rw [found] at read; cases read
    | ok nodes =>
      rw [found] at read
      cases read
      exact elementsSay_of_readSource tags found

/-! ### Void elements -/

/-- The kind of a node, and the kinds of what is inside of it, as they are read. -/
structure KindAsRead (node : NodeKind) (children : List NodeKind) : Prop where
  noRoot : node ≠ .root
  noInterpolation : node ≠ .interpolation
  void : ∀ element, node = .element element → element.tag.isVoid = true → children = []

/-- All kinds in a tree are as they are read. -/
abbrev Fragment.KindsAsRead (fragment : Fragment) : Prop :=
  fragment.Follows NodeInfo.kind KindAsRead

theorem kindsAsRead_leaf {kind : NodeKind} {span : Span} (noRoot : kind ≠ .root)
    (noInterpolation : kind ≠ .interpolation) : (Fragment.leaf kind span).KindsAsRead :=
  Fragment.follows_leaf.mpr ⟨noRoot, noInterpolation, fun _ _ _ => rfl⟩

namespace OpenElements

/-- No open element is void, and all kinds inside of them and outside are as they are read. -/
structure ReadKinds (opened : OpenElements) : Prop where
  nodes : ∀ node ∈ opened.nodes, node.KindsAsRead
  stack : ∀ element ∈ opened.stack, element.element.tag.isVoid = false ∧ ∀ child ∈ element.children, child.KindsAsRead

theorem readKinds_empty : ReadKinds {} :=
  ⟨fun _ member => absurd member List.not_mem_nil, fun _ member => absurd member List.not_mem_nil⟩

theorem readKinds_add {node : Fragment} (kinds : opened.ReadKinds) (well : node.KindsAsRead) :
    (opened.add node).ReadKinds := by
  unfold add
  split
  · refine ⟨fun other member => ?_, kinds.stack⟩
    rcases List.mem_cons.mp member with rfl | member
    · exact well
    · exact kinds.nodes other member
  · next innermost outer same =>
    have stack := kinds.stack
    rw [same] at stack
    obtain ⟨notVoid, below⟩ := stack innermost List.mem_cons_self
    refine ⟨kinds.nodes, fun element member => ?_⟩
    rcases List.mem_cons.mp member with rfl | member
    · refine ⟨notVoid, fun child inside => ?_⟩
      rcases List.mem_cons.mp inside with rfl | inside
      · exact well
      · exact below child inside
    · exact stack element (List.mem_cons_of_mem _ member)

theorem kindsAsRead_close {element : OpenElement} (notVoid : element.element.tag.isVoid = false)
    (below : ∀ child ∈ element.children, child.KindsAsRead) (endSpan : Option Span) :
    (element.close endSpan).KindsAsRead := by
  unfold OpenElement.close
  refine Fragment.follows_node.mpr
    ⟨⟨NodeKind.noConfusion, NodeKind.noConfusion, ?_⟩, fun child member => below child (List.mem_reverse.mp member)⟩
  rintro _ ⟨⟩ isVoid
  rw [notVoid] at isVoid
  cases isVoid

theorem readKinds_close (kinds : opened.ReadKinds) (endSpan : Option Span) : (opened.close endSpan).ReadKinds := by
  unfold close
  split
  · exact kinds
  · next innermost outer same =>
    have stack := kinds.stack
    rw [same] at stack
    obtain ⟨notVoid, below⟩ := stack innermost List.mem_cons_self
    have around : ReadKinds { opened with stack := outer } :=
      ⟨kinds.nodes, fun element member => stack element (List.mem_cons_of_mem _ member)⟩
    exact readKinds_add around (kindsAsRead_close notVoid below endSpan)

theorem kindsAsRead_finish (kinds : opened.ReadKinds) : ∀ node ∈ opened.finish, node.KindsAsRead := by
  have closed := closeAll_keeps (motive := ReadKinds) kinds fun kinds => readKinds_close kinds none
  exact fun node member => closed.nodes node (List.mem_reverse.mp member)

/-! ### Tags -/

theorem readKinds_closeNamed? {name : String} {ns : Option String} {endSpan : Span} (kinds : opened.ReadKinds)
    (closed : opened.closeNamed? name ns endSpan = some after) : after.ReadKinds :=
  closeNamed?_keeps (motive := ReadKinds) kinds (fun kinds => readKinds_close kinds none)
    (fun kinds => readKinds_close kinds _) closed

theorem readKinds_startElement (kinds : opened.ReadKinds) (tag : StartTag) (element : Element) :
    (opened.startElement tag element).1.ReadKinds := by
  unfold startElement
  split
  · refine readKinds_add kinds (Fragment.follows_node.mpr ⟨?_, fun child member => absurd member List.not_mem_nil⟩)
    exact ⟨NodeKind.noConfusion, NodeKind.noConfusion, fun _ _ _ => rfl⟩
  · next stays =>
    refine ⟨kinds.nodes, fun other member => ?_⟩
    rcases List.mem_cons.mp member with rfl | member
    · rw [Bool.or_eq_true, not_or] at stays
      exact ⟨Bool.eq_false_iff.mpr stays.2, fun child member => absurd member List.not_mem_nil⟩
    · exact kinds.stack other member

theorem readKinds_startTag (kinds : opened.ReadKinds) (tag : StartTag) : (opened.startTag tag).1.ReadKinds := by
  have ended := endedBy_keeps (motive := ReadKinds) kinds (readKinds_close kinds none)
  rw [startTag_eq_startElement]
  exact readKinds_startElement (ended tag.name.name) tag _

end OpenElements

/-! ### Content -/

theorem readKinds_readElement {tag : StartTag} (kinds : opened.ReadKinds)
    (found : readElement opened tag cursor = .ok (after, next)) : after.ReadKinds := by
  have text (value : String) (span : Span) : (Fragment.leaf (.text value) span).KindsAsRead :=
    kindsAsRead_leaf NodeKind.noConfusion NodeKind.noConfusion
  exact readElement_keeps (motive := OpenElements.ReadKinds) (OpenElements.readKinds_startTag kinds tag)
    (fun kinds _ _ => OpenElements.readKinds_add kinds (text _ _)) OpenElements.readKinds_close found

theorem readKinds_follow {lexeme : Lexeme} (kinds : opened.ReadKinds) (followed : opened.follow lexeme = .ok after) :
    after.ReadKinds := by
  cases lexeme with
  | text | cdata | doctype | directive =>
    cases followed
    exact OpenElements.readKinds_add kinds (kindsAsRead_leaf NodeKind.noConfusion NodeKind.noConfusion)
  | endTag tag =>
    change opened.endTag tag = .ok after at followed
    unfold OpenElements.endTag at followed
    split at followed
    · cases followed
    · split at followed
      · next closed =>
        cases followed
        exact OpenElements.readKinds_closeNamed? kinds closed
      · cases followed
  | componentEnd span =>
    change opened.componentEnd span = .ok after at followed
    unfold OpenElements.componentEnd at followed
    split at followed
    · cases followed
    · cases followed
      exact OpenElements.readKinds_close kinds _
  | startTag | comment =>
    cases followed
    exact kinds

theorem kindsAsRead_conditionalNode {span : Span} {condition : String} {before body : List Char}
    {content : Except Failure OpenElements} (kinds : ∀ opened, content = .ok opened → opened.ReadKinds) :
    (conditionalNode span condition before body content).KindsAsRead := by
  unfold conditionalNode
  cases content with
  | ok opened =>
    refine Fragment.follows_node.mpr ⟨?_, OpenElements.kindsAsRead_finish (kinds opened rfl)⟩
    exact ⟨NodeKind.noConfusion, NodeKind.noConfusion, fun _ => NodeKind.noConfusion⟩
  | error failure =>
    refine Fragment.follows_node.mpr
      ⟨⟨NodeKind.noConfusion, NodeKind.noConfusion, fun _ => NodeKind.noConfusion⟩, fun child member => ?_⟩
    rw [List.mem_singleton.mp member]
    exact kindsAsRead_leaf NodeKind.noConfusion NodeKind.noConfusion

theorem readKinds_readContent {options : ParseOptions} (kinds : opened.ReadKinds)
    (found : readContent options opened cursor = .ok after) : after.ReadKinds := by
  fun_induction readContent options opened cursor generalizing after with
  | case1 opened cursor empty =>
    cases found
    exact kinds
  | case2 => cases found
  | case3 => cases found
  | case4 opened cursor nonempty tag next lexed inner later element ih =>
    exact ih (readKinds_readElement kinds element) found
  | case5 opened cursor nonempty value span next lexed condition before body classified content ihInside =>
    rename_i ih
    refine ih (OpenElements.readKinds_add kinds (kindsAsRead_conditionalNode fun _ ok => ?_)) found
    exact ihInside OpenElements.readKinds_empty ok
  | case6 opened cursor nonempty value span next lexed _ ih =>
    have comment : (commentNode span value (conditionalOf? options value)).KindsAsRead := by
      unfold commentNode
      split <;> exact kindsAsRead_leaf NodeKind.noConfusion NodeKind.noConfusion
    exact ih (OpenElements.readKinds_add kinds comment) found
  | case7 => cases found
  | case8 opened cursor nonempty lexeme next noElement noComment lexed inner followed ih =>
    exact ih (readKinds_follow kinds followed) found

/-- No node of a source is a root or an interpolation, and no void element has anything inside. -/
theorem kindsAsRead_of_readSource {options : ParseOptions} {source : List Char} {content : List Fragment}
    (read : readSource options source = .ok content) : ∀ node ∈ content, node.KindsAsRead := by
  cases readsSource_of_readSource read with
  | all found =>
    exact OpenElements.kindsAsRead_finish (readKinds_readContent OpenElements.readKinds_empty found)
  | afterBlock isBlock nonempty front window found =>
    have kinds := OpenElements.kindsAsRead_finish (readKinds_readContent OpenElements.readKinds_empty found)
    exact List.forall_mem_cons.mpr ⟨kindsAsRead_leaf NodeKind.noConfusion NodeKind.noConfusion, kinds⟩

end MarkupFormat.Markup
