import MarkupFormat.Proofs.Markup.Growth
import MarkupFormat.Proofs.Markup.Losslessness

/-!
# Building reads the same tree

While a source is read, the table that is built and the open elements tell of the same nodes (`Builder.Tells`): the
open elements grow in the table, and only the elements without end tags are not extended yet. Each step keeps this,
also where a section cannot be read and is dropped. So both ways to read a source agree (`ofSource_eq`).
-/

namespace MarkupFormat.Markup

open Fragment (extendAll extendAll_reverse)
open Markup.Tree (Lists)

/-! ### Elements that are not extended yet -/

namespace OpenElement

/-- An open element, with what is inside of it extended. -/
def extend (element : OpenElement) : OpenElement :=
  { element with children := extendAll element.children }

/-- The node that grows in the table. -/
def growing (element : OpenElement) : Growing :=
  { info := { kind := .element element.element, span := element.startSpan, startSpan := some element.startSpan }
    children := element.children.reverse }

/-- The node that is in the table once the element is left without an end tag. -/
def left (element : OpenElement) : Fragment :=
  .node element.growing.info element.growing.children

theorem extend_left (element : OpenElement) : element.left.extend = element.extend.close none := by
  obtain ⟨element, startSpan, children⟩ := element
  cases children with
  | nil => exact Fragment.extend_childless _
  | cons last others =>
    unfold left growing close impliedStop extend
    rw [Fragment.extend]
    dsimp only
    rw [extendAll_reverse, List.getLast?_reverse]
    rfl

theorem extend_close (element : OpenElement) (endSpan : Span) :
    (element.close (some endSpan)).extend = element.extend.close (some endSpan) := by
  unfold close extend
  rw [Fragment.extend, NodeInfo.extendTo_of_ended rfl, extendAll_reverse]

end OpenElement

namespace OpenElements

def extend (raw : OpenElements) : OpenElements :=
  { stack := raw.stack.map OpenElement.extend, nodes := extendAll raw.nodes }

/-- Leaves the innermost element without an end tag. -/
def leave (raw : OpenElements) : OpenElements :=
  match raw.stack with
  | [] => raw
  | innermost :: outer => { raw with stack := outer }.add innermost.left

variable {raw : OpenElements}

theorem extend_add (raw : OpenElements) (node : Fragment) :
    (raw.add node).extend = raw.extend.add node.extend := by
  obtain ⟨stack, nodes⟩ := raw
  cases stack with
  | nil => rfl
  | cons innermost outer => rfl

theorem extend_leave (raw : OpenElements) : raw.leave.extend = raw.extend.close none := by
  obtain ⟨stack, nodes⟩ := raw
  cases stack with
  | nil => rfl
  | cons innermost outer =>
    unfold leave close
    rw [extend_add, innermost.extend_left]
    rfl

theorem extend_close (raw : OpenElements) (endSpan : Span) :
    (raw.close (some endSpan)).extend = raw.extend.close (some endSpan) := by
  obtain ⟨stack, nodes⟩ := raw
  cases stack with
  | nil => rfl
  | cons innermost outer =>
    unfold close
    rw [extend_add, innermost.extend_close]
    rfl

theorem finish_close (opened : OpenElements) : (opened.close none).finish = opened.finish := by
  by_cases none_open : opened.stack = []
  · unfold close
    rw [none_open]
  · unfold finish
    conv => rhs; rw [closeAll, if_neg none_open]

/-! ### Open elements in the table -/

/-- The nodes that grow in the table: the open elements, and around them the one with the numbers of `base`. -/
def growing (raw : OpenElements) (base : Growing) (outer : List Growing) : List Growing :=
  raw.stack.map OpenElement.growing ++ { base with children := base.children ++ raw.nodes.reverse } :: outer

end OpenElements

/-- The numbers of the first nodes that grow. -/
def Growing.ids : Nat → List Growing → List NodeId
  | 0, _ => []
  | _, [] => []
  | length + 1, _ :: outer => count outer :: ids length outer

namespace OpenElements

variable {raw : OpenElements} {base : Growing} {outer : List Growing}

theorem exists_innermost (raw : OpenElements) (base : Growing) (outer : List Growing) :
    ∃ innermost around, raw.growing base outer = innermost :: around ∧
      (Growing.ids raw.stack.length (innermost :: around)).head?.getD (Growing.count outer) = Growing.count around ∧
      ∀ node, (raw.add node).growing base outer =
        { innermost with children := innermost.children ++ [node] } :: around := by
  obtain ⟨stack, nodes⟩ := raw
  cases stack with
  | nil =>
    refine ⟨{ base with children := base.children ++ nodes.reverse }, outer, rfl, rfl, fun node => ?_⟩
    simp only [add, growing, List.map_nil, List.nil_append, List.reverse_cons, List.append_assoc]
  | cons innermost others =>
    refine ⟨innermost.growing, growing ⟨others, nodes⟩ base outer, rfl, rfl, fun node => ?_⟩
    simp only [add, growing, OpenElement.growing, List.map_cons, List.cons_append, List.reverse_cons]

/-- What was below the innermost node that grows is found among its content once it is left. -/
theorem rows_add (raw : OpenElements) (base : Growing) (outer : List Growing) (info : NodeInfo)
    (children : List Fragment) :
    Growing.rows ((raw.add (.node info children)).growing base outer) [] =
      Growing.rows ({ info := info, children := children } :: raw.growing base outer) [] := by
  obtain ⟨innermost, around, same, _, added⟩ := exists_innermost raw base outer
  rw [same, added, Growing.rows_leave]

theorem ids_add (raw : OpenElements) (base : Growing) (outer : List Growing) (node : Fragment) :
    Growing.ids (raw.add node).stack.length ((raw.add node).growing base outer) =
      Growing.ids raw.stack.length (raw.growing base outer) := by
  obtain ⟨innermost, around, same, _, added⟩ := exists_innermost raw base outer
  rw [same, added, length_stack_add]
  cases raw.stack.length with
  | zero => rfl
  | succ length => rfl

theorem rows_leave (raw : OpenElements) (base : Growing) (outer : List Growing) :
    Growing.rows (raw.leave.growing base outer) [] = Growing.rows (raw.growing base outer) [] := by
  obtain ⟨stack, nodes⟩ := raw
  cases stack with
  | nil => rfl
  | cons innermost others => exact rows_add ⟨others, nodes⟩ base outer _ _

theorem exists_finish (raw : OpenElements) (base : Growing) (outer : List Growing) :
    ∃ nodes, extendAll nodes = raw.extend.finish ∧
      Growing.rows (raw.growing base outer) [] =
        Growing.rows ({ base with children := base.children ++ nodes } :: outer) [] := by
  -- By the number of open elements: leaving the innermost one does not change the rows.
  obtain ⟨length, same⟩ : ∃ length, raw.stack.length = length := ⟨_, rfl⟩
  induction length generalizing raw with
  | zero =>
    obtain ⟨stack, nodes⟩ := raw
    obtain rfl : stack = [] := List.length_eq_zero_iff.mp same
    refine ⟨nodes.reverse, ?_, rfl⟩
    show _ = (closeAll ⟨[], extendAll nodes⟩).nodes.reverse
    rw [closeAll, if_pos rfl, extendAll_reverse]
  | succ length ih =>
    have shorter : raw.leave.stack.length = length := by
      obtain ⟨_ | ⟨innermost, others⟩, nodes⟩ := raw
      · cases same
      · exact (length_stack_add _ _).trans (Nat.succ.inj same)
    obtain ⟨nodes, finished, rows⟩ := ih raw.leave shorter
    rw [extend_leave, finish_close] at finished
    rw [rows_leave] at rows
    exact ⟨nodes, finished, rows⟩

end OpenElements

namespace Builder

/-- The open elements grow in the table, inside of the node with the numbers of `base`. -/
structure Holds (builder : Builder) (source : String) (base : Growing) (outer : List Growing) (raw : OpenElements) :
    Prop where
  lists : builder.tree.Lists source (Growing.rows (raw.growing base outer) [])
  base_eq : builder.base = Growing.count outer
  opened_eq : builder.opened = Growing.ids raw.stack.length (raw.growing base outer)

/-- The table tells of the same nodes as the open elements, except that none of its nodes is extended yet. -/
def Tells (builder : Builder) (source : String) (base : Growing) (outer : List Growing) (opened : OpenElements) :
    Prop :=
  ∃ raw : OpenElements, raw.extend = opened ∧ builder.Holds source base outer raw

variable {builder : Builder} {source : String} {base : Growing} {outer : List Growing} {raw opened : OpenElements}

theorem Holds.container_eq (holds : builder.Holds source base outer raw) :
    ∃ innermost around, raw.growing base outer = innermost :: around ∧ builder.container = Growing.count around := by
  obtain ⟨innermost, around, same, container, _⟩ := raw.exists_innermost base outer
  refine ⟨innermost, around, same, ?_⟩
  rw [← container, ← same, ← holds.opened_eq, ← holds.base_eq]
  rfl

/-! ### Nodes -/

theorem Holds.append (holds : builder.Holds source base outer raw) (info : NodeInfo) :
    (builder.append info).1.tree.Lists source (Growing.rows ({ info := info } :: raw.growing base outer) []) ∧
      (builder.append info).2 = Growing.count (raw.growing base outer) := by
  obtain ⟨innermost, around, same, container⟩ := holds.container_eq
  have lists := holds.lists
  rw [same] at lists
  have size : builder.tree.size = Growing.count (innermost :: around) := by
    rw [lists.size_eq, Growing.length_rows]
  have added := Growing.lists_append lists info
  rw [← container, ← same] at added
  rw [← same] at size
  exact ⟨added, size⟩

theorem Holds.withTree {tree : Tree} {info : NodeInfo} {children : List Fragment}
    (holds : builder.Holds source base outer raw)
    (lists : tree.Lists source
      (Growing.rows ({ info := info, children := children } :: raw.growing base outer) [])) :
    { builder with tree := tree : Builder }.Holds source base outer (raw.add (.node info children)) := by
  refine ⟨?_, holds.base_eq, ?_⟩
  · rw [OpenElements.rows_add]
    exact lists
  · rw [OpenElements.ids_add]
    exact holds.opened_eq

theorem tells_add (tells : builder.Tells source base outer opened) (info : NodeInfo) :
    (builder.add info).Tells source base outer (opened.add (.node info [])) := by
  obtain ⟨raw, rfl, holds⟩ := tells
  refine ⟨raw.add (.node info []), ?_, holds.withTree (holds.append info).1⟩
  rw [OpenElements.extend_add, Fragment.extend_childless]

theorem tells_open {element : Element} {startSpan : Span} (tells : builder.Tells source base outer opened) :
    let added := builder.append { kind := .element element, span := startSpan, startSpan := some startSpan }
    { added.1 with opened := added.2 :: added.1.opened : Builder }.Tells source base outer
      { opened with stack := { element := element, startSpan := startSpan } :: opened.stack } := by
  obtain ⟨raw, rfl, holds⟩ := tells
  obtain ⟨lists, id⟩ := holds.append { kind := .element element, span := startSpan, startSpan := some startSpan }
  refine ⟨{ raw with stack := { element := element, startSpan := startSpan } :: raw.stack }, rfl, lists,
    holds.base_eq, ?_⟩
  dsimp only
  rw [id]
  exact congrArg _ holds.opened_eq

theorem tells_leave (tells : builder.Tells source base outer opened) :
    builder.leave.Tells source base outer (opened.close none) := by
  obtain ⟨raw, rfl, holds⟩ := tells
  refine ⟨raw.leave, OpenElements.extend_leave raw, ?_, holds.base_eq, ?_⟩
  · rw [OpenElements.rows_leave]
    exact holds.lists
  · show builder.opened.tail = _
    rw [holds.opened_eq]
    obtain ⟨_ | ⟨innermost, others⟩, nodes⟩ := raw
    · rfl
    · exact (OpenElements.ids_add ⟨others, nodes⟩ base outer innermost.left).symm

theorem Holds.close (holds : builder.Holds source base outer raw) (endSpan : Span) :
    (builder.close endSpan).Holds source base outer (raw.close (some endSpan)) := by
  obtain ⟨_ | ⟨innermost, others⟩, nodes⟩ := raw
  · have none_open : builder.opened = [] := holds.opened_eq
    unfold Builder.close
    rw [none_open]
    exact holds
  · have opened : builder.opened = Growing.count (OpenElements.growing ⟨others, nodes⟩ base outer) ::
        Growing.ids others.length (OpenElements.growing ⟨others, nodes⟩ base outer) := holds.opened_eq
    unfold Builder.close
    rw [opened]
    refine ⟨?_, holds.base_eq, (OpenElements.ids_add ⟨others, nodes⟩ base outer _).symm⟩
    show (builder.tree.endElement _ endSpan).Lists source _
    unfold OpenElements.close OpenElement.close
    rw [OpenElements.rows_add]
    refine Growing.lists_modify holds.lists rfl fun node isRow => ?_
    show { Tree.unlinked node with
      span := ⟨(Tree.unlinked node).span.start, endSpan.stop⟩, endSpan := some endSpan } = _
    rw [isRow]
    rfl

theorem tells_close (tells : builder.Tells source base outer opened) (endSpan : Span) :
    (builder.close endSpan).Tells source base outer (opened.close (some endSpan)) := by
  obtain ⟨raw, rfl, holds⟩ := tells
  exact ⟨raw.close (some endSpan), OpenElements.extend_close raw endSpan, holds.close endSpan⟩

/-! ### Tags -/

theorem opened_of_tells_nil (tells : builder.Tells source base outer opened) (none_open : opened.stack = []) :
    builder.opened = [] := by
  obtain ⟨raw, rfl, holds⟩ := tells
  have none_open : raw.stack = [] := List.map_eq_nil_iff.mp none_open
  rw [holds.opened_eq, none_open]
  rfl

theorem opened_of_tells_cons {innermost : OpenElement} {others : List OpenElement}
    (tells : builder.Tells source base outer opened) (some_open : opened.stack = innermost :: others) :
    ∃ id ids, builder.opened = id :: ids ∧ (builder.tree.kind id).element? = some innermost.element := by
  obtain ⟨⟨stack, nodes⟩, rfl, holds⟩ := tells
  obtain ⟨first, rest, rfl, rfl, _⟩ := List.map_eq_cons_iff.mp some_open
  refine ⟨_, _, holds.opened_eq, ?_⟩
  have lists : builder.tree.Lists source
      (Growing.rows ([] ++ first.growing :: OpenElements.growing ⟨rest, nodes⟩ base outer) []) := holds.lists
  have info := Growing.info_eq lists
  exact congrArg (fun info : NodeInfo => info.kind.element?) info

theorem innermost?_of_tells (tells : builder.Tells source base outer opened) :
    builder.innermost? = opened.innermost? := by
  unfold innermost? OpenElements.innermost?
  cases same : opened.stack with
  | nil => rw [opened_of_tells_nil tells same]; rfl
  | cons innermost others =>
    obtain ⟨id, ids, some_open, element⟩ := opened_of_tells_cons tells same
    rw [some_open]
    exact element

theorem rel_closeNamed? (tells : builder.Tells source base outer opened) (name : String) (ns : Option String)
    (endSpan : Span) :
    Option.Rel (fun builder opened => Tells builder source base outer opened)
      ((builder.tree.closedBy? name ns builder.opened).map fun ids =>
        { builder with opened := ids : Builder }.close endSpan)
      (opened.closeNamed? name ns endSpan) := by
  fun_induction OpenElements.closeNamed? opened name ns endSpan generalizing builder with
  | case1 opened none_open =>
    rw [opened_of_tells_nil tells none_open]
    exact .none
  | case2 opened innermost others some_open named =>
    obtain ⟨id, ids, same, element⟩ := opened_of_tells_cons tells some_open
    have closes : builder.tree.closedBy? name ns builder.opened = some builder.opened := by
      rw [same, Tree.closedBy?, element]
      exact if_pos named
    rw [closes]
    exact .some (tells_close tells endSpan)
  | case3 opened innermost others some_open named implied ih =>
    obtain ⟨id, ids, same, element⟩ := opened_of_tells_cons tells some_open
    have passes : builder.tree.closedBy? name ns builder.opened =
        builder.leave.tree.closedBy? name ns builder.leave.opened := by
      unfold leave
      rw [same, Tree.closedBy?, element]
      dsimp only
      rw [if_neg named, if_pos implied]
      rfl
    rw [passes]
    exact ih (tells_leave tells)
  | case4 opened innermost others some_open named stays =>
    obtain ⟨id, ids, same, element⟩ := opened_of_tells_cons tells some_open
    have stops : builder.tree.closedBy? name ns builder.opened = none := by
      rw [same, Tree.closedBy?, element]
      dsimp only
      rw [if_neg named, if_neg stays]
    rw [stops]
    exact .none

/-- Both readers go on with the same nodes, or fail in the same way. -/
inductive Agree (source : String) (base : Growing) (outer : List Growing) :
    Except Failure Builder → Except Failure OpenElements → Prop where
  | ok {builder : Builder} {opened : OpenElements} (tells : builder.Tells source base outer opened) :
    Agree source base outer (.ok builder) (.ok opened)
  | error (failure : Failure) : Agree source base outer (.error failure) (.error failure)

theorem agree_endTag (tells : builder.Tells source base outer opened) (tag : EndTag) :
    Agree source base outer (builder.endTag tag) (opened.endTag tag) := by
  unfold endTag OpenElements.endTag OpenElements.namespaceOf
  split
  · exact .error _
  · dsimp only
    rw [innermost?_of_tells tells]
    have related := rel_closeNamed? tells tag.name.name (tag.name.namespaceIn opened.innermost?).1 tag.span
    generalize builder.tree.closedBy? _ _ _ = found at related ⊢
    generalize opened.closeNamed? _ _ _ = closed at related ⊢
    cases found with
    | none =>
      cases related
      exact .error _
    | some ids =>
      cases related with
      | some closed => exact .ok closed

theorem agree_componentEnd (tells : builder.Tells source base outer opened) (span : Span) :
    Agree source base outer (builder.componentEnd span) (opened.componentEnd span) := by
  unfold componentEnd OpenElements.componentEnd
  cases same : opened.stack with
  | nil =>
    rw [opened_of_tells_nil tells same]
    exact .error _
  | cons innermost others =>
    obtain ⟨id, ids, some_open, _⟩ := opened_of_tells_cons tells same
    rw [some_open]
    exact .ok (tells_close tells span)

theorem agree_follow (tells : builder.Tells source base outer opened) (lexeme : Lexeme) :
    Agree source base outer (builder.follow lexeme) (opened.follow lexeme) := by
  cases lexeme with
  | text | cdata | doctype | directive => exact .ok (tells_add tells _)
  | endTag tag => exact agree_endTag tells tag
  | componentEnd span => exact agree_componentEnd tells span
  | comment | startTag => exact .ok tells

theorem tells_startElement (tells : builder.Tells source base outer opened) (tag : StartTag) (element : Element) :
    let added := builder.append
      { kind := .element element
        span := tag.span
        startSpan := some tag.span
        endSpan := if tag.selfClosing then some tag.span else none }
    let started : Builder × Bool :=
      if tag.selfClosing || element.tag.isVoid then (added.1, false)
      else ({ added.1 with opened := added.2 :: added.1.opened }, element.hasRawContent)
    started.1.Tells source base outer (opened.startElement tag element).1 ∧
      started.2 = (opened.startElement tag element).2 := by
  unfold OpenElements.startElement
  dsimp only
  by_cases childless : (tag.selfClosing || element.tag.isVoid) = true
  · rw [if_pos childless, if_pos childless]
    exact ⟨tells_add tells _, rfl⟩
  · rw [if_neg childless, if_neg childless]
    have opens : tag.selfClosing = false := by
      rw [Bool.or_eq_true, not_or, Bool.not_eq_true] at childless
      exact childless.1
    rw [opens]
    exact ⟨tells_open tells, rfl⟩

theorem tells_startTag (tells : builder.Tells source base outer opened) (tag : StartTag) :
    (builder.startTag tag).1.Tells source base outer (opened.startTag tag).1 ∧
      (builder.startTag tag).2 = (opened.startTag tag).2 := by
  rw [OpenElements.startTag_eq_startElement]
  unfold startTag OpenElements.endedBy
  rw [innermost?_of_tells tells]
  dsimp only
  cases opened.innermost? with
  | none => exact tells_startElement tells tag _
  | some parent =>
    dsimp only
    by_cases closed : parent.tag.isClosedBy tag.name.name = true
    · rw [if_pos closed, if_pos closed]
      exact tells_startElement (tells_leave tells) tag _
    · rw [if_neg closed, if_neg closed]
      exact tells_startElement tells tag _

end Builder

/-! ### Content -/

variable {options : ParseOptions} {builder : Builder} {source : String} {base : Growing} {outer : List Growing}
  {opened : OpenElements}

theorem tells_readRawContent (tells : builder.Tells source base outer opened) (name : String) (cursor : Cursor) :
    ∃ after, (builder.readRawContent name cursor).1.Tells source base outer after ∧
      readRawContent opened name cursor =
        (builder.readRawContent name cursor).2.map fun next => (after, next) := by
  unfold readRawContent Builder.readRawContent
  generalize readRaw name.toList cursor.rest = raw
  obtain ⟨value, rest⟩ := raw
  dsimp only
  generalize cursor.skip value rest = next
  have inside : (if value = [] then builder
      else builder.add { kind := .text (String.ofList value), span := cursor.spanTo next }).Tells source base outer
      (if value = [] then opened else opened.add (.leaf (.text (String.ofList value)) (cursor.spanTo next))) := by
    split
    · exact tells
    · exact Builder.tells_add tells _
  by_cases atEnd : rest = []
  · rw [if_pos atEnd, if_pos atEnd]
    exact ⟨_, inside, rfl⟩
  · rw [if_neg atEnd, if_neg atEnd]
    cases readEndTag next with
    | error failure => exact ⟨_, inside, rfl⟩
    | ok read => exact ⟨_, Builder.tells_close inside read.1.span, rfl⟩

theorem tells_readElement (tells : builder.Tells source base outer opened) (tag : StartTag) (cursor : Cursor) :
    ∃ after, (builder.readElement tag cursor).1.Tells source base outer after ∧
      readElement opened tag cursor = (builder.readElement tag cursor).2.map fun next => (after, next) := by
  obtain ⟨started, raw⟩ := Builder.tells_startTag tells tag
  unfold readElement Builder.readElement
  generalize builder.startTag tag = built at started raw ⊢
  generalize opened.startTag tag = expected at started raw ⊢
  obtain ⟨built, isRaw⟩ := built
  obtain ⟨expected, isRaw'⟩ := expected
  obtain rfl : isRaw = isRaw' := raw
  cases isRaw with
  | true => exact tells_readRawContent started _ _
  | false => exact ⟨expected, started, rfl⟩

/-! ### Sections -/

variable {raw : OpenElements} {span : Span} {condition : String} {before body : List Char}

theorem Builder.Holds.tells_inside (holds : builder.Holds source base outer raw) (info : NodeInfo) :
    { tree := (builder.append info).1.tree, base := (builder.append info).2 : Builder }.Tells source
      { info := info } (raw.growing base outer) {} := by
  obtain ⟨lists, id⟩ := holds.append info
  exact ⟨{}, rfl, lists, id, rfl⟩

/-- What was read of a section is dropped, and its comment has the section as a text. -/
theorem lists_keepSection {tree : Tree} {read : OpenElements} {around : List Growing}
    (lists : tree.Lists source
      (Growing.rows (read.growing { info := conditionalInfo span condition before body true } around) [])) :
    (Builder.keepSection tree (Growing.count around) (Growing.count around + 1) condition body
      (sectionSpan span before body)).Lists source
      (Growing.rows
        ({ info := conditionalInfo span condition before body false
           children := [.leaf (.text (String.ofList body)) (sectionSpan span before body)] } :: around) []) := by
  obtain ⟨row, info, truncated⟩ := Growing.lists_truncate lists
  have incomplete : ((tree.truncate (Growing.count around + 1)).modify (Growing.count around) fun node =>
      { node with kind := .conditional condition false, children := [] }).Lists source
        (Growing.rows ({ info := conditionalInfo span condition before body false } :: around) []) := by
    have changes (node : Node) (isRow : Tree.unlinked node = row) :
        Tree.unlinked { node with kind := .conditional condition false, children := [] } =
          ({ info := conditionalInfo span condition before body false } : Growing).row (Growing.count around) [] := by
      have same : node.toNodeInfo = conditionalInfo span condition before body true :=
        (congrArg (fun node : Node => node.toNodeInfo) isRow).trans info
      show ({ toNodeInfo := { node.toNodeInfo with kind := .conditional condition false } } : Node) = _
      rw [same]
      rfl
    have changed := truncated.modify changes
    rw [Growing.length_rows] at changed
    exact changed
  have added := Growing.lists_append incomplete
    { kind := .text (String.ofList body), span := sectionSpan span before body }
  rw [Growing.rows_leave] at added
  exact added

/-- After its section, a conditional comment has what was read of it as its content, or the text of it. -/
theorem tells_endSection {read : Builder × Except Failure Unit} {content : OpenElements}
    (holds : builder.Holds source base outer raw)
    (tells : read.1.Tells source { info := conditionalInfo span condition before body true } (raw.growing base outer)
      content) :
    let added := builder.append (conditionalInfo span condition before body true)
    (added.1.endSection added.2 condition body (sectionSpan span before body) read).Tells source base outer
      (raw.extend.add (conditionalNode span condition before body (read.2.map fun _ => content))) := by
  obtain ⟨inner, result⟩ := read
  obtain ⟨read, rfl, inside⟩ := tells
  obtain ⟨lists, id⟩ := holds.append (conditionalInfo span condition before body true)
  dsimp only
  cases result with
  | ok =>
    obtain ⟨nodes, finished, rows⟩ := read.exists_finish { info := conditionalInfo span condition before body true }
      (raw.growing base outer)
    have lists := inside.lists
    rw [rows, List.nil_append] at lists
    refine ⟨raw.add _, ?_, holds.withTree lists⟩
    rw [OpenElements.extend_add, Fragment.extend_node rfl, finished]
    rfl
  | error failure =>
    have size : (builder.append (conditionalInfo span condition before body true)).1.tree.size =
        Growing.count (raw.growing base outer) + 1 := by
      rw [lists.size_eq, Growing.length_rows]
      rfl
    unfold Builder.endSection
    dsimp only
    rw [id, size]
    refine ⟨raw.add _, ?_, holds.withTree (lists_keepSection inside.lists)⟩
    rw [OpenElements.extend_add, Fragment.extend_node rfl]
    rfl

/-! ### Steps of the builder -/

namespace Builder

variable {cursor next : Cursor}

theorem read_of_error {failure : Failure} (nonempty : cursor.rest ≠ [])
    (lexed : readLexeme options cursor = .error failure) :
    builder.read options cursor = (builder, .error failure) := by
  rw [read, dif_neg nonempty]
  grind

theorem read_of_startTag {tag : StartTag} (nonempty : cursor.rest ≠ [])
    (lexed : readLexeme options cursor = .ok (.startTag tag, next)) :
    builder.read options cursor =
      match builder.readElement tag next with
      | (builder, .error failure) => (builder, .error failure)
      | (builder, .ok next) => builder.read options next := by
  rw [read, dif_neg nonempty]
  grind

theorem read_of_section {value : List Char} (nonempty : cursor.rest ≠ [])
    (lexed : readLexeme options cursor = .ok (.comment value span, next))
    (found : conditionalOf? options value = some (.block condition before body)) :
    let added := builder.append (conditionalInfo span condition before body true)
    builder.read options cursor =
      (added.1.endSection added.2 condition body (sectionSpan span before body)
        ({ tree := added.1.tree, base := added.2 : Builder }.read options ⟨sectionStart span before, body⟩)).read
        options next := by
  rw [read, dif_neg nonempty]
  grind

theorem read_of_comment {value : List Char} (nonempty : cursor.rest ≠ [])
    (lexed : readLexeme options cursor = .ok (.comment value span, next))
    (other : ∀ condition before body, conditionalOf? options value ≠ some (.block condition before body)) :
    builder.read options cursor =
      (builder.add (commentNode span value (conditionalOf? options value)).info).read options next := by
  rw [read, dif_neg nonempty]
  grind

theorem read_of_follow {lexeme : Lexeme} (nonempty : cursor.rest ≠ [])
    (lexed : readLexeme options cursor = .ok (lexeme, next))
    (noElement : ∀ tag, lexeme ≠ .startTag tag) (noComment : ∀ value span, lexeme ≠ .comment value span) :
    builder.read options cursor =
      match builder.follow lexeme with
      | .error failure => (builder, .error failure)
      | .ok builder => builder.read options next := by
  rw [read, dif_neg nonempty]
  grind

end Builder

/-- Reading tells of the same nodes in the table and in the open elements, also up to a failure. -/
theorem tells_read (options : ParseOptions) (cursor : Cursor) (tells : builder.Tells source base outer opened) :
    ∃ after, (builder.read options cursor).1.Tells source base outer after ∧
      readContent options opened cursor = (builder.read options cursor).2.map fun _ => after := by
  fun_induction readContent options opened cursor generalizing builder base outer with
  | case1 opened cursor empty =>
    rw [Builder.read, dif_pos empty]
    exact ⟨opened, tells, rfl⟩
  | case2 opened cursor nonempty failure lexed =>
    rw [Builder.read_of_error nonempty lexed]
    exact ⟨opened, tells, rfl⟩
  | case3 opened cursor nonempty tag next lexed failure element =>
    obtain ⟨after, tells, spec⟩ := tells_readElement tells tag next
    rw [Builder.read_of_startTag nonempty lexed]
    generalize builder.readElement tag next = built at tells spec
    obtain ⟨built, result⟩ := built
    rw [element] at spec
    cases result with
    | ok => cases spec
    | error other =>
      cases spec
      exact ⟨after, tells, rfl⟩
  | case4 opened cursor nonempty tag next lexed inner later element ih =>
    obtain ⟨after, tells, spec⟩ := tells_readElement tells tag next
    rw [Builder.read_of_startTag nonempty lexed]
    generalize builder.readElement tag next = built at tells spec
    obtain ⟨built, result⟩ := built
    rw [element] at spec
    cases result with
    | error => cases spec
    | ok last =>
      cases spec
      exact ih tells
  | case5 opened cursor nonempty value span next lexed condition before body found content ihInside =>
    rename_i ih
    -- The section starts without open elements; those around it grow no further until it is read.
    obtain ⟨raw, rfl, holds⟩ := tells
    rw [Builder.read_of_section nonempty lexed found]
    obtain ⟨inside, tells, spec⟩ := ihInside (holds.tells_inside (conditionalInfo span condition before body true))
    have ended := tells_endSection holds tells
    rw [← spec] at ended
    exact ih ended
  | case6 opened cursor nonempty value span next lexed other ih =>
    rw [Builder.read_of_comment nonempty lexed other]
    have leaf : commentNode span value (conditionalOf? options value) =
        .node (commentNode span value (conditionalOf? options value)).info [] := by
      unfold commentNode
      split <;> rfl
    have added := Builder.tells_add tells (commentNode span value (conditionalOf? options value)).info
    rw [← leaf] at added
    exact ih added
  | case7 opened cursor nonempty lexeme next noElement noComment lexed failure followed =>
    have agree := Builder.agree_follow tells lexeme
    rw [Builder.read_of_follow nonempty lexed noElement noComment]
    rw [followed] at agree
    generalize builder.follow lexeme = built at agree
    cases agree
    exact ⟨opened, tells, rfl⟩
  | case8 opened cursor nonempty lexeme next noElement noComment lexed inner followed ih =>
    have agree := Builder.agree_follow tells lexeme
    rw [Builder.read_of_follow nonempty lexed noElement noComment]
    rw [followed] at agree
    generalize builder.follow lexeme = built at agree
    cases agree with
    | ok tells => exact ih tells

/-! ### Sources -/

namespace Tree

/-- The root of a source, before anything is read. -/
def rootInfo (source : String) : NodeInfo :=
  { kind := .root, span := ⟨0, Text.byteLength source.toList⟩ }

theorem finish_of_tells {children : List Fragment}
    (tells : builder.Tells source { info := rootInfo source, children := children } [] opened) :
    builder.finish = ofContent source (extendAll children ++ opened.finish) := by
  obtain ⟨raw, rfl, holds⟩ := tells
  obtain ⟨nodes, finished, rows⟩ := raw.exists_finish { info := rootInfo source, children := children } []
  have lists := holds.lists
  have whole : Growing.rows [{ info := rootInfo source, children := children ++ nodes }] [] =
      nodesOf rootId (.node (rootInfo source) (children ++ nodes)) := by
    rw [nodesOf, ← List.append_nil (numbers _ _)]
    rfl
  rw [rows, whole] at lists
  have linked := lists.extendSpans.relink
  rw [Fragment.extend_node rfl, Fragment.extendAll_append, finished] at linked
  exact linked

theorem map_finish_read {children : List Fragment} (options : ParseOptions) (cursor : Cursor)
    (tells : builder.Tells source { info := rootInfo source, children := children } [] {}) :
    ((builder.read options cursor).2.map fun _ => (builder.read options cursor).1.finish) =
      (readContent options {} cursor).map fun opened =>
        ofContent source (extendAll children ++ opened.finish) := by
  obtain ⟨opened, tells, spec⟩ := tells_read options cursor tells
  rw [spec, finish_of_tells tells]
  cases (builder.read options cursor).2 with
  | error failure => rfl
  | ok => rfl

theorem read_eq (options : ParseOptions) (source : String) :
    read options source = (readSource options source.toList).map (ofContent source) := by
  have start : { tree := .empty source, base := rootId : Builder }.Holds source { info := rootInfo source } [] {} :=
    ⟨lists_empty source, rfl, rfl⟩
  unfold read readSource
  dsimp only [bind, Except.bind]
  cases (if options.frontMatter = true then FrontMatter.parse? source.toList else none) with
  | none =>
    dsimp only
    rw [map_finish_read options ⟨0, source.toList⟩ ⟨{}, rfl, start⟩]
    cases readContent options {} ⟨0, source.toList⟩ with
    | error failure => rfl
    | ok opened => rfl
  | some block =>
    let length := Text.byteLength block.raw.toList
    let info : NodeInfo := { kind := .frontMatter block, span := ⟨0, length⟩ }
    have added := start.withTree (start.append info).1
    have before : ({ tree := .empty source, base := rootId : Builder }.add info).Tells source
        { info := rootInfo source, children := [.node info []] } [] {} :=
      ⟨{}, rfl, added.lists, added.base_eq, rfl⟩
    dsimp only
    rw [map_finish_read options _ before]
    cases readContent options {} ⟨length, source.toList.drop block.raw.toList.length⟩ with
    | error failure => rfl
    | ok opened => rfl

theorem ofSource_eq (source : String) (options : ParseOptions) :
    ofSource source options = (parse source options).map (ofContent source) := by
  unfold ofSource parse
  rw [read_eq]
  dsimp only
  split
  · rfl
  · cases readSource options source.toList <;> rfl

end Tree

end MarkupFormat.Markup
