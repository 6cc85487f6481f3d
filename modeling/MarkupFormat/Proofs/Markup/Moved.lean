import MarkupFormat.Proofs.Markup.Reading

/-!
# Reading at another place

What is read depends on where it stands only in its offsets: the same characters that stand further on, after nodes
that were read before them, are read as the same nodes with their spans moved (`readContent_moved`).
-/

namespace MarkupFormat.Markup

open Text (byteLength opensBlock scan templateBlock?)

/-! ### What is moved -/

def Span.moved (offset : Nat) (span : Span) : Span :=
  ⟨span.start + offset, span.stop + offset⟩

def Attribute.moved (offset : Nat) (attr : Attribute) : Attribute :=
  { attr with span := attr.span.moved offset, valueSpan := attr.valueSpan.map (·.moved offset) }

def Element.moved (offset : Nat) (element : Element) : Element :=
  { element with
    attributes := element.attributes.map (·.moved offset)
    nameSpan := element.nameSpan.moved offset }

def StartTag.moved (offset : Nat) (tag : StartTag) : StartTag :=
  { tag with
    span := tag.span.moved offset
    nameSpan := tag.nameSpan.moved offset
    attributes := tag.attributes.map (·.moved offset) }

def EndTag.moved (offset : Nat) (tag : EndTag) : EndTag :=
  { tag with span := tag.span.moved offset }

def Failure.moved (offset : Nat) (failure : Failure) : Failure :=
  { failure with span := failure.span.moved offset }

def Cursor.moved (offset : Nat) (cursor : Cursor) : Cursor :=
  { cursor with pos := cursor.pos + offset }

def Lexeme.moved (offset : Nat) : Lexeme → Lexeme
  | text value span => .text value (span.moved offset)
  | comment value span => .comment value (span.moved offset)
  | cdata value span => .cdata value (span.moved offset)
  | doctype value span => .doctype value (span.moved offset)
  | directive value span => .directive value (span.moved offset)
  | startTag tag => .startTag (tag.moved offset)
  | endTag tag => .endTag (tag.moved offset)
  | componentEnd span => .componentEnd (span.moved offset)

def NodeKind.moved (offset : Nat) : NodeKind → NodeKind
  | element inner => .element (inner.moved offset)
  | other => other

def NodeInfo.moved (offset : Nat) (info : NodeInfo) : NodeInfo :=
  { info with
    kind := info.kind.moved offset
    span := info.span.moved offset
    startSpan := info.startSpan.map (·.moved offset)
    endSpan := info.endSpan.map (·.moved offset) }

namespace Fragment

mutual

def moved (offset : Nat) : Fragment → Fragment
  | node info children => .node (info.moved offset) (movedAll offset children)

def movedAll (offset : Nat) : List Fragment → List Fragment
  | [] => []
  | fragment :: rest => fragment.moved offset :: movedAll offset rest

end

theorem movedAll_eq_map (offset : Nat) (fragments : List Fragment) :
    movedAll offset fragments = fragments.map (·.moved offset) := by
  induction fragments with
  | nil => rfl
  | cons fragment rest ih => rw [movedAll, ih, List.map_cons]

theorem moved_node (offset : Nat) (info : NodeInfo) (children : List Fragment) :
    (node info children).moved offset = node (info.moved offset) (children.map (·.moved offset)) := by
  rw [moved, movedAll_eq_map]

theorem span_moved (offset : Nat) (fragment : Fragment) :
    (fragment.moved offset).span = fragment.span.moved offset := by
  cases fragment
  rfl

end Fragment

def OpenElement.moved (offset : Nat) (opened : OpenElement) : OpenElement :=
  { element := opened.element.moved offset
    startSpan := opened.startSpan.moved offset
    children := opened.children.map (·.moved offset) }

/-- What was read further on, after other nodes, the last of them first. -/
def OpenElements.movedAfter (offset : Nat) (before : List Fragment) (opened : OpenElements) : OpenElements :=
  { stack := opened.stack.map (·.moved offset)
    nodes := opened.nodes.map (·.moved offset) ++ before }

/-- A result that was read further on, or the failure there. -/
def movedResult {α : Type} (offset : Nat) (move : α → α) : Except Failure α → Except Failure α
  | .ok value => .ok (move value)
  | .error failure => .error (failure.moved offset)

/-! ### Cursors -/

variable (offset : Nat) (cursor : Cursor)

namespace Cursor

theorem rest_moved : (cursor.moved offset).rest = cursor.rest := rfl

theorem textTo_moved (later : Cursor) : (cursor.moved offset).textTo (later.moved offset) = cursor.textTo later := rfl

theorem skip_moved (taken rest : List Char) :
    (cursor.moved offset).skip taken rest = (cursor.skip taken rest).moved offset := by
  simp only [skip, moved, Nat.add_right_comm]

theorem skipSpace_moved : (cursor.moved offset).skipSpace = cursor.skipSpace.moved offset :=
  skip_moved offset cursor _ _

theorem spanTo_moved (later : Cursor) :
    (cursor.moved offset).spanTo (later.moved offset) = (cursor.spanTo later).moved offset := rfl

theorem unterminated_moved (inside : Construct) :
    (cursor.moved offset).unterminated inside = (cursor.unterminated inside).moved offset := by
  simp only [unterminated, stop, moved, Failure.moved, Span.moved, Nat.add_right_comm]

theorem unexpected_moved (inside : Construct) :
    (cursor.moved offset).unexpected inside = (cursor.unexpected inside).moved offset := by
  have same : (cursor.moved offset).rest = cursor.rest := rfl
  unfold unexpected
  rw [same]
  split
  · exact unterminated_moved offset cursor inside
  · simp only [moved, Failure.moved, Span.moved, Nat.add_right_comm]

end Cursor

open Cursor (skip_moved skipSpace_moved)

/-! ### Tags -/

theorem readTagName_moved :
    readTagName (cursor.moved offset) = ((readTagName cursor).1, (readTagName cursor).2.moved offset) :=
  congrArg (Prod.mk _) (skip_moved offset cursor _ _)

theorem quotedValue_moved (quote : Char) (cs : List Char) :
    readValue.quotedValue (cursor.moved offset) quote cs =
      let read := readValue.quotedValue cursor quote cs
      (read.1, read.2.1.moved offset, read.2.2.moved offset) := by
  simp only [readValue.quotedValue, skip_moved, Cursor.spanTo_moved]

theorem readValue_moved :
    readValue (cursor.moved offset) =
      ((readValue cursor).1, (readValue cursor).2.1.moved offset, (readValue cursor).2.2.moved offset) := by
  have same : (cursor.moved offset).rest = cursor.rest := rfl
  unfold readValue
  rw [same]
  split
  · exact quotedValue_moved ..
  · exact quotedValue_moved ..
  · simp only [skip_moved, Cursor.spanTo_moved]

theorem readSingle_moved :
    readSingle (cursor.moved offset) = ((readSingle cursor).1.moved offset, (readSingle cursor).2.moved offset) := by
  have same (cursor : Cursor) : (cursor.moved offset).rest = cursor.rest := rfl
  unfold readSingle
  rw [same]
  split
  · simp only [skip_moved, Cursor.spanTo_moved]
    rfl
  · dsimp only
    rw [skip_moved, skipSpace_moved, same]
    split
    · simp only [skip_moved, skipSpace_moved, readValue_moved, Cursor.spanTo_moved]
      rfl
    · rfl

theorem readAttribute_moved :
    readAttribute (cursor.moved offset) =
      ((readAttribute cursor).1.moved offset, (readAttribute cursor).2.moved offset) := by
  have same : decide (((readSingle cursor).2.moved offset).pos = ((readSingle cursor).1.moved offset).span.stop) =
      decide ((readSingle cursor).2.pos = (readSingle cursor).1.span.stop) :=
    decide_eq_decide.mpr Nat.add_right_cancel_iff
  unfold readAttribute
  simp only [readSingle_moved, same, Cursor.rest_moved, Cursor.textTo_moved, skip_moved, Cursor.spanTo_moved]
  split <;> rfl

theorem readAttributes_eq (inside : Construct) :
    readAttributes inside cursor =
      match cursor.skipSpace.rest with
      | '>' :: rest => .ok ([], false, cursor.skipSpace.skip ['>'] rest)
      | '/' :: '>' :: rest => .ok ([], true, cursor.skipSpace.skip ['/', '>'] rest)
      | '/' :: rest => readAttributes inside (cursor.skipSpace.skip ['/'] rest)
      | rest =>
        if atNameEnd rest then .error (cursor.skipSpace.unexpected inside)
        else
          let read := readAttribute cursor.skipSpace
          match readAttributes inside read.2 with
          | .ok (attributes, selfClosing, last) => .ok (read.1 :: attributes, selfClosing, last)
          | .error failure => .error failure := by
  rw [readAttributes]
  grind

theorem readAttributes_moved (inside : Construct) :
    readAttributes inside (cursor.moved offset) =
      movedResult offset (fun read => (read.1.map (·.moved offset), read.2.1, read.2.2.moved offset))
        (readAttributes inside cursor) := by
  induction size : cursor.rest.length using Nat.strongRecOn generalizing cursor with
  | ind length ih =>
    subst size
    have spaces := cursor.length_skipSpace_le
    rw [readAttributes_eq, readAttributes_eq cursor, skipSpace_moved, Cursor.rest_moved]
    split
    · rw [skip_moved]
      rfl
    · rw [skip_moved]
      rfl
    · next rest _ same =>
      have shorter := congrArg List.length same
      simp only [List.length_cons] at shorter
      rw [skip_moved]
      exact ih rest.length (by omega) _ rfl
    · split
      · rw [Cursor.unexpected_moved]
        rfl
      · next begins =>
        have shorter := length_readAttribute_lt (Bool.not_eq_true _ ▸ begins)
        rw [readAttribute_moved]
        dsimp only
        rw [ih _ (by omega) _ rfl]
        cases readAttributes inside (readAttribute cursor.skipSpace).2 <;> rfl

theorem readStartTag_moved :
    readStartTag (cursor.moved offset) =
      movedResult offset (fun read => (read.1.moved offset, read.2.moved offset)) (readStartTag cursor) := by
  unfold readStartTag
  dsimp only [bind, Except.bind]
  have same : (cursor.moved offset).rest = cursor.rest := rfl
  rw [same, skip_moved, readTagName_moved]
  dsimp only
  rw [readAttributes_moved]
  cases readAttributes _ _ <;> rfl

theorem readEndTag_moved :
    readEndTag (cursor.moved offset) =
      movedResult offset (fun read => (read.1.moved offset, read.2.moved offset)) (readEndTag cursor) := by
  unfold readEndTag
  have same (cursor : Cursor) : (cursor.moved offset).rest = cursor.rest := rfl
  dsimp only
  rw [same, skip_moved, readTagName_moved]
  dsimp only
  rw [skipSpace_moved, same]
  split
  · simp only [skip_moved, Cursor.spanTo_moved]
    rfl
  · rw [Cursor.unexpected_moved]
    rfl

/-! ### Lexemes -/

theorem readDelimited_moved (opening closing : List Char) (inside : Construct) :
    readDelimited opening closing inside (cursor.moved offset) =
      movedResult offset (fun read => (read.1, read.2.1.moved offset, read.2.2.moved offset))
        (readDelimited opening closing inside cursor) := by
  unfold readDelimited
  have same : (cursor.moved offset).rest = cursor.rest := rfl
  rw [same]
  split
  · simp only [skip_moved, Cursor.spanTo_moved]
    rfl
  · rw [Cursor.unterminated_moved]
    rfl

theorem readLexeme_moved (options : ParseOptions) :
    readLexeme options (cursor.moved offset) =
      movedResult offset (fun read => (read.1.moved offset, read.2.moved offset)) (readLexeme options cursor) := by
  have same : (cursor.moved offset).rest = cursor.rest := rfl
  unfold readLexeme
  dsimp only
  rw [same]
  split
  · simp only [skip_moved, Cursor.spanTo_moved]
    rfl
  split
  · rw [readDelimited_moved]
    cases readDelimited _ _ _ cursor <;> rfl
  split
  · rw [readDelimited_moved]
    cases readDelimited _ _ _ cursor <;> rfl
  split
  · rw [readDelimited_moved]
    cases readDelimited _ _ _ cursor <;> rfl
  split
  · rw [readDelimited_moved]
    cases readDelimited _ _ _ cursor <;> rfl
  split
  · simp only [skip_moved, Cursor.spanTo_moved]
    rfl
  split
  · rw [readEndTag_moved]
    cases readEndTag cursor <;> rfl
  · rw [readStartTag_moved]
    cases readStartTag cursor <;> rfl

theorem lexed_moved {options : ParseOptions} {cursor next : Cursor} {lexeme : Lexeme}
    (lexed : readLexeme options cursor = .ok (lexeme, next)) :
    readLexeme options (cursor.moved offset) = .ok (lexeme.moved offset, next.moved offset) :=
  (readLexeme_moved offset cursor options).trans (congrArg _ lexed)

/-! ### Open elements -/

namespace OpenElement

theorem impliedStop_moved (opened : OpenElement) : (opened.moved offset).impliedStop = opened.impliedStop + offset := by
  obtain ⟨element, span, children⟩ := opened
  cases children with
  | nil => rfl
  | cons last others =>
    simp only [impliedStop, moved, List.map_cons, Fragment.span_moved]
    exact Nat.add_max_add_right ..

theorem close_moved (opened : OpenElement) (endSpan : Option Span) :
    (opened.moved offset).close (endSpan.map (·.moved offset)) = (opened.close endSpan).moved offset := by
  cases endSpan with
  | none =>
    simp only [close, Option.map_none, impliedStop_moved, Fragment.moved_node, List.map_reverse]
    rfl
  | some span =>
    simp only [close, Option.map_some, Fragment.moved_node, List.map_reverse]
    rfl

end OpenElement

theorem tag_moved (element : Element) : (element.moved offset).tag = element.tag := rfl

namespace OpenElements

variable (before : List Fragment) (opened : OpenElements)

theorem add_moved (node : Fragment) :
    (opened.movedAfter offset before).add (node.moved offset) = (opened.add node).movedAfter offset before := by
  obtain ⟨stack, nodes⟩ := opened
  cases stack <;> rfl

theorem close_moved (endSpan : Option Span) :
    (opened.movedAfter offset before).close (endSpan.map (·.moved offset)) =
      (opened.close endSpan).movedAfter offset before := by
  obtain ⟨stack, nodes⟩ := opened
  cases stack with
  | nil => rfl
  | cons innermost outer =>
    have inner := innermost.close_moved offset endSpan
    have added := add_moved offset before ⟨outer, nodes⟩ (innermost.close endSpan)
    rw [← inner] at added
    exact added

theorem closeAll_moved : (opened.movedAfter offset before).closeAll = opened.closeAll.movedAfter offset before := by
  fun_induction closeAll opened with
  | case1 opened empty =>
    rw [closeAll, if_pos]
    exact List.map_eq_nil_iff.mpr empty
  | case2 opened some ih =>
    have some' : (opened.movedAfter offset before).stack ≠ [] := mt List.map_eq_nil_iff.mp some
    rw [closeAll, if_neg some', ← ih]
    exact congrArg closeAll (close_moved offset before opened none)

theorem finish_moved :
    (opened.movedAfter offset before).finish = before.reverse ++ opened.finish.map (·.moved offset) := by
  unfold finish
  rw [closeAll_moved]
  simp only [movedAfter, List.reverse_append, List.map_reverse]

theorem innermost?_moved :
    (opened.movedAfter offset before).innermost? = opened.innermost?.map (·.moved offset) := by
  obtain ⟨stack, nodes⟩ := opened
  cases stack <;> rfl

theorem closeNamed?_moved (name : String) (ns : Option String) (endSpan : Span) :
    (opened.movedAfter offset before).closeNamed? name ns (endSpan.moved offset) =
      (opened.closeNamed? name ns endSpan).map (·.movedAfter offset before) := by
  fun_induction OpenElements.closeNamed? opened name ns endSpan with
  | case1 opened none_open =>
    obtain ⟨stack, nodes⟩ := opened
    cases none_open
    rw [closeNamed?]
    rfl
  | case2 opened innermost outer some_open named =>
    have closed := close_moved offset before opened (some endSpan)
    obtain ⟨stack, nodes⟩ := opened
    cases some_open
    rw [closeNamed?]
    exact (if_pos named).trans (congrArg some closed)
  | case3 opened innermost outer some_open named implied ih =>
    have closed := close_moved offset before opened none
    rw [← ih, ← closed]
    obtain ⟨stack, nodes⟩ := opened
    cases some_open
    rw [closeNamed?]
    exact (if_neg named).trans (if_pos implied)
  | case4 opened innermost outer some_open named stays =>
    obtain ⟨stack, nodes⟩ := opened
    cases some_open
    rw [closeNamed?]
    exact (if_neg named).trans (if_neg stays)

theorem namespaceIn_moved (name : TagName) (parent : Option Element) :
    name.namespaceIn (parent.map (·.moved offset)) = name.namespaceIn parent := by
  cases parent <;> rfl

theorem endTag_moved (tag : EndTag) :
    (opened.movedAfter offset before).endTag (tag.moved offset) =
      movedResult offset (·.movedAfter offset before) (opened.endTag tag) := by
  unfold endTag namespaceOf
  rw [innermost?_moved, namespaceIn_moved]
  have same : (tag.moved offset).name = tag.name := rfl
  rw [same]
  split
  · rfl
  · rw [show (tag.moved offset).span = tag.span.moved offset from rfl, closeNamed?_moved]
    cases opened.closeNamed? _ _ _ <;> rfl

theorem elementIn_moved (tag : StartTag) (parent : Option Element) :
    (tag.moved offset).elementIn (parent.map (·.moved offset)) = (tag.elementIn parent).moved offset := by
  unfold StartTag.elementIn
  dsimp only
  rw [namespaceIn_moved]
  rfl

theorem endedBy_moved (name : String) :
    (opened.movedAfter offset before).endedBy name = (opened.endedBy name).movedAfter offset before := by
  unfold endedBy
  rw [innermost?_moved]
  cases opened.innermost? with
  | none => rfl
  | some parent =>
    dsimp only [Option.map_some]
    rw [tag_moved]
    split
    · exact close_moved offset before opened none
    · rfl

theorem startElement_moved (tag : StartTag) (element : Element) :
    (opened.movedAfter offset before).startElement (tag.moved offset) (element.moved offset) =
      ((opened.startElement tag element).1.movedAfter offset before, (opened.startElement tag element).2) := by
  unfold startElement
  rw [tag_moved, show (tag.moved offset).selfClosing = tag.selfClosing from rfl]
  split
  · refine congrArg (·, false) ?_
    dsimp only
    rw [← add_moved]
    cases tag.selfClosing <;> rfl
  · rfl

theorem startTag_moved (tag : StartTag) :
    (opened.movedAfter offset before).startTag (tag.moved offset) =
      ((opened.startTag tag).1.movedAfter offset before, (opened.startTag tag).2) := by
  rw [startTag_eq_startElement, innermost?_moved, elementIn_moved, startTag_eq_startElement, ← startElement_moved,
    ← endedBy_moved]
  rfl

theorem componentEnd_moved (span : Span) :
    (opened.movedAfter offset before).componentEnd (span.moved offset) =
      movedResult offset (·.movedAfter offset before) (opened.componentEnd span) := by
  have empty : (opened.movedAfter offset before).stack.isEmpty = opened.stack.isEmpty := List.isEmpty_map
  unfold componentEnd
  rw [empty]
  split
  · rfl
  · exact congrArg Except.ok (close_moved offset before opened (some span))

theorem follow_moved (lexeme : Lexeme) :
    (opened.movedAfter offset before).follow (lexeme.moved offset) =
      movedResult offset (·.movedAfter offset before) (opened.follow lexeme) := by
  have added (kind : NodeKind) (span : Span) := congrArg (@Except.ok Failure _)
    (add_moved offset before opened (.leaf kind span))
  cases lexeme with
  | text value span => exact added (.text (String.ofList value)) span
  | cdata value span => exact added (.cdata (String.ofList value)) span
  | doctype value span => exact added (.doctype (String.ofList value)) span
  | directive value span => exact added (.directive (String.ofList value)) span
  | comment | startTag => rfl
  | endTag tag => exact endTag_moved offset before opened tag
  | componentEnd span => exact componentEnd_moved offset before opened span

end OpenElements

/-! ### Content -/

theorem readRawContent_moved (before : List Fragment) (opened : OpenElements) (name : String) :
    readRawContent (opened.movedAfter offset before) name (cursor.moved offset) =
      movedResult offset (fun read => (read.1.movedAfter offset before, read.2.moved offset))
        (readRawContent opened name cursor) := by
  unfold readRawContent
  rw [Cursor.rest_moved]
  generalize readRaw name.toList cursor.rest = raw
  obtain ⟨value, rest⟩ := raw
  dsimp only
  rw [skip_moved, Cursor.spanTo_moved, readEndTag_moved]
  generalize cursor.skip value rest = next
  have inside : (if value = [] then opened.movedAfter offset before
      else (opened.movedAfter offset before).add
        (.leaf (.text (String.ofList value)) ((cursor.spanTo next).moved offset))) =
      (if value = [] then opened
        else opened.add (.leaf (.text (String.ofList value)) (cursor.spanTo next))).movedAfter offset before := by
    split
    · rfl
    · exact OpenElements.add_moved offset before opened (.leaf (.text (String.ofList value)) (cursor.spanTo next))
  rw [inside]
  split
  · rfl
  · cases readEndTag next with
    | error failure => rfl
    | ok read =>
      exact congrArg (fun closed => Except.ok (closed, read.2.moved offset))
        (OpenElements.close_moved offset before _ (some read.1.span))

theorem readElement_moved (before : List Fragment) (opened : OpenElements) (tag : StartTag) :
    readElement (opened.movedAfter offset before) (tag.moved offset) (cursor.moved offset) =
      movedResult offset (fun read => (read.1.movedAfter offset before, read.2.moved offset))
        (readElement opened tag cursor) := by
  unfold readElement
  rw [OpenElements.startTag_moved]
  cases opened.startTag tag with
  | mk opened raw =>
    cases raw with
    | true => exact readRawContent_moved ..
    | false => rfl

theorem sectionStart_moved (span : Span) (before : List Char) :
    sectionStart (span.moved offset) before = sectionStart span before + offset := by
  simp only [sectionStart, Span.moved, Nat.add_right_comm]

theorem conditionalNode_moved (span : Span) (condition : String) (before body : List Char)
    (content : Except Failure OpenElements) :
    conditionalNode (span.moved offset) condition before body (movedResult offset (·.movedAfter offset []) content) =
      (conditionalNode span condition before body content).moved offset := by
  have start := sectionStart_moved offset span before
  have place : sectionSpan (span.moved offset) before body = (sectionSpan span before body).moved offset := by
    simp only [sectionSpan, start]
    simp only [Span.moved, Nat.add_right_comm]
  have info (complete : Bool) : conditionalInfo (span.moved offset) condition before body complete =
      (conditionalInfo span condition before body complete).moved offset := by
    unfold conditionalInfo
    rw [place]
    rfl
  unfold conditionalNode
  cases content with
  | ok opened =>
    simp only [movedResult, info, OpenElements.finish_moved, List.reverse_nil, List.nil_append, Fragment.moved_node]
  | error failure =>
    simp only [movedResult, info, Fragment.moved_node, place]
    rfl

theorem commentNode_moved (span : Span) (value : List Char) (comment : Option ConditionalComment) :
    commentNode (span.moved offset) value comment = (commentNode span value comment).moved offset := by
  unfold commentNode
  split <;> rfl

/-- A lexeme that opens no element and is no comment is neither further on. -/
theorem plain_moved {lexeme : Lexeme} (noElement : ∀ tag, lexeme ≠ .startTag tag)
    (noComment : ∀ value span, lexeme ≠ .comment value span) :
    (∀ tag, lexeme.moved offset ≠ .startTag tag) ∧ ∀ value span, lexeme.moved offset ≠ .comment value span := by
  cases lexeme with
  | startTag tag => exact absurd rfl (noElement tag)
  | comment value span => exact absurd rfl (noComment value span)
  | text | cdata | doctype | directive | endTag | componentEnd =>
    exact ⟨nofun, nofun⟩

/-- The same characters further on, after other nodes, are read as the same nodes further on. -/
theorem readContent_moved (options : ParseOptions) (before : List Fragment) (opened : OpenElements) :
    readContent options (opened.movedAfter offset before) (cursor.moved offset) =
      movedResult offset (·.movedAfter offset before) (readContent options opened cursor) := by
  fun_induction readContent options opened cursor generalizing before with
  | case1 opened cursor empty =>
    have empty : (cursor.moved offset).rest = [] := empty
    rw [readContent, dif_pos empty]
    rfl
  | case2 opened cursor nonempty failure lexed =>
    have nonempty : (cursor.moved offset).rest ≠ [] := nonempty
    have lexed : readLexeme options (cursor.moved offset) = .error (failure.moved offset) :=
      (readLexeme_moved offset cursor options).trans (congrArg _ lexed)
    rw [readContent_of_error nonempty lexed]
    rfl
  | case3 opened cursor nonempty tag next lexed failure element =>
    have nonempty : (cursor.moved offset).rest ≠ [] := nonempty
    rw [readContent_of_startTag nonempty (lexed_moved offset lexed), readElement_moved, element]
    rfl
  | case4 opened cursor nonempty tag next lexed inner later element ih =>
    have nonempty : (cursor.moved offset).rest ≠ [] := nonempty
    rw [readContent_of_startTag nonempty (lexed_moved offset lexed), readElement_moved, element]
    exact ih before
  | case5 opened cursor nonempty value span next lexed condition front body found content ihInside =>
    rename_i ih
    have nonempty : (cursor.moved offset).rest ≠ [] := nonempty
    have inside : readContent options {} ⟨sectionStart (span.moved offset) front, body⟩ =
        movedResult offset (·.movedAfter offset []) content := by
      rw [sectionStart_moved]
      exact ihInside []
    rw [readContent_of_section nonempty (lexed_moved offset lexed) found, inside, conditionalNode_moved,
      OpenElements.add_moved]
    exact ih before
  | case6 opened cursor nonempty value span next lexed plain ih =>
    have nonempty : (cursor.moved offset).rest ≠ [] := nonempty
    rw [readContent_of_comment nonempty (lexed_moved offset lexed) plain, commentNode_moved, OpenElements.add_moved]
    exact ih before
  | case7 opened cursor nonempty lexeme next noElement noComment lexed failure followed =>
    have nonempty : (cursor.moved offset).rest ≠ [] := nonempty
    obtain ⟨noElement', noComment'⟩ := plain_moved offset noElement noComment
    rw [readContent_of_follow nonempty (lexed_moved offset lexed) noElement' noComment',
      OpenElements.follow_moved, followed]
    rfl
  | case8 opened cursor nonempty lexeme next noElement noComment lexed inner followed ih =>
    have nonempty : (cursor.moved offset).rest ≠ [] := nonempty
    obtain ⟨noElement', noComment'⟩ := plain_moved offset noElement noComment
    rw [readContent_of_follow nonempty (lexed_moved offset lexed) noElement' noComment',
      OpenElements.follow_moved, followed]
    exact ih before

end MarkupFormat.Markup
