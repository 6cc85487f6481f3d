import MarkupFormat.Proofs.Markup.HtmlFragment

/-!
# Reading undoes writing

What is written of a node is read as that node inside of whichever elements are open, by induction on the
node. `parse_writeAll` shows that a fragment of HTML is read as it was written.
-/

namespace MarkupFormat.Markup

open Text (Templated byteLength isMarkupSpace occursIn)

/-! ### Open elements -/

theorem implicitNamespace_ofName {name : String} (noNamespace : name ∉ ["svg", "math", "foreignObject"]) :
    (Tag.ofName name).implicitNamespace = none := by
  unfold Tag.ofName
  split <;> first | rfl | exact absurd (by decide) noNamespace

namespace OpenElements

def addAll (opened : OpenElements) (nodes : List Fragment) : OpenElements :=
  nodes.foldl add opened

/-- The open elements with one more inside of them. -/
def push (opened : OpenElements) (element : Element) (startSpan : Span) : OpenElements :=
  { opened with stack := { element := element, startSpan := startSpan } :: opened.stack }

theorem addAll_of_cons {opened : OpenElements} {innermost : OpenElement} {outer : List OpenElement}
    (stack : opened.stack = innermost :: outer) (nodes : List Fragment) :
    opened.addAll nodes =
      { opened with stack := { innermost with children := nodes.reverse ++ innermost.children } :: outer } := by
  induction nodes generalizing opened innermost with
  | nil =>
    unfold addAll
    cases opened
    cases stack
    rfl
  | cons node nodes ih =>
    have added : opened.add node =
        { opened with stack := { innermost with children := node :: innermost.children } :: outer } := by
      unfold add
      rw [stack]
    show (opened.add node).addAll nodes = _
    rw [added, ih rfl]
    simp

theorem addAll_of_nil {opened : OpenElements} (stack : opened.stack = []) (nodes : List Fragment) :
    opened.addAll nodes = { opened with nodes := nodes.reverse ++ opened.nodes } := by
  induction nodes generalizing opened with
  | nil => rfl
  | cons node nodes ih =>
    have added : opened.add node = { opened with nodes := node :: opened.nodes } := by
      unfold add
      rw [stack]
    have others : ({ opened with nodes := node :: opened.nodes } : OpenElements).addAll nodes =
        { opened with nodes := nodes.reverse ++ node :: opened.nodes } := ih stack
    show (opened.add node).addAll nodes = _
    rw [added, others]
    simp

theorem innermost?_add (opened : OpenElements) (node : Fragment) :
    (opened.add node).innermost? = opened.innermost? := by
  unfold add innermost?
  split
  · next same => rw [same]
  · next same => rw [same]; rfl

theorem close_addAll_push (opened : OpenElements) (element : Element) (startSpan endSpan : Span)
    (nodes : List Fragment) :
    ((opened.push element startSpan).addAll nodes).close (some endSpan) =
      opened.add (.node
        { kind := .element element
          span := ⟨startSpan.start, endSpan.stop⟩
          startSpan := some startSpan
          endSpan := some endSpan } nodes) := by
  have stack : (opened.push element startSpan).stack =
      { element := element, startSpan := startSpan } :: opened.stack := rfl
  rw [addAll_of_cons stack]
  simp only [close, OpenElement.close, List.append_nil, List.reverse_reverse]
  rfl

/-- Whether the innermost element can hold a node of the fragment. -/
def Admits (opened : OpenElements) (html : Html) : Prop :=
  ∀ name, html.name? = some name → ∀ parent, opened.innermost? = some parent →
    parent.ns = none ∧ parent.tag.isClosedBy name = false

theorem admits_add {opened : OpenElements} {html : Html} (admits : opened.Admits html) (node : Fragment) :
    (opened.add node).Admits html := by
  intro name named parent innermost
  rw [innermost?_add] at innermost
  exact admits name named parent innermost

variable {opened : OpenElements} {name : String}

theorem namespaceOf_eq_none (noNamespace : name ∉ ["svg", "math", "foreignObject"])
    (around : ∀ parent, opened.innermost? = some parent → parent.ns = none) :
    opened.namespaceOf ⟨name, none, name⟩ = (none, false) := by
  unfold namespaceOf TagName.namespaceIn
  dsimp only
  rw [implicitNamespace_ofName noNamespace]
  dsimp only
  split
  · next parent innermost =>
    rw [around parent innermost, ite_self]
  · rfl

theorem elementIn_eq {pos : Nat} {attributes : List HtmlAttribute} (valid : Html.IsElementName name)
    (around : ∀ parent, opened.innermost? = some parent → parent.ns = none) :
    (Html.placedTag pos name attributes).elementIn opened.innermost? = Html.placedElement pos name attributes := by
  have ns : TagName.namespaceIn ⟨name, none, name⟩ opened.innermost? = (none, false) :=
    namespaceOf_eq_none valid.noNamespace around
  have tag : Tag.ofElement name none = Tag.ofName name := by
    simp [Tag.ofElement]
  simp only [StartTag.elementIn, Html.placedTag, ns, tag]
  rfl

theorem startTag_eq {pos : Nat} {attributes : List HtmlAttribute} {children : List Html}
    (valid : Html.IsElementName name) (admits : opened.Admits (.element name attributes children)) :
    opened.startTag (Html.placedTag pos name attributes) =
      let span : Span := ⟨pos, pos + byteLength (Html.startTag name attributes)⟩
      let element := Html.placedElement pos name attributes
      if (Tag.ofName name).isVoid then
        (opened.add (.node { kind := .element element, span := span, startSpan := some span } []), false)
      else (opened.push element span, (Tag.ofName name).content ≠ .parsable) := by
  have element : (Html.placedTag pos name attributes).elementIn opened.innermost? = _ :=
    elementIn_eq valid fun parent innermost => (admits name rfl parent innermost).1
  have content : (Html.placedElement pos name attributes).hasRawContent =
      decide ((Tag.ofName name).content ≠ .parsable) := by
    simp [Element.hasRawContent, Tag.contentType, Html.placedElement]
  unfold startTag
  rw [element]
  dsimp only
  rw [content]
  cases innermost : opened.innermost? with
  | none => rfl
  | some parent =>
    simp only [Html.placedTag, (admits name rfl parent innermost).2]
    rfl

theorem endTag_addAll_push {pos : Nat} {attributes : List HtmlAttribute} {startSpan endSpan : Span}
    (valid : Html.IsElementName name) (ended : (Tag.ofName name).isVoid = false) (nodes : List Fragment) :
    ((opened.push (Html.placedElement pos name attributes) startSpan).addAll nodes).endTag
        ⟨endSpan, ⟨name, none, name⟩⟩ =
      .ok (opened.add (.node
        { kind := .element (Html.placedElement pos name attributes)
          span := ⟨startSpan.start, endSpan.stop⟩
          startSpan := some startSpan
          endSpan := some endSpan } nodes)) := by
  have stack : (opened.push (Html.placedElement pos name attributes) startSpan).stack =
      { element := Html.placedElement pos name attributes, startSpan := startSpan } :: opened.stack := rfl
  have inside := addAll_of_cons stack nodes
  have closed := close_addAll_push opened (Html.placedElement pos name attributes) startSpan endSpan nodes
  have ns : ((opened.push (Html.placedElement pos name attributes) startSpan).addAll nodes).namespaceOf
      ⟨name, none, name⟩ = (none, false) := by
    apply namespaceOf_eq_none valid.noNamespace
    intro parent innermost
    rw [inside] at innermost
    cases innermost
    rfl
  have found : ((opened.push (Html.placedElement pos name attributes) startSpan).addAll nodes).closeNamed?
      name none endSpan =
        some (((opened.push (Html.placedElement pos name attributes) startSpan).addAll nodes).close
          (some endSpan)) := by
    rw [inside, closeNamed?]
    exact if_pos ⟨rfl, rfl⟩
  unfold endTag
  simp only [ended, Bool.and_false, Bool.false_eq_true, if_false, ns, found, closed]

end OpenElements

/-! ### Raw text -/

theorem atRawEnd_endTag (name : String) (rest : List Char) :
    atRawEnd name.toList (Html.endTag name ++ rest) = true := by
  have whole : Html.endTag name ++ rest = '<' :: '/' :: (name.toList ++ '>' :: rest) := by
    simp [Html.endTag]
  rw [whole]
  simp only [atRawEnd, List.take_left, List.drop_left, beq_self_eq_true]
  rfl

theorem atRawEnd_of_not_end {name cs : List Char} (other : ['<', '/'].isPrefixOf cs = false) :
    atRawEnd name cs = false := by
  unfold atRawEnd
  split
  · cases other
  · rfl

theorem readRaw_of_unended {name cs rest : List Char}
    (unended : ∀ front back, cs = front ++ back → back ≠ [] → atRawEnd name (back ++ rest) = false) :
    readRaw name (cs ++ rest) = (cs ++ (readRaw name rest).1, (readRaw name rest).2) := by
  induction cs with
  | nil => rfl
  | cons c cs ih =>
    have here := unended [] (c :: cs) rfl (List.cons_ne_nil c cs)
    have later := ih fun front back same => unended (c :: front) back (congrArg (c :: ·) same)
    rw [List.cons_append] at here ⊢
    rw [readRaw, if_neg (by rw [here]; decide), later]
    rfl

/-- A text in which nothing looks like an end tag goes on up to the next bracket. -/
theorem atRawEnd_of_not_occursIn {name cs rest : List Char} (unended : occursIn ['<', '/'] cs = false)
    (bracket : ∃ after, rest = '<' :: after) (front back : List Char) (same : cs = front ++ back) (some : back ≠ []) :
    atRawEnd name (back ++ rest) = false := by
  obtain ⟨after, rfl⟩ := bracket
  induction front generalizing cs with
  | nil =>
    rw [same] at unended
    match back, some with
    | [c], _ => exact atRawEnd_of_not_end (Html.isPrefixOf_of_second_ne (by decide))
    | c :: d :: cs, _ =>
      rw [List.nil_append, Text.occursIn_cons, Bool.or_eq_false_iff] at unended
      exact atRawEnd_of_not_end unended.1
  | cons c front ih =>
    subst same
    rw [List.cons_append, Text.occursIn_cons, Bool.or_eq_false_iff] at unended
    exact ih unended.2 rfl

/-- Raw text in which nothing looks like an end tag is read up to the end tag of its element. -/
theorem readRaw_endTag (name : String) {cs : List Char} (unended : occursIn ['<', '/'] cs = false)
    (rest : List Char) :
    readRaw name.toList (cs ++ (Html.endTag name ++ rest)) = (cs, Html.endTag name ++ rest) := by
  have ends := atRawEnd_endTag name rest
  have stops : readRaw name.toList (Html.endTag name ++ rest) = ([], Html.endTag name ++ rest) := by
    unfold Html.endTag at ends ⊢
    rw [List.cons_append, readRaw, ← List.cons_append, if_pos ends]
  have goes : readRaw name.toList (cs ++ (Html.endTag name ++ rest)) = _ :=
    readRaw_of_unended (atRawEnd_of_not_occursIn unended ⟨_, rfl⟩)
  rw [goes, stops, List.append_nil]

/-! ### Reading back -/

/-- Where a text ends: at the end of the input or at markup. -/
def EndsText (options : ParseOptions) (rest : List Char) : Prop :=
  rest = [] ∨ ∃ after, rest = '<' :: after ∧ atMarkup options rest = true

namespace Html

variable {options : ParseOptions} {opened : OpenElements}

theorem endsText_endTag {name : String} (valid : IsElementName name) (rest : List Char) :
    EndsText options (endTag name ++ rest) := by
  obtain ⟨first, others, front, letter⟩ := valid.start
  refine Or.inr ⟨'/' :: (name.toList ++ ['>']) ++ rest, rfl, ?_⟩
  unfold endTag
  rw [front]
  exact atMarkup_end_of_letter letter

theorem endsText_startTag {name : String} (valid : IsElementName name) (attributes : List HtmlAttribute)
    (rest : List Char) : EndsText options (startTag name attributes ++ rest) := by
  obtain ⟨first, others, front, letter⟩ := valid.start
  refine Or.inr ⟨_, rfl, ?_⟩
  unfold startTag
  rw [front]
  exact atMarkup_of_letter letter

theorem endsText_write {html : Html} (valid : html.Valid) (noText : html.isText = false) (rest : List Char) :
    EndsText options (html.write ++ rest) := by
  cases html with
  | text value => cases noText
  | comment value => exact Or.inr ⟨_, rfl, rfl⟩
  | element name attributes children =>
    unfold write
    split
    · exact endsText_startTag valid.1 attributes rest
    · rw [List.append_assoc]
      exact endsText_startTag valid.1 attributes _

theorem endsText_writeAll {htmls : List Html} {rest : List Char} (valid : ValidAll htmls)
    (noText : ∀ next ∈ htmls.head?, next.isText = false) (ends : EndsText options rest) :
    EndsText options (writeAll htmls ++ rest) := by
  cases htmls with
  | nil => exact ends
  | cons html htmls =>
    rw [writeAll, List.append_assoc]
    exact endsText_write valid.1 (noText html rfl) _

theorem readContent_startTag {cursor next last : Cursor} {tag : StartTag} {after : OpenElements}
    (nonempty : cursor.rest ≠ []) (read : readLexeme options cursor = .ok (.startTag tag, next))
    (followed : readElement opened tag next = .ok (after, last)) :
    readContent options opened cursor = readContent options after last := by
  rw [readContent_of_startTag nonempty read, followed]

theorem readContent_plainComment {cursor next : Cursor} {value : List Char} {span : Span}
    (nonempty : cursor.rest ≠ []) (read : readLexeme options cursor = .ok (.comment value span, next))
    (plain : ConditionalComment.classify? value = none) :
    readContent options opened cursor =
      readContent options (opened.add (.leaf (.comment (String.ofList value)) span)) next := by
  have kind : conditionalOf? options value = none := by
    unfold conditionalOf?
    rw [plain, ite_self]
  have noSection (condition : String) (before body : List Char) :
      conditionalOf? options value ≠ some (.block condition before body) := by
    rw [kind]
    nofun
  rw [readContent_of_comment nonempty read noSection, kind]
  rfl

/-- The start tag of a void element is read as the element. -/
theorem readElement_void {pos : Nat} {name : String} {attributes : List HtmlAttribute} {next : Cursor}
    (valid : IsElementName name) (admits : opened.Admits (.element name attributes []))
    (isVoid : (Tag.ofName name).isVoid = true) :
    readElement opened (placedTag pos name attributes) next =
      .ok (opened.add ((element name attributes []).placed pos), next) := by
  unfold readElement placed
  rw [OpenElements.startTag_eq valid admits]
  simp only [isVoid, if_true]

theorem readElement_parsable {pos : Nat} {name : String} {attributes : List HtmlAttribute}
    {children : List Html} {next : Cursor} (valid : IsElementName name)
    (admits : opened.Admits (.element name attributes children))
    (ended : (Tag.ofName name).isVoid = false) (parsable : (Tag.ofName name).content = .parsable) :
    readElement opened (placedTag pos name attributes) next =
      .ok (opened.push (placedElement pos name attributes)
        ⟨pos, pos + byteLength (startTag name attributes)⟩, next) := by
  unfold readElement
  rw [OpenElements.startTag_eq valid admits]
  simp only [ended, parsable]
  rfl

/-- An element with an end tag where it is written. -/
def placedEnded (pos : Nat) (name : String) (attributes : List HtmlAttribute) (children : List Html) :
    Fragment :=
  let inner := pos + byteLength (startTag name attributes)
  let outer := inner + byteLength (writeAll children)
  let stop := outer + byteLength (endTag name)
  .node
    { kind := .element (placedElement pos name attributes)
      span := ⟨pos, stop⟩
      startSpan := some ⟨pos, inner⟩
      endSpan := some ⟨outer, stop⟩ }
    (placedAll inner children)

theorem placed_of_ended {pos : Nat} {name : String} {attributes : List HtmlAttribute} {children : List Html}
    (ended : (Tag.ofName name).isVoid = false) :
    (element name attributes children).placed pos = placedEnded pos name attributes children := by
  unfold placed placedEnded
  simp only [ended, Bool.false_eq_true, if_false]

theorem write_of_ended {name : String} {attributes : List HtmlAttribute} {children : List Html}
    (ended : (Tag.ofName name).isVoid = false) :
    write (.element name attributes children) =
      startTag name attributes ++ (writeAll children ++ endTag name) := by
  simp only [write, ended, Bool.false_eq_true, if_false]

theorem readElement_raw {pos : Nat} {name : String} {attributes : List HtmlAttribute} {children : List Html}
    {rest : List Char} (valid : IsElementName name)
    (admits : opened.Admits (.element name attributes children))
    (ended : (Tag.ofName name).isVoid = false) (raw : (Tag.ofName name).content ≠ .parsable)
    (only : RawOnly children) :
    readElement opened (placedTag pos name attributes)
        ⟨pos + byteLength (startTag name attributes), writeAll children ++ (endTag name ++ rest)⟩ =
      .ok (opened.add (placedEnded pos name attributes children),
        ⟨pos + byteLength (startTag name attributes) + byteLength (writeAll children) +
          byteLength (endTag name), rest⟩) := by
  have noEnd : occursIn ['<', '/'] (writeAll children) = false := by
    rcases only with rfl | ⟨value, rfl, -, noEnd⟩
    · rfl
    · rw [writeAll, writeAll, write, List.append_nil]
      exact noEnd
  have added (around : OpenElements) (inner : Nat) :
      (if writeAll children = [] then around
        else around.add (.leaf (.text (String.ofList (writeAll children)))
          ⟨inner, inner + byteLength (writeAll children)⟩)) = around.addAll (placedAll inner children) := by
    rcases only with rfl | ⟨value, rfl, nonempty, -⟩
    · rfl
    · have some : value.toList ≠ [] := fun none => nonempty (String.toList_eq_nil_iff.mp none)
      rw [writeAll, writeAll, write, List.append_nil, if_neg some, String.ofList_toList]
      rfl
  have read := readRaw_endTag name noEnd rest
  have tag (outer : Nat) : readEndTag ⟨outer, endTag name ++ rest⟩ = _ := readEndTag_write valid
  have left : endTag name ++ rest ≠ [] := by
    simp [endTag]
  unfold readElement readRawContent
  rw [OpenElements.startTag_eq valid admits]
  simp only [ended, raw, ne_eq, not_false_eq_true, decide_true, Bool.false_eq_true, if_false,
    read, Cursor.skip, Cursor.spanTo, added, left, tag, Except.map, placedTag,
    OpenElements.close_addAll_push]
  rfl

mutual

/-- What is written of a node is read as the node, inside of whichever elements are open. -/
theorem readContent_write : ∀ (html : Html) {opened : OpenElements} {pos : Nat} {rest : List Char},
    html.Valid → opened.Admits html → (html.isText = true → EndsText options rest) →
    readContent options opened ⟨pos, html.write ++ rest⟩ =
      readContent options (opened.add (html.placed pos)) ⟨pos + byteLength html.write, rest⟩
  | text value, opened, pos, rest, valid, _, ends => by
    have nonempty : value.toList ≠ [] := fun none => valid.1 (String.toList_eq_nil_iff.mp none)
    have read : readContent options opened ⟨pos, value.toList ++ rest⟩ = _ :=
      readContent_text nonempty valid.2 (ends rfl)
    rw [String.ofList_toList] at read
    exact read
  | comment value, opened, pos, rest, valid, _, _ => by
    have nonempty : write (.comment value) ++ rest ≠ [] := by
      simp [write]
    have read : readContent options opened ⟨pos, write (.comment value) ++ rest⟩ = _ :=
      readContent_plainComment nonempty (readLexeme_comment valid.1) valid.2
    rw [String.ofList_toList] at read
    exact read
  | element name attributes children, opened, pos, rest, valid, admits, _ => by
    obtain ⟨named, attrs, inside⟩ := valid
    have nonempty (more : List Char) : startTag name attributes ++ more ≠ [] := by
      simp [startTag]
    by_cases isVoid : (Tag.ofName name).isVoid = true
    · rw [if_pos isVoid] at inside
      subst inside
      have whole : write (.element name attributes []) = startTag name attributes := by
        rw [write, if_pos isVoid]
      rw [whole]
      exact readContent_startTag (nonempty rest) (readLexeme_startTag named attrs)
        (readElement_void named admits isVoid)
    · have ended : (Tag.ofName name).isVoid = false := by
        simpa using isVoid
      have whole : write (.element name attributes children) ++ rest =
          startTag name attributes ++ (writeAll children ++ (endTag name ++ rest)) := by
        rw [write_of_ended ended, List.append_assoc, List.append_assoc]
      have bytes : pos + byteLength (write (.element name attributes children)) =
          pos + byteLength (startTag name attributes) + byteLength (writeAll children) +
            byteLength (endTag name) := by
        rw [write_of_ended ended, Text.byteLength_append, Text.byteLength_append]
        omega
      rw [if_neg isVoid] at inside
      rw [whole, bytes, placed_of_ended ended]
      by_cases parsable : (Tag.ofName name).content = .parsable
      · rw [if_pos parsable] at inside
        obtain ⟨valid, held⟩ := inside
        let inner := pos + byteLength (startTag name attributes)
        let around := opened.push (placedElement pos name attributes) ⟨pos, inner⟩
        have admitsAll : ∀ child ∈ children, around.Admits child := by
          intro child member inside isNamed parent innermost
          cases innermost
          refine ⟨rfl, ?_⟩
          show (Tag.ofName name).isClosedBy inside = false
          unfold Tag.isClosedBy
          rw [ended, Bool.false_or]
          simpa using held child member inside isNamed
        have opens : readContent options opened
            ⟨pos, startTag name attributes ++ (writeAll children ++ (endTag name ++ rest))⟩ =
              readContent options around ⟨inner, writeAll children ++ (endTag name ++ rest)⟩ :=
          readContent_startTag (nonempty _) (readLexeme_startTag named attrs)
            (readElement_parsable named admits ended parsable)
        have content : readContent options around ⟨inner, writeAll children ++ (endTag name ++ rest)⟩ =
            readContent options (around.addAll (placedAll inner children))
              ⟨inner + byteLength (writeAll children), endTag name ++ rest⟩ :=
          readContent_writeAll children valid admitsAll (endsText_endTag named rest)
        have ends : readContent options (around.addAll (placedAll inner children))
            ⟨inner + byteLength (writeAll children), endTag name ++ rest⟩ =
              readContent options (opened.add (placedEnded pos name attributes children))
                ⟨inner + byteLength (writeAll children) + byteLength (endTag name), rest⟩ :=
          readContent_follow (by simp [endTag]) (readLexeme_endTag named) nofun nofun
            (OpenElements.endTag_addAll_push named ended _)
        exact opens.trans (content.trans ends)
      · rw [if_neg parsable] at inside
        exact readContent_startTag (nonempty _) (readLexeme_startTag named attrs)
          (readElement_raw named admits ended parsable inside)

theorem readContent_writeAll : ∀ (htmls : List Html) {opened : OpenElements} {pos : Nat} {rest : List Char},
    ValidAll htmls → (∀ html ∈ htmls, opened.Admits html) → EndsText options rest →
    readContent options opened ⟨pos, writeAll htmls ++ rest⟩ =
      readContent options (opened.addAll (placedAll pos htmls)) ⟨pos + byteLength (writeAll htmls), rest⟩
  | [], opened, pos, rest, _, _, _ => rfl
  | html :: htmls, opened, pos, rest, valid, admits, ends => by
    obtain ⟨first, apart, others⟩ := valid
    have after : html.isText = true → EndsText options (writeAll htmls ++ rest) := fun isText =>
      endsText_writeAll others (apart isText) ends
    have admitsOthers : ∀ other ∈ htmls, (opened.add (html.placed pos)).Admits other := fun other member =>
      OpenElements.admits_add (admits other (List.mem_cons_of_mem html member)) _
    rw [writeAll, List.append_assoc,
      readContent_write html first (admits html List.mem_cons_self) after,
      readContent_writeAll htmls others admitsOthers ends, Text.byteLength_append, Nat.add_assoc]
    rfl

end

end Html

open Html (ValidAll placedAll writeAll)

theorem readSource_writeAll {options : ParseOptions} (noFront : options.frontMatter = false)
    {htmls : List Html} (valid : ValidAll htmls) :
    readSource options (writeAll htmls) = .ok (placedAll 0 htmls) := by
  have admits : ∀ html ∈ htmls, ({} : OpenElements).Admits html := by
    intro html _ name _ parent innermost
    cases innermost
  have read : readContent options {} ⟨0, writeAll htmls ++ []⟩ = _ :=
    Html.readContent_writeAll htmls valid admits (Or.inl rfl)
  rw [List.append_nil, readContent_end, OpenElements.addAll_of_nil rfl, List.append_nil] at read
  unfold readSource
  simp only [noFront, Bool.false_eq_true, if_false, read]
  show Except.ok _ = _
  rw [finish_of_nodes, List.reverse_reverse]

/-- A fragment that is written as markup is read as its nodes, each at its place and every element but a
void one with its own end tag. Only a source that is too large is refused. -/
theorem parse_writeAll {options : ParseOptions} (noFront : options.frontMatter = false)
    {htmls : List Html} (valid : ValidAll htmls) :
    parse (String.ofList (writeAll htmls)) options =
      if byteLength (writeAll htmls) ≤ maxSourceBytes then .ok (placedAll 0 htmls)
      else .error (.place (writeAll htmls) (LineIndex.build (writeAll htmls))
        ⟨.tooLarge (byteLength (writeAll htmls)), ⟨0, 0⟩⟩) := by
  unfold parse
  simp only [String.toList_ofList, readSource_writeAll noFront valid]
  by_cases small : byteLength (writeAll htmls) ≤ maxSourceBytes
  · rw [if_neg (Nat.not_lt.mpr small), if_pos small]
    rfl
  · rw [if_pos (Nat.lt_of_not_le small), if_neg small]
    rfl

/-- A paragraph with brackets and quotes in template blocks, a comment that ends with a dash, and a script. -/
def templatedParagraph : List Html :=
  [.element "p" [⟨"class", "a\x7b\x7b \">\" \x7d\x7db"⟩]
      [.text "x\x7b% </p> %\x7d", .element "br" [] []],
    .comment "c-", .element "script" [] [.text "a < b"]]

theorem parse_writeAll_templatedParagraph :
    ValidAll templatedParagraph ∧
      parse "<p class=\"a\x7b\x7b \">\" \x7d\x7db\">x\x7b% </p> %\x7d<br></p><!--c---><script>a < b</script>"
        { frontMatter := false } = .ok (placedAll 0 templatedParagraph) := by
  have value : Templated (· != '"') "a\x7b\x7b \">\" \x7d\x7db".toList := by
    show Templated _ ('a' :: (Text.blockText '{' " \">\" ".toList ['}', '}'] ++ ['b']))
    exact .char rfl (by decide) (.block rfl rfl (.char rfl (by decide) .nil))
  have text : Templated (· != '<') "x\x7b% </p> %\x7d".toList := by
    show Templated _ ('x' :: (Text.blockText '%' " </p> ".toList ['%', '}'] ++ []))
    exact .char rfl (by decide) (.block rfl rfl .nil)
  have lineBreak : (Html.element "br" [] []).Valid :=
    ⟨⟨⟨'b', ['r'], rfl, rfl⟩, List.all_eq_true.mp rfl, by decide⟩, nofun, rfl⟩
  have script : (Html.element "script" [] [.text "a < b"]).Valid :=
    ⟨⟨⟨'s', "cript".toList, rfl, rfl⟩, List.all_eq_true.mp rfl, by decide⟩, nofun, Or.inr ⟨_, rfl, by decide, rfl⟩⟩
  have paragraph : (Html.element "p" [⟨"class", "a\x7b\x7b \">\" \x7d\x7db"⟩]
      [.text "x\x7b% </p> %\x7d", .element "br" [] []]).Valid := by
    refine ⟨⟨⟨'p', [], rfl, rfl⟩, List.all_eq_true.mp rfl, by decide⟩, ?_,
      ⟨⟨by decide, text⟩, ?_, lineBreak, nofun, trivial⟩, ?_⟩
    · intro attr member
      rw [List.mem_singleton.mp member]
      exact ⟨by decide, List.all_eq_true.mp rfl, value⟩
    · intro _ next member
      cases member
      rfl
    · intro child member inner named
      rcases List.mem_cons.mp member with rfl | last
      · cases named
      · obtain rfl := List.mem_singleton.mp last
        cases named
        decide
  have valid : ValidAll templatedParagraph :=
    ⟨paragraph, nofun, ⟨rfl, rfl⟩, nofun, script, nofun, trivial⟩
  have read : parse (String.ofList (writeAll templatedParagraph)) { frontMatter := false } = _ :=
    parse_writeAll rfl valid
  exact ⟨valid, read⟩

end MarkupFormat.Markup
