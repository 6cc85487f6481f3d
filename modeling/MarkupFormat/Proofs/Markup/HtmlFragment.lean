import MarkupFormat.Proofs.Markup.Declaration

/-!
# A fragment of HTML

The fragment is made up of elements with attributes, comments and texts; texts and values may hold template
blocks. `Html.writeAll` writes it, and `Html.placedAll` gives its nodes with the places where they are
written. Each tag and each comment that is written is read as one lexeme.
-/

namespace MarkupFormat.Markup

open Text (Templated byteLength isMarkupSpace occursIn scan)

/-! ### The fragment -/

/-- An attribute with a value. -/
structure HtmlAttribute where
  name : String
  value : String

/-- A node of the fragment. -/
inductive Html where
  | element (name : String) (attributes : List HtmlAttribute) (children : List Html)
  | text (value : String)
  | comment (value : String)

namespace HtmlAttribute

def isNameChar (c : Char) : Bool :=
  c.isLower || c = '-'

/-- The name is made up of lowercase letters and dashes. The value has no quotes outside of blocks. -/
structure Valid (attr : HtmlAttribute) : Prop where
  named : attr.name ≠ ""
  name : ∀ c ∈ attr.name.toList, isNameChar c = true
  value : Templated (· != '"') attr.value.toList

def write (attr : HtmlAttribute) : List Char :=
  attr.name.toList ++ '=' :: '"' :: (attr.value.toList ++ ['"'])

/-- Attributes with a space before each of them. -/
def writeAll : List HtmlAttribute → List Char
  | [] => []
  | attr :: attributes => ' ' :: (attr.write ++ writeAll attributes)

/-- The attribute as it is read where it is written. -/
def placed (pos : Nat) (attr : HtmlAttribute) : Attribute :=
  let start := pos + byteLength attr.name.toList + 2
  let stop := start + byteLength attr.value.toList
  { rawName := attr.name
    value := some attr.value
    span := ⟨pos, stop + 1⟩
    valueSpan := some ⟨start, stop⟩ }

def placedAll (pos : Nat) : List HtmlAttribute → List Attribute
  | [] => []
  | attr :: attributes =>
    attr.placed (pos + 1) :: placedAll (pos + 1 + byteLength attr.write) attributes

end HtmlAttribute

namespace Html

def isNameChar (c : Char) : Bool :=
  c.isAlphanum || c = '-'

/-- Letters, digits and dashes after a letter, and not the name of an element that opens a namespace. -/
structure IsElementName (name : String) : Prop where
  start : ∃ first rest, name.toList = first :: rest ∧ first.isAlpha = true
  chars : ∀ c ∈ name.toList, isNameChar c = true
  noNamespace : name ∉ ["svg", "math", "foreignObject"]

def name? : Html → Option String
  | element name _ _ => some name
  | _ => none

def isText : Html → Bool
  | text _ => true
  | _ => false

/-- At most one text, in which nothing looks like an end tag. -/
def RawOnly (children : List Html) : Prop :=
  children = [] ∨ ∃ value, children = [text value] ∧ value ≠ "" ∧ occursIn ['<', '/'] value.toList = false

mutual

/-- Every element can hold its children, and every text is written as it is. -/
def Valid : Html → Prop
  | element name attributes children =>
    IsElementName name ∧ (∀ attr ∈ attributes, attr.Valid) ∧
      if (Tag.ofName name).isVoid then children = []
      else if (Tag.ofName name).content = .parsable then
        ValidAll children ∧
          ∀ child ∈ children, ∀ inner, child.name? = some inner →
            inner ∉ (Tag.ofName name).closedByChildren
      else RawOnly children
  | text value => value ≠ "" ∧ Templated (· != '<') value.toList
  | comment value =>
    occursIn "-->".toList value.toList = false ∧ ConditionalComment.classify? value.toList = none

/-- No two texts stand side by side. -/
def ValidAll : List Html → Prop
  | [] => True
  | html :: rest =>
    html.Valid ∧ (html.isText = true → ∀ next ∈ rest.head?, next.isText = false) ∧ ValidAll rest

end

def startTag (name : String) (attributes : List HtmlAttribute) : List Char :=
  '<' :: (name.toList ++ (HtmlAttribute.writeAll attributes ++ ['>']))

def endTag (name : String) : List Char :=
  '<' :: '/' :: (name.toList ++ ['>'])

mutual

def write : Html → List Char
  | element name attributes children =>
    if (Tag.ofName name).isVoid then startTag name attributes
    else startTag name attributes ++ (writeAll children ++ endTag name)
  | text value => value.toList
  | comment value => "<!--".toList ++ (value.toList ++ "-->".toList)

def writeAll : List Html → List Char
  | [] => []
  | html :: rest => html.write ++ writeAll rest

end

/-- What the start tag of an element says where it is written. -/
def placedElement (pos : Nat) (name : String) (attributes : List HtmlAttribute) : Element :=
  let named := pos + 1 + byteLength name.toList
  { name := name
    ns := none
    explicitNs := false
    attributes := HtmlAttribute.placedAll named attributes
    tag := Tag.ofName name
    nameSpan := ⟨pos + 1, named⟩ }

mutual

/-- The node as it is read where it is written. Every element but a void one ends with its own end tag. -/
def placed (pos : Nat) : Html → Fragment
  | element name attributes children =>
    let inner := pos + byteLength (startTag name attributes)
    let outer := inner + byteLength (writeAll children)
    let stop := outer + byteLength (endTag name)
    let kind := .element (placedElement pos name attributes)
    if (Tag.ofName name).isVoid then
      .node { kind := kind, span := ⟨pos, inner⟩, startSpan := some ⟨pos, inner⟩ } []
    else
      .node { kind := kind, span := ⟨pos, stop⟩, startSpan := some ⟨pos, inner⟩, endSpan := some ⟨outer, stop⟩ }
        (placedAll inner children)
  | text value => .leaf (.text value) ⟨pos, pos + byteLength value.toList⟩
  | comment value => .leaf (.comment value) ⟨pos, pos + byteLength (write (comment value))⟩

def placedAll (pos : Nat) : List Html → List Fragment
  | [] => []
  | html :: rest => html.placed pos :: placedAll (pos + byteLength html.write) rest

end

end Html

/-! ### Attributes -/

theorem Cursor.skipSpace_cons {pos : Nat} {c : Char} {rest : List Char} (solid : isMarkupSpace c = false) :
    Cursor.skipSpace ⟨pos, c :: rest⟩ = ⟨pos, c :: rest⟩ := by
  simp [skipSpace, skip, solid]

theorem Cursor.skipSpace_space {pos : Nat} {c : Char} {rest : List Char} (solid : isMarkupSpace c = false) :
    Cursor.skipSpace ⟨pos, ' ' :: c :: rest⟩ = ⟨pos + 1, c :: rest⟩ := by
  have space : isMarkupSpace ' ' = true := rfl
  simp only [skipSpace, skip, List.takeWhile_cons, List.dropWhile_cons, space, solid, if_true,
    Bool.false_eq_true, if_false]
  rfl

namespace HtmlAttribute

theorem byteLength_write (attr : HtmlAttribute) :
    byteLength attr.write = byteLength attr.name.toList + byteLength attr.value.toList + 3 := by
  have signs : byteLength ['=', '"'] = 2 := rfl
  have quote : byteLength ['"'] = 1 := rfl
  have whole : attr.write = attr.name.toList ++ (['=', '"'] ++ (attr.value.toList ++ ['"'])) := rfl
  rw [whole, Text.byteLength_append, Text.byteLength_append, Text.byteLength_append, signs, quote]
  omega

theorem ne_of_isNameChar {c d : Char} (name : isNameChar c = true) (other : isNameChar d = false) : c ≠ d := by
  rintro rfl
  rw [name] at other
  cases other

theorem atNameEnd_eq_false {c : Char} {cs : List Char} (name : isNameChar c = true) :
    atNameEnd (c :: cs) = false := by
  rw [Bool.eq_false_iff]
  intro ends
  simp only [atNameEnd, isMarkupSpace, Bool.or_eq_true, decide_eq_true_eq, or_assoc] at ends
  rcases ends with rfl | rfl | rfl | rfl | rfl | rfl | rfl | rfl | rfl | rfl | rfl <;> cases name

theorem isMarkupSpace_eq_false {c : Char} (name : isNameChar c = true) : isMarkupSpace c = false := by
  have solid : atNameEnd [c] = false := atNameEnd_eq_false name
  simp only [atNameEnd, Bool.or_eq_false_iff] at solid
  exact solid.1.1.1.1.1.1

variable {attr : HtmlAttribute} {pos : Nat} {more : List Char}

theorem Valid.name_eq_cons (valid : attr.Valid) :
    ∃ c cs, attr.name.toList = c :: cs ∧ isNameChar c = true := by
  cases same : attr.name.toList with
  | nil => exact absurd (String.toList_eq_nil_iff.mp same) valid.named
  | cons c cs => exact ⟨c, cs, rfl, valid.name c (by rw [same]; exact List.mem_cons_self)⟩

theorem scan_name (valid : attr.Valid) (rest : List Char) :
    scan atNameEnd (attr.name.toList ++ '=' :: rest) = (attr.name.toList, '=' :: rest) := by
  have plain : Templated isNameChar attr.name.toList := by
    apply Text.templated_of_forall
    intro c member
    exact ⟨valid.name c member, ne_of_isNameChar (valid.name c member) (by decide)⟩
  apply Text.scan_templated plain
  · rintro c cs (name | rfl)
    · exact atNameEnd_eq_false name
    · rfl
  · exact Or.inr ⟨'=', rest, rfl, by decide, rfl⟩

/-- The value is read up to its closing quote, whatever its blocks hold. -/
theorem readValue_write (valid : attr.Valid) :
    readValue ⟨pos, '"' :: (attr.value.toList ++ '"' :: more)⟩ =
      (attr.value, ⟨pos + 1, pos + 1 + byteLength attr.value.toList⟩,
        ⟨pos + 1 + byteLength attr.value.toList + 1, more⟩) := by
  have value : scan (atChar '"') (attr.value.toList ++ '"' :: more) =
      (attr.value.toList, '"' :: more) := by
    apply Text.scan_templated valid.value
    · rintro c cs (plain | rfl)
      · simpa [atChar] using plain
      · rfl
    · exact Or.inr ⟨'"', more, rfl, by decide, by simp [atChar]⟩
  simp only [readValue, readValue.quotedValue, value, String.ofList_toList]
  rfl

theorem readSingle_write (valid : attr.Valid) :
    readSingle ⟨pos, attr.write ++ more⟩ =
      (attr.placed pos, ⟨pos + byteLength attr.write, more⟩) := by
  obtain ⟨c, cs, front, name⟩ := valid.name_eq_cons
  have whole : attr.write ++ more =
      attr.name.toList ++ '=' :: '"' :: (attr.value.toList ++ '"' :: more) := by
    simp [write]
  have noBlock : Text.templateBlock? (attr.write ++ more) = none := by
    rw [whole, front, List.cons_append]
    exact Text.templateBlock?_eq_none (ne_of_isNameChar name (by decide))
  unfold readSingle
  dsimp only
  rw [noBlock]
  dsimp only
  rw [whole, scan_name valid]
  simp only [Cursor.skip, Cursor.skipSpace_cons (c := '=') rfl, Cursor.skipSpace_cons (c := '"') rfl,
    readValue_write valid, String.ofList_toList]
  have start : pos + byteLength attr.name.toList + byteLength ['='] + 1 =
      pos + byteLength attr.name.toList + 2 := rfl
  have stop : pos + byteLength attr.name.toList + 2 + byteLength attr.value.toList + 1 =
      pos + byteLength attr.write := by
    rw [byteLength_write]
    omega
  simp only [placed, Cursor.spanTo, start, stop]

theorem readAttribute_write (valid : attr.Valid) (ends : atBoundary more = true) :
    readAttribute ⟨pos, attr.write ++ more⟩ =
      (attr.placed pos, ⟨pos + byteLength attr.write, more⟩) := by
  unfold readAttribute
  rw [readSingle_write valid]
  simp only [ends, Bool.not_true, Bool.and_false, Bool.false_and, Bool.false_eq_true, if_false]

theorem atBoundary_writeAll (attributes : List HtmlAttribute) (rest : List Char) :
    atBoundary (writeAll attributes ++ '>' :: rest) = true := by
  cases attributes with
  | nil => rfl
  | cons attr attributes => rfl

theorem readAttributes_end {inside : Construct} (rest : List Char) :
    readAttributes inside ⟨pos, '>' :: rest⟩ = .ok ([], false, ⟨pos + 1, rest⟩) := by
  have spaced : Cursor.skipSpace ⟨pos, '>' :: rest⟩ = ⟨pos, '>' :: rest⟩ := Cursor.skipSpace_cons rfl
  rw [readAttributes]
  dsimp only
  split
  · next same =>
    rw [spaced] at same ⊢
    cases same
    rfl
  · next same => rw [spaced] at same; cases same
  · next same => rw [spaced] at same; cases same
  · next notEnd _ _ => exact absurd (by rw [spaced]) (notEnd rest)

theorem readAttributes_cons {inside : Construct} {cursor last : Cursor} {read : Attribute}
    {attributes : List Attribute} {selfClosing : Bool} (noEnd : atNameEnd cursor.skipSpace.rest = false)
    (first : (readAttribute cursor.skipSpace).1 = read)
    (others : readAttributes inside (readAttribute cursor.skipSpace).2 = .ok (attributes, selfClosing, last)) :
    readAttributes inside cursor = .ok (read :: attributes, selfClosing, last) := by
  rw [readAttributes]
  dsimp only
  split
  · next same => rw [same] at noEnd; cases noEnd
  · next same => rw [same] at noEnd; cases noEnd
  · next same => rw [same] at noEnd; cases noEnd
  · rw [dif_neg (by rw [noEnd]; decide), others, first]

theorem readAttributes_writeAll {inside : Construct} {attributes : List HtmlAttribute}
    (valid : ∀ attr ∈ attributes, attr.Valid) (rest : List Char) :
    readAttributes inside ⟨pos, writeAll attributes ++ '>' :: rest⟩ =
      .ok (placedAll pos attributes, false, ⟨pos + byteLength (writeAll attributes) + 1, rest⟩) := by
  induction attributes generalizing pos with
  | nil => exact readAttributes_end rest
  | cons attr attributes ih =>
    have first := valid attr List.mem_cons_self
    obtain ⟨c, cs, front, name⟩ := first.name_eq_cons
    have spaced : Cursor.skipSpace ⟨pos, writeAll (attr :: attributes) ++ '>' :: rest⟩ =
        ⟨pos + 1, attr.write ++ (writeAll attributes ++ '>' :: rest)⟩ := by
      rw [writeAll, List.cons_append, List.append_assoc]
      unfold write
      rw [front]
      exact Cursor.skipSpace_space (isMarkupSpace_eq_false name)
    have read : readAttribute ⟨pos + 1, attr.write ++ (writeAll attributes ++ '>' :: rest)⟩ = _ :=
      readAttribute_write first (atBoundary_writeAll attributes rest)
    have bytes : pos + 1 + byteLength attr.write + byteLength (writeAll attributes) + 1 =
        pos + byteLength (writeAll (attr :: attributes)) + 1 := by
      have space : ' '.utf8Size = 1 := rfl
      simp only [writeAll, Text.byteLength_cons, Text.byteLength_append]
      omega
    rw [← bytes]
    apply readAttributes_cons
    · rw [spaced]
      unfold write
      rw [front]
      exact atNameEnd_eq_false name
    · rw [spaced, read]
    · rw [spaced, read]
      exact ih fun other member => valid other (List.mem_cons_of_mem attr member)

end HtmlAttribute

/-! ### Tags -/

namespace Html

variable {options : ParseOptions} {name : String} {attributes : List HtmlAttribute} {pos : Nat}
  {rest : List Char}

theorem isTagNameChar_of_isNameChar {c : Char} (letter : isNameChar c = true) : isTagNameChar c = true := by
  cases tagName : isTagNameChar c with
  | true => rfl
  | false =>
    simp only [isTagNameChar, isMarkupSpace, Bool.not_eq_false', Bool.or_eq_true, decide_eq_true_eq,
      or_assoc] at tagName
    rcases tagName with rfl | rfl | rfl | rfl | rfl | rfl | rfl | rfl | rfl | rfl | rfl <;> cases letter

theorem ofChars_name (valid : IsElementName name) : TagName.ofChars name.toList = ⟨name, none, name⟩ := by
  have noColon : ∀ cs : List Char, (∀ c ∈ cs, isNameChar c = true) → Text.breakOn [':'] cs = none := by
    intro cs chars
    induction cs with
    | nil => rfl
    | cons c cs ih =>
      have other : (':' == c) = false := by
        rw [beq_eq_false_iff_ne]
        rintro rfl
        cases chars ':' List.mem_cons_self
      simp only [Text.breakOn, List.isPrefixOf, other, Bool.false_and, Bool.false_eq_true, if_false,
        ih fun d member => chars d (List.mem_cons_of_mem c member), Option.map_none]
  unfold TagName.ofChars
  rw [noColon _ valid.chars]
  simp only [String.ofList_toList]

theorem readTagName_append {cs : List Char} (chars : ∀ d ∈ cs, isTagNameChar d = true) {c : Char}
    (ends : isTagNameChar c = false) :
    readTagName ⟨pos, cs ++ c :: rest⟩ = (.ofChars cs, ⟨pos + byteLength cs, c :: rest⟩) := by
  have taken : (cs ++ c :: rest).takeWhile isTagNameChar = cs := by
    rw [List.takeWhile_append_of_pos chars, List.takeWhile_cons_of_neg (by rw [ends]; decide), List.append_nil]
  have left : (cs ++ c :: rest).dropWhile isTagNameChar = c :: rest := by
    rw [List.dropWhile_append_of_pos chars, List.dropWhile_cons_of_neg (by rw [ends]; decide)]
  unfold readTagName
  simp only [taken, left]
  rfl

theorem readTagName_write (valid : IsElementName name) {c : Char} (ends : isTagNameChar c = false) :
    readTagName ⟨pos, name.toList ++ c :: rest⟩ =
      (⟨name, none, name⟩, ⟨pos + byteLength name.toList, c :: rest⟩) := by
  have chars : ∀ d ∈ name.toList, isTagNameChar d = true := fun d member =>
    isTagNameChar_of_isNameChar (valid.chars d member)
  rw [readTagName_append chars ends, ofChars_name valid]

/-- The start tag where it is written. -/
def placedTag (pos : Nat) (name : String) (attributes : List HtmlAttribute) : StartTag :=
  let named := pos + 1 + byteLength name.toList
  { span := ⟨pos, pos + byteLength (startTag name attributes)⟩
    nameSpan := ⟨pos + 1, named⟩
    name := ⟨name, none, name⟩
    attributes := HtmlAttribute.placedAll named attributes
    selfClosing := false }

theorem byteLength_startTag (name : String) (attributes : List HtmlAttribute) :
    byteLength (startTag name attributes) =
      1 + byteLength name.toList + byteLength (HtmlAttribute.writeAll attributes) + 1 := by
  have opening : '<'.utf8Size = 1 := rfl
  have closing : byteLength ['>'] = 1 := rfl
  simp only [startTag, Text.byteLength_cons, Text.byteLength_append, opening, closing]
  omega

theorem byteLength_endTag (name : String) : byteLength (endTag name) = 2 + byteLength name.toList + 1 := by
  have opening : '<'.utf8Size = 1 := rfl
  have slash : '/'.utf8Size = 1 := rfl
  have closing : byteLength ['>'] = 1 := rfl
  simp only [endTag, Text.byteLength_cons, Text.byteLength_append, opening, slash, closing]
  omega

theorem readStartTag_write (valid : IsElementName name) (attrs : ∀ attr ∈ attributes, attr.Valid) :
    readStartTag ⟨pos, startTag name attributes ++ rest⟩ =
      .ok (placedTag pos name attributes, ⟨pos + byteLength (startTag name attributes), rest⟩) := by
  have whole : (startTag name attributes ++ rest).drop 1 =
      name.toList ++ (HtmlAttribute.writeAll attributes ++ '>' :: rest) := by
    simp [startTag]
  obtain ⟨c, cs, after, ends⟩ : ∃ c cs, HtmlAttribute.writeAll attributes ++ '>' :: rest = c :: cs ∧
      isTagNameChar c = false := by
    cases attributes with
    | nil => exact ⟨'>', rest, rfl, rfl⟩
    | cons attr attributes => exact ⟨' ', _, rfl, rfl⟩
  have named : readTagName ⟨pos + 1, name.toList ++ c :: cs⟩ = _ := readTagName_write valid ends
  rw [← after] at named
  have opened : Cursor.skip ⟨pos, startTag name attributes ++ rest⟩ ['<']
      ((startTag name attributes ++ rest).drop 1) =
        ⟨pos + 1, name.toList ++ (HtmlAttribute.writeAll attributes ++ '>' :: rest)⟩ := by
    rw [whole]
    rfl
  have bytes := byteLength_startTag name attributes
  have last : pos + 1 + byteLength name.toList + byteLength (HtmlAttribute.writeAll attributes) + 1 =
      pos + byteLength (startTag name attributes) := by
    omega
  simp only [readStartTag, opened, named, HtmlAttribute.readAttributes_writeAll attrs, last]
  rfl

theorem readEndTag_write (valid : IsElementName name) :
    readEndTag ⟨pos, endTag name ++ rest⟩ =
      .ok (⟨⟨pos, pos + byteLength (endTag name)⟩, ⟨name, none, name⟩⟩,
        ⟨pos + byteLength (endTag name), rest⟩) := by
  have opened : Cursor.skip ⟨pos, endTag name ++ rest⟩ ['<', '/'] ((endTag name ++ rest).drop 2) =
      ⟨pos + 2, name.toList ++ '>' :: rest⟩ := by
    simp [endTag, Cursor.skip]
    rfl
  have named : readTagName ⟨pos + 2, name.toList ++ '>' :: rest⟩ = _ := readTagName_write valid rfl
  have bytes := byteLength_endTag name
  have last : pos + 2 + byteLength name.toList + 1 = pos + byteLength (endTag name) := by
    omega
  simp only [readEndTag, opened, named, Cursor.skipSpace_cons (c := '>') rfl, ← last]
  rfl

/-! ### Lexemes -/

theorem atMarkup_of_letter {c : Char} {cs : List Char} (letter : c.isAlpha = true) :
    atMarkup options ('<' :: c :: cs) = true := by
  unfold atMarkup
  split
  · rfl
  · rfl
  · next same => cases same; cases letter
  · next same => cases same; exact letter
  · next other => exact absurd rfl (other c cs)

theorem atMarkup_end_of_letter {c : Char} {cs : List Char} (letter : c.isAlpha = true) :
    atMarkup options ('<' :: '/' :: c :: cs) = true := by
  show (isNameStart c || atComponentEnd options ('<' :: '/' :: c :: cs)) = true
  unfold isNameStart
  rw [letter]
  rfl

theorem ne_of_isAlpha {c d : Char} (letter : c.isAlpha = true) (other : d.isAlpha = false) : d ≠ c := by
  rintro rfl
  rw [letter] at other
  cases other

theorem isPrefixOf_of_second_ne {a b c d : Char} {needle cs : List Char} (other : d ≠ c) :
    (a :: d :: needle).isPrefixOf (b :: c :: cs) = false := by
  simp only [List.isPrefixOf, beq_eq_false_iff_ne.mpr other, Bool.false_and, Bool.and_false]

theorem readLexeme_of_letter {c : Char} {cs : List Char} (letter : c.isAlpha = true) :
    readLexeme options ⟨pos, '<' :: c :: cs⟩ =
      (readStartTag ⟨pos, '<' :: c :: cs⟩).map fun (tag, next) => (.startTag tag, next) := by
  have noMark : '!' ≠ c := ne_of_isAlpha letter rfl
  have noSlash : '/' ≠ c := ne_of_isAlpha letter rfl
  have comment : "<!--".toList.isPrefixOf ('<' :: c :: cs) = false := isPrefixOf_of_second_ne noMark
  have cdata : "<![CDATA[".toList.isPrefixOf ('<' :: c :: cs) = false := isPrefixOf_of_second_ne noMark
  have declaration : "<!".toList.isPrefixOf ('<' :: c :: cs) = false := isPrefixOf_of_second_ne noMark
  have instruction : "<?".toList.isPrefixOf ('<' :: c :: cs) = false :=
    isPrefixOf_of_second_ne (ne_of_isAlpha letter rfl)
  have noComponent : "<//>".toList.isPrefixOf ('<' :: c :: cs) = false := isPrefixOf_of_second_ne noSlash
  have noEnd : "</".toList.isPrefixOf ('<' :: c :: cs) = false := isPrefixOf_of_second_ne noSlash
  unfold readLexeme atComponentEnd
  simp only [atMarkup_of_letter letter, comment, cdata, declaration, instruction, noComponent, noEnd,
    Bool.not_true, Bool.and_false, Bool.false_eq_true, if_false]

theorem readLexeme_end_of_letter {c : Char} {cs : List Char} (letter : c.isAlpha = true) :
    readLexeme options ⟨pos, '<' :: '/' :: c :: cs⟩ =
      (readEndTag ⟨pos, '<' :: '/' :: c :: cs⟩).map fun (tag, next) => (.endTag tag, next) := by
  have noMark : '!' ≠ '/' := by decide
  have comment : "<!--".toList.isPrefixOf ('<' :: '/' :: c :: cs) = false := isPrefixOf_of_second_ne noMark
  have cdata : "<![CDATA[".toList.isPrefixOf ('<' :: '/' :: c :: cs) = false := isPrefixOf_of_second_ne noMark
  have declaration : "<!".toList.isPrefixOf ('<' :: '/' :: c :: cs) = false := isPrefixOf_of_second_ne noMark
  have instruction : "<?".toList.isPrefixOf ('<' :: '/' :: c :: cs) = false :=
    isPrefixOf_of_second_ne (by decide)
  have noComponent : "<//>".toList.isPrefixOf ('<' :: '/' :: c :: cs) = false := by
    show ('<' == '<' && ['/', '/', '>'].isPrefixOf ('/' :: c :: cs)) = false
    rw [isPrefixOf_of_second_ne (ne_of_isAlpha letter rfl), Bool.and_false]
  have ends : "</".toList.isPrefixOf ('<' :: '/' :: c :: cs) = true := rfl
  unfold readLexeme atComponentEnd
  simp only [atMarkup_end_of_letter letter, comment, cdata, declaration, instruction, noComponent, ends,
    Bool.not_true, Bool.and_false, Bool.false_eq_true, if_false, if_true]

theorem readLexeme_startTag (valid : IsElementName name) (attrs : ∀ attr ∈ attributes, attr.Valid) :
    readLexeme options ⟨pos, startTag name attributes ++ rest⟩ =
      .ok (.startTag (placedTag pos name attributes), ⟨pos + byteLength (startTag name attributes), rest⟩) := by
  obtain ⟨first, others, front, letter⟩ := valid.start
  have read : readStartTag ⟨pos, startTag name attributes ++ rest⟩ = _ := readStartTag_write valid attrs
  have whole : startTag name attributes ++ rest =
      '<' :: first :: (others ++ (HtmlAttribute.writeAll attributes ++ '>' :: rest)) := by
    simp [startTag, front]
  rw [whole] at read ⊢
  rw [readLexeme_of_letter letter, read]
  rfl

theorem readLexeme_endTag (valid : IsElementName name) :
    readLexeme options ⟨pos, endTag name ++ rest⟩ =
      .ok (.endTag ⟨⟨pos, pos + byteLength (endTag name)⟩, ⟨name, none, name⟩⟩,
        ⟨pos + byteLength (endTag name), rest⟩) := by
  obtain ⟨first, others, front, letter⟩ := valid.start
  have read : readEndTag ⟨pos, endTag name ++ rest⟩ = _ := readEndTag_write valid
  have whole : endTag name ++ rest = '<' :: '/' :: first :: (others ++ '>' :: rest) := by
    simp [endTag, front]
  rw [whole] at read ⊢
  rw [readLexeme_end_of_letter letter, read]
  rfl

theorem readLexeme_comment {value : String} (unended : occursIn "-->".toList value.toList = false) :
    readLexeme options ⟨pos, write (.comment value) ++ rest⟩ =
      .ok (.comment value.toList ⟨pos, pos + byteLength (write (.comment value))⟩,
        ⟨pos + byteLength (write (.comment value)), rest⟩) := by
  have whole : write (.comment value) ++ rest = "<!--".toList ++ (value.toList ++ ("-->".toList ++ rest)) := by
    simp [write]
  have found : Text.breakOn "-->".toList (value.toList ++ ("-->".toList ++ rest)) = some (value.toList, rest) := by
    obtain ⟨before, front, more, same, overlap, short, found⟩ :=
      Text.breakOn_append (by decide) unended rest
    -- The end of a comment cannot begin inside of itself.
    have apart : front = [] ∧ more = [] := by
      match front, overlap, short with
      | [], overlap, _ => exact ⟨rfl, (List.append_right_eq_self.mp overlap.symm)⟩
      | [_], overlap, _ => cases overlap
      | [_, _], overlap, _ => cases overlap
    obtain ⟨rfl, rfl⟩ := apart
    rw [found, same, List.append_nil, List.nil_append]
  have markup : atMarkup options (write (.comment value) ++ rest) = true := rfl
  have starts : "<!--".toList.isPrefixOf (write (.comment value) ++ rest) = true := rfl
  have read : readDelimited "<!--".toList "-->".toList .comment ⟨pos, write (.comment value) ++ rest⟩ =
      .ok (value.toList, ⟨pos, pos + byteLength (write (.comment value))⟩,
        ⟨pos + byteLength (write (.comment value)), rest⟩) := by
    have after : (write (.comment value) ++ rest).drop "<!--".toList.length =
        value.toList ++ ("-->".toList ++ rest) := by
      rw [whole, List.drop_left]
    unfold readDelimited
    simp only [after, found, List.append_assoc]
    rfl
  unfold readLexeme
  simp only [markup, starts, read, Bool.not_true, Bool.false_eq_true, if_false, if_true]
  rfl

end Html

end MarkupFormat.Markup
