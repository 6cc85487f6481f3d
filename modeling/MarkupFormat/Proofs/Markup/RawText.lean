import MarkupFormat.Proofs.Markup.Attributes
import MarkupFormat.Proofs.Markup.Moved
import MarkupFormat.Proofs.Markup.RoundTrip

/-!
# Elements with raw text

Raw text is read up to an end tag that has the name of its element without the qualifier. So an element without a
qualifier ends at its own end tag, and what follows is read as it would be on its own. An element with one goes on
over its own end tag (`parse_rawSource`).
-/

namespace MarkupFormat.Markup

open Text (byteLength occursIn)

/-! ### What is written -/

/-- A name of an element with raw text, with letters as its qualifier if it has one. -/
structure TagName.IsRaw (name : TagName) : Prop where
  raw : name.name ∈ ["script", "style", "textarea", "title"]
  written : name.written = name.full
  letters : ∀ qualifier, name.qualifier = some qualifier →
    qualifier ≠ "" ∧ ∀ c ∈ qualifier.toList, c.isAlpha = true
  /-- In a drawing a title is markup. -/
  noDrawing : name.name = "title" → name.qualifier ≠ some "svg"

/-- The start tag at the front of a source. -/
def rawTag (name : TagName) : StartTag :=
  { span := ⟨0, byteLength (Html.startTag name.written [])⟩
    nameSpan := ⟨1, 1 + byteLength name.written.toList⟩
    name := name
    attributes := []
    selfClosing := false }

def rawSource (name : TagName) (value : String) : List Char :=
  Html.startTag name.written [] ++ (value.toList ++ Html.endTag name.written)

/-- The element at the front of a source, with the text in it and its own end tag. -/
def rawElement (name : TagName) (value : String) : Fragment :=
  let inner := byteLength (Html.startTag name.written [])
  let outer := inner + byteLength value.toList
  let stop := outer + byteLength (Html.endTag name.written)
  .node
    { kind := .element ((rawTag name).elementIn none)
      span := ⟨0, stop⟩
      startSpan := some ⟨0, inner⟩
      endSpan := some ⟨outer, stop⟩ }
    [.leaf (.text value) ⟨inner, outer⟩]

/-! ### Names -/

variable {name : TagName} {options : ParseOptions}

namespace TagName.IsRaw

theorem isElementName (isRaw : name.IsRaw) : Html.IsElementName name.name := by
  have raw := isRaw.raw
  simp only [List.mem_cons, List.not_mem_nil, or_false] at raw
  rcases raw with same | same | same | same <;> rw [same] <;>
    exact ⟨⟨_, _, rfl, rfl⟩, List.all_eq_true.mp rfl, by decide⟩

theorem colon_not_mem (isRaw : name.IsRaw) : ':' ∉ name.name.toList.map Char.toLower := by
  have raw := isRaw.raw
  simp only [List.mem_cons, List.not_mem_nil, or_false] at raw
  rcases raw with same | same | same | same <;> rw [same] <;> decide

theorem written_of_plain (isRaw : name.IsRaw) (plain : name.qualifier = none) : name.written = name.name := by
  rw [isRaw.written, TagName.full, plain]

theorem written_of_qualified (isRaw : name.IsRaw) {qualifier : String} (qualified : name.qualifier = some qualifier) :
    name.written.toList = qualifier.toList ++ [':'] ++ name.name.toList := by
  rw [isRaw.written, TagName.full, qualified]
  simp only [String.toList_append]
  rfl

theorem start (isRaw : name.IsRaw) : ∃ c cs, name.written.toList = c :: cs ∧ c.isAlpha = true := by
  cases qualified : name.qualifier with
  | none =>
    rw [isRaw.written_of_plain qualified]
    exact isRaw.isElementName.start
  | some qualifier =>
    obtain ⟨nonempty, letters⟩ := isRaw.letters qualifier qualified
    rw [isRaw.written_of_qualified qualified]
    cases same : qualifier.toList with
    | nil => exact absurd (String.toList_eq_nil_iff.mp same) nonempty
    | cons c cs => exact ⟨c, _, rfl, letters c (same ▸ List.mem_cons_self)⟩

theorem chars (isRaw : name.IsRaw) : ∀ c ∈ name.written.toList, isTagNameChar c = true := by
  have plain : ∀ c ∈ name.name.toList, isTagNameChar c = true := fun c member =>
    Html.isTagNameChar_of_isNameChar (isRaw.isElementName.chars c member)
  cases qualified : name.qualifier with
  | none => rwa [isRaw.written_of_plain qualified]
  | some qualifier =>
    intro c member
    simp only [isRaw.written_of_qualified qualified, List.mem_append, List.mem_singleton] at member
    rcases member with (member | rfl) | member
    · refine Html.isTagNameChar_of_isNameChar ?_
      have letter := (isRaw.letters qualifier qualified).2 c member
      simp only [Html.isNameChar, Char.isAlphanum, letter, Bool.true_or]
    · rfl
    · exact plain c member

/-- The written name is taken apart as it was put together. -/
theorem ofChars (isRaw : name.IsRaw) : TagName.ofChars name.written.toList = name := by
  cases qualified : name.qualifier with
  | none =>
    have written := isRaw.written_of_plain qualified
    rw [written, Html.ofChars_name isRaw.isElementName]
    obtain ⟨_, _, _⟩ := name
    cases qualified
    cases written
    rfl
  | some qualifier =>
    obtain ⟨nonempty, letters⟩ := isRaw.letters qualifier qualified
    have absent : ':' ∉ qualifier.toList := fun member => by cases letters ':' member
    have named : name.name.toList ≠ [] := by
      obtain ⟨c, cs, same, -⟩ := isRaw.isElementName.start
      rw [same]
      exact List.cons_ne_nil c cs
    have found := breakOn_of_not_mem absent name.name.toList
    rw [← isRaw.written_of_qualified qualified] at found
    unfold TagName.ofChars
    rw [found]
    have both : qualifier.toList ≠ [] ∧ name.name.toList ≠ [] := ⟨mt String.toList_eq_nil_iff.mp nonempty, named⟩
    simp only [String.ofList_toList]
    rw [if_pos both, ← qualified]

end TagName.IsRaw

/-! ### Start tags -/

theorem readStartTag_rawTag (isRaw : name.IsRaw) (rest : List Char) :
    readStartTag ⟨0, Html.startTag name.written [] ++ rest⟩ =
      .ok (rawTag name, ⟨byteLength (Html.startTag name.written []), rest⟩) := by
  have whole : (Html.startTag name.written [] ++ rest).drop 1 = name.written.toList ++ '>' :: rest := by
    simp [Html.startTag, HtmlAttribute.writeAll]
  have named : readTagName ⟨1, name.written.toList ++ '>' :: rest⟩ =
      (name, ⟨1 + byteLength name.written.toList, '>' :: rest⟩) := by
    rw [Html.readTagName_append isRaw.chars rfl, isRaw.ofChars]
  have opened : Cursor.skip ⟨0, Html.startTag name.written [] ++ rest⟩ ['<']
      ((Html.startTag name.written [] ++ rest).drop 1) = ⟨1, name.written.toList ++ '>' :: rest⟩ := by
    rw [whole]
    rfl
  have bytes : byteLength (Html.startTag name.written []) = 1 + byteLength name.written.toList + 1 :=
    Html.byteLength_startTag name.written []
  simp only [readStartTag, opened, named, HtmlAttribute.readAttributes_end, bytes, rawTag]
  rfl

theorem readLexeme_rawTag (isRaw : name.IsRaw) (rest : List Char) :
    readLexeme options ⟨0, Html.startTag name.written [] ++ rest⟩ =
      .ok (.startTag (rawTag name), ⟨byteLength (Html.startTag name.written []), rest⟩) := by
  obtain ⟨c, cs, front, letter⟩ := isRaw.start
  have read := readStartTag_rawTag isRaw rest
  have whole : Html.startTag name.written [] ++ rest = '<' :: c :: (cs ++ '>' :: rest) := by
    simp [Html.startTag, HtmlAttribute.writeAll, front]
  rw [whole] at read ⊢
  rw [Html.readLexeme_of_letter letter, read]
  rfl

theorem TagName.IsRaw.element (isRaw : name.IsRaw) :
    ((rawTag name).elementIn none).tag.isVoid = false ∧ ((rawTag name).elementIn none).hasRawContent = true := by
  have raw := isRaw.raw
  have tag : (Tag.ofName name.name).isVoid = false ∧ (Tag.ofName name.name).implicitNamespace = none ∧
      (Tag.ofName name.name).content ≠ .parsable ∧
        ((Tag.ofName name.name).parsableInSvg = true → name.name = "title") := by
    simp only [List.mem_cons, List.not_mem_nil, or_false] at raw
    rcases raw with same | same | same | same <;> rw [same] <;> exact ⟨rfl, rfl, by decide, by decide⟩
  obtain ⟨noVoid, noNamespace, noMarkup, title⟩ := tag
  have named : (rawTag name).name = name := rfl
  cases qualified : name.qualifier with
  | none =>
    simp [StartTag.elementIn, TagName.namespaceIn, Element.hasRawContent, Tag.contentType, Tag.ofElement, named,
      qualified, noVoid, noNamespace, noMarkup]
  | some qualifier =>
    have noDrawing : (Tag.ofName name.name).parsableInSvg = true → qualifier ≠ "svg" := by
      rintro inDrawings rfl
      exact isRaw.noDrawing (title inDrawings) qualified
    have isRaw : (Tag.ofName name.name).contentType (some qualifier) ≠ .parsable := by
      rw [Tag.contentType, if_neg (by simpa using noDrawing)]
      exact noMarkup
    simp [StartTag.elementIn, TagName.namespaceIn, Element.hasRawContent, Tag.ofElement, named, qualified, noNamespace,
      isRaw]

theorem startTag_rawTag (isRaw : name.IsRaw) :
    ({} : OpenElements).startTag (rawTag name) =
      (({} : OpenElements).push ((rawTag name).elementIn none) (rawTag name).span, true) := by
  have element := isRaw.element
  rw [OpenElements.startTag_eq_startElement]
  unfold OpenElements.startElement
  have noBreak : ((rawTag name).selfClosing || ((rawTag name).elementIn none).tag.isVoid) = false := by
    rw [element.1]
    rfl
  rw [show OpenElements.innermost? {} = none from rfl, noBreak, element.2]
  rfl

/-! ### Raw text -/

theorem atRawEnd_eq_false {name cs : List Char} (other : ':' ∈ cs.take name.length ∧ ':' ∉ name.map Char.toLower ∨
    ∃ c more, cs.drop name.length = c :: more ∧ isTagNameChar c = true) : atRawEnd name ('<' :: '/' :: cs) = false := by
  show ((cs.take name.length).map Char.toLower == name.map Char.toLower && _) = false
  rw [Bool.and_eq_false_iff]
  rcases other with ⟨colon, absent⟩ | ⟨c, more, dropped, inside⟩
  · refine .inl (beq_eq_false_iff_ne.mpr fun same => absent ?_)
    rw [← same]
    exact List.mem_map_of_mem colon
  · right
    rw [dropped]
    simp only [isTagNameChar, Bool.not_eq_true', Bool.or_eq_false_iff] at inside
    simp only [inside, Bool.or_false]

theorem atRawEnd_qualified (isRaw : name.IsRaw) {qualifier : String} (qualified : name.qualifier = some qualifier)
    (rest : List Char) : atRawEnd name.name.toList (Html.endTag name.written ++ rest) = false := by
  have whole : Html.endTag name.written ++ rest =
      '<' :: '/' :: (qualifier.toList ++ ':' :: (name.name.toList ++ '>' :: rest)) := by
    simp [Html.endTag, isRaw.written_of_qualified qualified]
  rw [whole]
  apply atRawEnd_eq_false
  -- Either the colon is among what is compared with the name, or a character of the tag name comes after that.
  rcases Nat.lt_or_ge qualifier.toList.length name.name.toList.length with short | long
  · left
    obtain ⟨more, longer⟩ := Nat.exists_eq_add_of_lt short
    refine ⟨?_, isRaw.colon_not_mem⟩
    rw [longer, Nat.add_assoc, List.take_length_add_append, List.take_succ_cons]
    exact List.mem_append_right _ List.mem_cons_self
  · right
    rw [List.drop_append_of_le_length long]
    cases left : qualifier.toList.drop name.name.toList.length with
    | nil => exact ⟨':', _, rfl, rfl⟩
    | cons c cs =>
      have letter : c ∈ qualifier.toList := List.mem_of_mem_drop (left ▸ List.mem_cons_self)
      refine ⟨c, _, rfl, isRaw.chars c ?_⟩
      rw [isRaw.written_of_qualified qualified]
      exact List.mem_append_left _ (List.mem_append_left _ letter)

theorem readRaw_qualified (isRaw : name.IsRaw) {qualifier : String} (qualified : name.qualifier = some qualifier)
    {cs : List Char} (unended : occursIn ['<', '/'] cs = false) (rest : List Char) :
    readRaw name.name.toList (cs ++ (Html.endTag name.written ++ rest)) =
      (cs ++ (Html.endTag name.written ++ (readRaw name.name.toList rest).1), (readRaw name.name.toList rest).2) := by
  have inside : ∀ front back, Html.endTag name.written = front ++ back → back ≠ [] →
      atRawEnd name.name.toList (back ++ rest) = false := by
    intro front back same some
    cases front with
    | nil =>
      rw [List.nil_append] at same
      rw [← same]
      exact atRawEnd_qualified isRaw qualified rest
    | cons c front =>
      have later : '/' :: (name.written.toList ++ ['>']) = front ++ back := (List.cons.inj same).2
      obtain ⟨d, more, rfl⟩ := List.exists_cons_of_ne_nil some
      have member : d ∈ '/' :: (name.written.toList ++ ['>']) := later ▸ List.mem_append_right _ List.mem_cons_self
      have noBracket : '<' ≠ d := by
        rintro rfl
        simp only [List.mem_cons, List.mem_append, List.not_mem_nil, or_false] at member
        rcases member with other | inside | other
        · cases other
        · cases isRaw.chars _ inside
        · cases other
      refine atRawEnd_of_not_end ?_
      simp only [List.cons_append, List.isPrefixOf, beq_eq_false_iff_ne.mpr noBracket, Bool.false_and]
  have text : readRaw name.name.toList (cs ++ (Html.endTag name.written ++ rest)) = _ :=
    readRaw_of_unended (atRawEnd_of_not_occursIn unended ⟨_, rfl⟩)
  rw [text, readRaw_of_unended inside]

/-! ### Content -/

theorem readElement_plain (isRaw : name.IsRaw) (plain : name.qualifier = none) {value : String} (nonempty : value ≠ "")
    (unended : occursIn ['<', '/'] value.toList = false) (rest : List Char) :
    readElement {} (rawTag name)
        ⟨byteLength (Html.startTag name.written []), value.toList ++ (Html.endTag name.written ++ rest)⟩ =
      .ok (({} : OpenElements).add (rawElement name value), ⟨byteLength (rawSource name value), rest⟩) := by
  have written := isRaw.written_of_plain plain
  have text := readRaw_endTag name.name unended rest
  have some : value.toList ≠ [] := fun none => nonempty (String.toList_eq_nil_iff.mp none)
  have left : Html.endTag name.name ++ rest ≠ [] := by
    simp [Html.endTag]
  have span : (rawTag name).span = ⟨0, byteLength (Html.startTag name.name [])⟩ := by
    rw [← written]
    rfl
  have tag (pos : Nat) : readEndTag ⟨pos, Html.endTag name.name ++ rest⟩ = _ :=
    Html.readEndTag_write isRaw.isElementName
  unfold readElement readRawContent rawElement rawSource
  rw [startTag_rawTag isRaw]
  simp only [written] at text ⊢
  simp only [show (rawTag name).name = name from rfl, text, if_neg some, if_neg left, Cursor.skip, Cursor.spanTo, tag,
    Except.map, String.ofList_toList, Text.byteLength_append, span, Nat.add_assoc]
  rfl

theorem finish_push_add (element : Element) (startSpan : Span) (node : Fragment) :
    ((({} : OpenElements).push element startSpan).add node).finish =
      [(⟨element, startSpan, [node]⟩ : OpenElement).close none] := by
  have some : ((({} : OpenElements).push element startSpan).add node).stack ≠ [] := List.cons_ne_nil _ _
  rw [OpenElements.finish, OpenElements.closeAll, if_neg some]
  exact finish_of_nodes [_]

/-- What an element holds that has a qualifier: a text that goes on over the end tag of the element. -/
def swallowing (name : TagName) (value : String) (rest : List Char) (info : NodeInfo) (span : Span) : Fragment :=
  .node info [.leaf (.text (String.ofList
    (value.toList ++ (Html.endTag name.written ++ (readRaw name.name.toList rest).1)))) span]

theorem readElement_qualified (isRaw : name.IsRaw) {qualifier : String} (qualified : name.qualifier = some qualifier)
    {value : String} (unended : occursIn ['<', '/'] value.toList = false) (rest : List Char)
    {after : OpenElements} {last : Cursor}
    (read : readElement {} (rawTag name)
      ⟨byteLength (Html.startTag name.written []), value.toList ++ (Html.endTag name.written ++ rest)⟩ =
        .ok (after, last)) :
    ∃ info span, last.rest = [] ∧ after.finish = [swallowing name value rest info span] ∨
      after = { nodes := [swallowing name value rest info span] } := by
  have text := readRaw_qualified isRaw qualified unended rest
  have some : value.toList ++ (Html.endTag name.written ++ (readRaw name.name.toList rest).1) ≠ [] := by
    simp [Html.endTag]
  unfold readElement readRawContent at read
  rw [startTag_rawTag isRaw] at read
  simp only [show (rawTag name).name = name from rfl, text, if_neg some] at read
  split at read
  · next empty =>
    cases read
    exact ⟨_, _, .inl ⟨empty, finish_push_add _ _ _⟩⟩
  · obtain ⟨tag, -, same⟩ := exists_ok_of_map read
    cases same
    exact ⟨_, _, .inr rfl⟩

/-! ### Sources -/

theorem finish_of_parse {source : String} {nodes : List Fragment}
    (read : parse source { options with frontMatter := false } = .ok nodes) :
    ∃ opened, readContent options {} ⟨0, source.toList⟩ = .ok opened ∧ opened.finish = nodes := by
  unfold parse readSource at read
  dsimp only at read
  split at read
  · cases read
  · simp only [Bool.false_eq_true, if_false, readContent_frontMatter] at read
    cases found : readContent options {} ⟨0, source.toList⟩ with
    | error failure => rw [found] at read; cases read
    | ok opened =>
      rw [found] at read
      cases read
      exact ⟨opened, rfl, rfl⟩

theorem rawSource_append (name : TagName) (value : String) (rest : List Char) :
    rawSource name value ++ rest =
      Html.startTag name.written [] ++ (value.toList ++ (Html.endTag name.written ++ rest)) := by
  simp only [rawSource, List.append_assoc]

theorem readSource_rawSource (isRaw : name.IsRaw) (value : String) (rest : List Char) :
    readSource options (rawSource name value ++ rest) =
      match readElement {} (rawTag name)
        ⟨byteLength (Html.startTag name.written []), value.toList ++ (Html.endTag name.written ++ rest)⟩ with
      | .error failure => .error failure
      | .ok (opened, next) => (readContent options opened next).map OpenElements.finish := by
  have nonempty (more : List Char) : Html.startTag name.written [] ++ more ≠ [] := by
    simp [Html.startTag]
  have bracket : ∃ more, rawSource name value ++ rest = '<' :: more := ⟨_, rfl⟩
  obtain ⟨more, bracket⟩ := bracket
  rw [bracket, readSource_of_bracket, ← bracket, rawSource_append,
    readContent_of_startTag (nonempty _) (readLexeme_rawTag isRaw _)]
  cases readElement {} (rawTag name) _ <;> rfl

variable {value rest : String} {nodes content : List Fragment}

theorem readSource_plain (isRaw : name.IsRaw) (plain : name.qualifier = none) (nonempty : value ≠ "")
    (unended : occursIn ['<', '/'] value.toList = false)
    (read : parse rest { options with frontMatter := false } = .ok nodes) :
    readSource options (rawSource name value ++ rest.toList) =
      .ok (rawElement name value :: nodes.map (·.moved (byteLength (rawSource name value)))) := by
  obtain ⟨opened, found, rfl⟩ := finish_of_parse read
  have later := readContent_moved (byteLength (rawSource name value)) ⟨0, rest.toList⟩ options
    [rawElement name value] {}
  rw [found, Cursor.moved, Nat.zero_add] at later
  have after : readContent options (({} : OpenElements).add (rawElement name value))
      ⟨byteLength (rawSource name value), rest.toList⟩ = _ := later
  rw [readSource_rawSource isRaw, readElement_plain isRaw plain nonempty unended]
  dsimp only
  rw [after]
  exact congrArg Except.ok (OpenElements.finish_moved ..)

theorem readSource_qualified (isRaw : name.IsRaw) {qualifier : String} (qualified : name.qualifier = some qualifier)
    (unended : occursIn ['<', '/'] value.toList = false)
    (read : readSource options (rawSource name value ++ rest.toList) = .ok content) :
    ∃ info span others, content = swallowing name value rest.toList info span :: others := by
  rw [readSource_rawSource isRaw] at read
  split at read
  · cases read
  · next after last element =>
    obtain ⟨opened, found, rfl⟩ := exists_ok_of_map read
    obtain ⟨info, span, ⟨empty, finished⟩ | rfl⟩ := readElement_qualified isRaw qualified unended rest.toList element
    · obtain ⟨pos, chars⟩ := last
      cases empty
      rw [readContent_end] at found
      cases found
      exact ⟨info, span, [], finished⟩
    · -- What is read later comes after the element, which nothing is open around.
      have later := readContent_moved 0 last options [swallowing name value rest.toList info span] {}
      have same := found.symm.trans later
      cases read : readContent options {} last with
      | error failure => rw [read] at same; cases same
      | ok others =>
        rw [read] at same
        cases same
        exact ⟨info, span, _, OpenElements.finish_moved ..⟩

theorem swallowing_ne_rawElement {rest : List Char} {info : NodeInfo} {span : Span} (name : TagName) (value : String) :
    swallowing name value rest info span ≠ rawElement name value := by
  intro same
  have children := congrArg Fragment.children same
  have text := congrArg Fragment.kind (List.cons.inj children).1
  have longer := congrArg String.toList (NodeKind.text.inj text)
  rw [String.toList_ofList, List.append_right_eq_self] at longer
  cases longer

/-- An element with raw text ends at its own end tag, and the nodes of what follows come after it, exactly if its
name has no qualifier. With one, its text goes on over its own end tag up to an end tag without one. -/
theorem parse_rawSource (isRaw : name.IsRaw) (nonempty : value ≠ "")
    (unended : occursIn ['<', '/'] value.toList = false)
    (read : parse rest { options with frontMatter := false } = .ok nodes) :
    let source := rawSource name value ++ rest.toList
    (parse (String.ofList source) options =
        .ok (rawElement name value :: nodes.map (·.moved (byteLength (rawSource name value)))) ↔
      name.qualifier = none ∧ byteLength source ≤ maxSourceBytes) ∧
      (name.qualifier ≠ none → ∀ content, parse (String.ofList source) options = .ok content →
        ∃ info span others, content = swallowing name value rest.toList info span :: others) := by
  dsimp only
  simp only [parse_eq_ok_iff]
  cases qualified : name.qualifier with
  | none =>
    have plain := readSource_plain isRaw qualified nonempty unended read
    refine ⟨⟨fun both => ⟨rfl, both.2⟩, fun both => ⟨plain, both.2⟩⟩, fun some => absurd rfl some⟩
  | some qualifier =>
    have swallowed (content : List Fragment)
        (found : readSource options (rawSource name value ++ rest.toList) = .ok content) :=
      readSource_qualified isRaw qualified unended found
    refine ⟨⟨fun both => ?_, fun both => (by cases both.1)⟩, fun _ content both => swallowed content both.1⟩
    obtain ⟨info, span, others, same⟩ := swallowed _ both.1
    exact absurd (List.cons.inj same).1.symm (swallowing_ne_rawElement name value)

/-- A script with a qualifier and text after it. -/
def prefixedScript : TagName := ⟨"x:script", some "x", "script"⟩

theorem parse_rawSource_prefixedScript : ∃ nodes content info span others,
    parse "b" { frontMatter := false } = .ok nodes ∧ parse "<x:script>a</x:script>b" {} = .ok content ∧
      content = swallowing prefixedScript "a" "b".toList info span :: others ∧
      content ≠ rawElement prefixedScript "a" :: nodes.map (·.moved 22) := by
  have isRaw : prefixedScript.IsRaw := by
    refine ⟨by decide, rfl, ?_, nofun⟩
    rintro qualifier ⟨⟩
    exact ⟨by decide, List.all_eq_true.mp rfl⟩
  have following : (parse "b" { frontMatter := false }).isOk = true := by decide +kernel
  have whole : (parse "<x:script>a</x:script>b" {}).isOk = true := by decide +kernel
  cases read : parse "b" { frontMatter := false } with
  | error failure => rw [read] at following; cases following
  | ok nodes =>
    obtain ⟨ends, swallows⟩ := @parse_rawSource prefixedScript {} "a" "b" nodes isRaw (by decide) rfl read
    cases parsed : parse "<x:script>a</x:script>b" {} with
    | error failure => rw [parsed] at whole; cases whole
    | ok content =>
      obtain ⟨info, span, others, same⟩ := swallows nofun content parsed
      refine ⟨nodes, content, info, span, others, rfl, rfl, same, fun expected => ?_⟩
      rw [expected] at parsed
      cases (ends.mp parsed).1

end MarkupFormat.Markup
