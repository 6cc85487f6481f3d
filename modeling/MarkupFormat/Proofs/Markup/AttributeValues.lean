import MarkupFormat.Proofs.Markup.HtmlFragment
import MarkupFormat.Proofs.Markup.Moved
import MarkupFormat.Proofs.Markup.TouchingAttributes
import MarkupFormat.Proofs.Text.QuoteEntities

/-!
# Attributes that are written anew

An attribute with a value was read behind a name (`sourced_of_parse`). If another value is written behind the same
name, between quotes and without that quote in it, the name and the value are read again (`NamedBefore.readAmong`).
Where the name ends depends on the blocks that are closed behind it, so the other value may close none that the first
did not.
-/

namespace MarkupFormat.Markup

open Text (Apart IsQuoteChar Unmarked byteLength isMark isMarkupSpace occursIn scan templateBlock?)

/-- A name as it is read before a text. -/
structure NamedBefore (name after : List Char) : Prop where
  named : name ≠ []
  noBlock : templateBlock? (name ++ after) = none
  scanned : scan atNameEnd (name ++ after) = (name, after)
  begins : ∀ c ∈ after.head?, isMark c = false

/-- A value is read from what comes behind the name. -/
def Attribute.Sourced (attr : Attribute) : Prop :=
  ∀ value, attr.value = some value → ∃ after, NamedBefore attr.rawName.toList after ∧ value.toList <:+: after

variable {cursor last : Cursor} {attributes : List Attribute}

theorem infix_readValue (cursor : Cursor) : (readValue cursor).1.toList <:+: cursor.rest := by
  have quoted {quote : Char} {cs : List Char} (same : cursor.rest = quote :: cs) :
      (readValue.quotedValue cursor quote cs).1.toList <:+: cursor.rest := by
    rw [same]
    simp only [readValue.quotedValue, String.toList_ofList]
    exact List.infix_cons ⟨[], (scan (atChar quote) cs).2, Text.scan_append (atChar quote) cs⟩
  unfold readValue
  split
  · next same => exact quoted same
  · next same => exact quoted same
  · simp only [String.toList_ofList]
    exact ⟨[], (scan atBoundary cursor.rest).2, Text.scan_append atBoundary cursor.rest⟩

theorem sourced_of_none {attr : Attribute} (none : attr.value = none) : attr.Sourced := by
  intro value some
  rw [none] at some
  cases some

/-- Between the name and the value there is white space and an equals sign only. -/
theorem sourced_valued {name after behind : List Char} (pos : Nat) (named : name ≠ [])
    (noBlock : templateBlock? (name ++ after) = none) (scanned : scan atNameEnd (name ++ after) = (name, after))
    (sign : (Cursor.skipSpace ⟨pos, after⟩).rest = '=' :: behind) (cursor : Cursor) (rest : cursor.rest = behind) :
    NamedBefore name after ∧ (readValue cursor.skipSpace).1.toList <:+: after := by
  obtain ⟨blank, isBlank, spaces, -⟩ := takes_skipSpace ⟨pos, after⟩
  rw [sign] at spaces
  obtain rfl : after = blank ++ '=' :: behind := spaces
  refine ⟨⟨named, noBlock, scanned, fun c first => ?_⟩, ?_⟩
  · cases blank with
    | nil =>
      cases first
      decide
    | cons d blank =>
      cases first
      exact Text.unmarked_of_blank (List.all_eq_true.mp isBlank) c List.mem_cons_self
  · have inside : cursor.skipSpace.rest <:+ behind := rest ▸ List.dropWhile_suffix isMarkupSpace
    have value := (infix_readValue cursor.skipSpace).trans inside.isInfix
    exact value.trans (List.infix_append_of_infix_right (List.infix_cons List.infix_rfl))

theorem sourced_readSingle (noEnd : atNameEnd cursor.rest = false) : (readSingle cursor).1.Sourced := by
  unfold readSingle
  split
  · exact sourced_of_none rfl
  next noBlock =>
  dsimp only
  have whole := Text.scan_append atNameEnd cursor.rest
  split
  · next behind sign =>
    intro value same
    obtain rfl := Option.some.inj same
    dsimp only
    rw [String.toList_ofList]
    refine ⟨_, sourced_valued _ (scan_name_ne_nil noEnd) ?_ ?_ sign _ rfl⟩
    · rw [whole]
      exact noBlock
    · rw [whole]
  · exact sourced_of_none rfl

theorem sourced_readAttribute (noEnd : atNameEnd cursor.rest = false) : (readAttribute cursor).1.Sourced := by
  unfold readAttribute
  dsimp only
  split
  · exact sourced_of_none rfl
  · exact sourced_readSingle noEnd

theorem ReadsAttributes.sourced (reads : ReadsAttributes cursor attributes last) :
    ∀ attr ∈ attributes, attr.Sourced := by
  induction reads with
  | closed => exact fun _ member => absurd member List.not_mem_nil
  | selfClosed => exact fun _ member => absurd member List.not_mem_nil
  | slash _ _ ih => exact ih
  | cons noEnd _ ih => exact List.forall_mem_cons.mpr ⟨sourced_readAttribute noEnd, ih⟩

theorem StartTag.ReadIn.sourced {source : List Char} {tag : StartTag} (read : tag.ReadIn source) :
    ∀ attr ∈ tag.attributes, attr.Sourced := by
  obtain ⟨cursor, next, stop, -, -, read⟩ := read
  unfold readStartTag at read
  dsimp only [bind, Except.bind] at read
  split at read
  · cases read
  · next attributes =>
    cases read
    exact (readsAttributes_of_readAttributes attributes).sourced

theorem sourced_of_parse {source : String} {options : ParseOptions} {content : List Fragment}
    (parsed : parse source options = .ok content) :
    ∀ node ∈ content, node.ElementsSay fun _ element => ∀ attr ∈ element.attributes, attr.Sourced :=
  elementsSay_of_parse (fun _ read _ => read.sourced) parsed

/-! ### Values that are written anew -/

variable {name after more value : List Char} {quote : Char}

/-- A name, and a value between quotes behind it. -/
def writtenAttribute (name : List Char) (quote : Char) (value : List Char) : List Char :=
  name ++ '=' :: quote :: (value ++ [quote])

theorem writtenAttribute_append (name : List Char) (quote : Char) (value more : List Char) :
    writtenAttribute name quote value ++ more = name ++ '=' :: quote :: (value ++ quote :: more) := by
  simp [writtenAttribute]

/-- Before a boundary, a text is read as an attribute before the other attributes of a start tag, unless a block that
begins in it ends behind it. -/
def ReadAmong (text : List Char) (name value : String) : Prop :=
  ∀ inside pos more, atBoundary more = true → Apart more text →
    ∃ attr : Attribute, attr.rawName = name ∧ attr.value = some value ∧
      readAttributes inside ⟨pos, text ++ more⟩ =
        (readAttributes inside ⟨pos + byteLength text, more⟩).map fun (attributes, selfClosing, last) =>
          (attr :: attributes, selfClosing, last)

/-- A start tag with nothing else but a text in it is read with one attribute. -/
def ReadAlone (text : List Char) (name value : String) : Prop :=
  ∀ tag pos, (∀ c ∈ tag, isTagNameChar c = true) →
    ∃ read next, readStartTag ⟨pos, '<' :: (tag ++ ' ' :: (text ++ ['>']))⟩ = .ok (read, next) ∧ next.rest = [] ∧
      read.name = .ofChars tag ∧ ∃ attr, read.attributes = [attr] ∧ attr.rawName = name ∧ attr.value = some value

namespace NamedBefore

theorem apart (before : NamedBefore name after) : Apart after name :=
  Text.apart_of_scan before.scanned

theorem again (before : NamedBefore name after) (apart : Apart more name) (ends : atNameEnd more = true)
    (begins : ∀ c ∈ more.head?, isMark c = false) : NamedBefore name more := by
  obtain ⟨named, noBlock, scanned, _⟩ := before
  refine ⟨named, ?_, Text.scan_again scanned apart (fun _ _ => rfl) (Text.scan_of_stops begins ends), begins⟩
  cases name with
  | nil => exact absurd rfl named
  | cons c name =>
    refine ((Text.apart_cons ?_).mp apart).1
    refine Option.eq_none_iff_forall_ne_some.mpr fun parts found => ?_
    rw [Text.templateBlock?_append_of_some found] at noBlock
    cases noBlock

theorem atNameEnd_append (before : NamedBefore name after) : atNameEnd (name ++ after) = false := by
  obtain ⟨named, noBlock, scanned, _⟩ := before
  cases name with
  | nil => exact absurd rfl named
  | cons c name =>
    rw [List.cons_append] at noBlock scanned ⊢
    rw [Text.scan_of_none noBlock] at scanned
    split at scanned
    · cases congrArg Prod.fst scanned
    · next passes => exact Bool.eq_false_iff.mpr passes

theorem skipSpace (before : NamedBefore name after) (pos : Nat) :
    Cursor.skipSpace ⟨pos, name ++ after⟩ = ⟨pos, name ++ after⟩ := by
  have noEnd := before.atNameEnd_append
  cases same : name ++ after with
  | nil => rfl
  | cons c cs =>
    rw [same] at noEnd
    refine Cursor.skipSpace_cons ?_
    simp only [atNameEnd, Bool.or_eq_false_iff] at noEnd
    exact noEnd.1.1.1.1.1.1

end NamedBefore

/-! ### Reading them -/

theorem readValue_quoted (isQuote : IsQuoteChar quote) (pos : Nat) (cs : List Char) :
    readValue ⟨pos, quote :: cs⟩ = readValue.quotedValue ⟨pos, quote :: cs⟩ quote cs := by
  rcases isQuote with rfl | rfl <;> rfl

theorem scan_value (isQuote : IsQuoteChar quote) (noQuote : quote ∉ value) (apart : Apart (quote :: more) value) :
    scan (atChar quote) (value ++ quote :: more) = (value, quote :: more) := by
  refine Text.scan_passes apart (fun c member back => ?_)
    (Text.scan_of_stops (Text.unmarked_head isQuote.unmarked more) (by simp [atChar]))
  have other : c ≠ quote := by
    rintro rfl
    exact noQuote member
  simpa [atChar] using other

theorem unmarked_quote (isQuote : IsQuoteChar quote) : Unmarked [quote] :=
  Text.unmarked_cons.mpr ⟨isQuote.unmarked, Text.unmarked_nil⟩

theorem occursIn_written (isQuote : IsQuoteChar quote) {mark : Char} (marked : isMark mark = true) (value : List Char) :
    occursIn [mark, '}'] ('=' :: quote :: (value ++ [quote])) = occursIn [mark, '}'] value := by
  have front : Unmarked ['=', quote] := Text.unmarked_cons.mpr ⟨by decide, unmarked_quote isQuote⟩
  exact (Text.occursIn_append_of_unmarked front marked _ _).trans
    ((Text.Rewrites.append_unmarked (unmarked_quote isQuote) value).occursIn_eq marked (by decide))

section

variable (before : NamedBefore name after) (isQuote : IsQuoteChar quote)
  (closers : ∀ mark, isMark mark = true → occursIn [mark, '}'] value = true → occursIn [mark, '}'] after = true)

include before isQuote closers

/-- If no block that begins in the text ends behind it, none that begins in the name ends in the value. -/
theorem apart_of_writtenAttribute (apart : Apart more (writtenAttribute name quote value)) :
    Apart ('=' :: quote :: (value ++ quote :: more)) name ∧ Apart (quote :: more) value := by
  have alone : Apart [quote] value := Text.apart_of_unmarked (unmarked_quote isQuote) value
  have name : Apart ('=' :: quote :: (value ++ [quote])) name := by
    refine Text.apart_of_closers before.begins (Text.unmarked_head (by decide) _) (fun mark marked closes => ?_)
      before.apart
    rw [occursIn_written isQuote marked] at closes
    exact closers mark marked closes
  obtain ⟨outer, inner⟩ := (Text.apart_append name).mp apart
  rw [Text.apart_cons_of_unmarked (by decide), Text.apart_cons_of_unmarked isQuote.unmarked] at inner
  exact ⟨by simpa using outer, ((Text.apart_append alone).mp inner).1⟩

variable (noQuote : quote ∉ value) (boundary : atBoundary more = true)
  (apart : Apart more (writtenAttribute name quote value))

include noQuote apart

theorem readSingle_written (pos : Nat) :
    ∃ attr : Attribute, attr.rawName = String.ofList name ∧ attr.value = some (String.ofList value) ∧
      readSingle ⟨pos, writtenAttribute name quote value ++ more⟩ =
        (attr, ⟨pos + byteLength (writtenAttribute name quote value), more⟩) := by
  obtain ⟨apartName, apartValue⟩ := apart_of_writtenAttribute before isQuote closers apart
  have named := before.again apartName rfl (Text.unmarked_head (by decide) _)
  have bytes : pos + byteLength name + byteLength ['='] + byteLength [quote] + byteLength value + byteLength [quote] =
      pos + byteLength (writtenAttribute name quote value) := by
    simp only [writtenAttribute, Text.byteLength_append, Text.byteLength_cons, Text.byteLength_nil]
    omega
  rw [writtenAttribute_append]
  unfold readSingle
  dsimp only
  rw [named.noBlock, named.scanned]
  simp only [Cursor.skip, Cursor.skipSpace_cons (c := '=') rfl, Cursor.skipSpace_cons isQuote.solid,
    readValue_quoted isQuote, readValue.quotedValue, scan_value isQuote noQuote apartValue, List.take_one,
    List.head?_cons, Option.toList_some, List.drop_one, List.tail_cons, bytes]
  exact ⟨_, rfl, rfl, rfl⟩

include boundary

theorem readAttribute_written (pos : Nat) :
    ∃ attr : Attribute, attr.rawName = String.ofList name ∧ attr.value = some (String.ofList value) ∧
      readAttribute ⟨pos, writtenAttribute name quote value ++ more⟩ =
        (attr, ⟨pos + byteLength (writtenAttribute name quote value), more⟩) := by
  obtain ⟨attr, named, valued, read⟩ := readSingle_written before isQuote closers noQuote apart pos
  refine ⟨attr, named, valued, ?_⟩
  unfold readAttribute
  simp only [read, boundary, Bool.not_true, Bool.and_false, Bool.false_and, Bool.false_eq_true, if_false]

end

theorem readAttributes_eq_map {cursor : Cursor} (inside : Construct) (noEnd : atNameEnd cursor.skipSpace.rest = false) :
    readAttributes inside cursor =
      (readAttributes inside (readAttribute cursor.skipSpace).2).map fun (attributes, selfClosing, last) =>
        ((readAttribute cursor.skipSpace).1 :: attributes, selfClosing, last) := by
  rw [readAttributes_eq]
  split
  · next same => rw [same] at noEnd; cases noEnd
  · next same => rw [same] at noEnd; cases noEnd
  · next same => rw [same] at noEnd; cases noEnd
  · rw [noEnd, if_neg Bool.false_ne_true]
    dsimp only
    cases readAttributes inside (readAttribute cursor.skipSpace).2 <;> rfl

theorem readAttributes_space (inside : Construct) (pos : Nat) (cs : List Char) :
    readAttributes inside ⟨pos, ' ' :: cs⟩ = readAttributes inside ⟨pos + 1, cs⟩ := by
  have space : isMarkupSpace ' ' = true := rfl
  have spaced : Cursor.skipSpace ⟨pos, ' ' :: cs⟩ = Cursor.skipSpace ⟨pos + 1, cs⟩ := by
    have width : ' '.utf8Size = 1 := rfl
    simp only [Cursor.skipSpace, Cursor.skip, List.takeWhile_cons_of_pos space, List.dropWhile_cons_of_pos space,
      Text.byteLength_cons, width, Nat.add_assoc]
  rw [readAttributes_eq, readAttributes_eq, spaced]

/-- What is read before other attributes is read alone as well. -/
theorem ReadAmong.alone {text : List Char} {name value : String} (among : ReadAmong text name value) :
    ReadAlone text name value := by
  intro tag pos chars
  have apart : Apart ['>'] text :=
    Text.apart_of_unmarked (Text.unmarked_cons.mpr ⟨by decide, Text.unmarked_nil⟩) text
  obtain ⟨attr, named, valued, read⟩ :=
    among (.startTag (String.ofList tag)) (pos + 1 + byteLength tag + 1) ['>'] rfl apart
  rw [HtmlAttribute.readAttributes_end] at read
  have tagName : readTagName ⟨pos + 1, tag ++ ' ' :: (text ++ ['>'])⟩ = _ := Html.readTagName_append chars rfl
  have written : (TagName.ofChars tag).written = String.ofList tag := by
    unfold TagName.ofChars
    dsimp only
    split
    · split <;> rfl
    · rfl
  have opened : Cursor.skip ⟨pos, '<' :: (tag ++ ' ' :: (text ++ ['>']))⟩ ['<'] (tag ++ ' ' :: (text ++ ['>'])) =
      ⟨pos + 1, tag ++ ' ' :: (text ++ ['>'])⟩ := rfl
  simp only [readStartTag, List.drop_one, List.tail_cons, opened, tagName, written, readAttributes_space, read]
  exact ⟨_, _, rfl, rfl, rfl, attr, rfl, named, valued⟩

/-- A value that is written behind a name that was read before is read again if its quote is not in it and if it closes
no block that was not closed behind the name. -/
theorem NamedBefore.readAmong (before : NamedBefore name after) (isQuote : IsQuoteChar quote) (noQuote : quote ∉ value)
    (closers : ∀ mark, isMark mark = true → occursIn [mark, '}'] value = true → occursIn [mark, '}'] after = true) :
    ReadAmong (writtenAttribute name quote value) (String.ofList name) (String.ofList value) := by
  intro inside pos more boundary apart
  obtain ⟨attr, named, valued, read⟩ := readAttribute_written before isQuote closers noQuote boundary apart pos
  have again := before.again (apart_of_writtenAttribute before isQuote closers apart).1 rfl
    (Text.unmarked_head (by decide) _)
  have noEnd := again.atNameEnd_append
  have spaced := again.skipSpace pos
  rw [← writtenAttribute_append] at noEnd spaced
  refine ⟨attr, named, valued, ?_⟩
  rw [readAttributes_eq_map inside (by rw [spaced]; exact noEnd), spaced, read]

end MarkupFormat.Markup
