import MarkupFormat.Proofs.Markup.Elements

/-!
# Start tags as they are written

A start tag is made up of its name, its attributes and its brackets, with nothing but white space and slashes between
them. Each attribute is the text that it covers: a name, or a name and a value with an equals sign between them. So a
start tag can be written again from what was read of it (`writtenAs_of_parse`).
-/

namespace MarkupFormat.Markup

open Text (Cut byteLength isMarkupSpace opensBlock scan templateBlock?)

/-! ### What is written -/

/-- The quote before and after a value. Without one, the value begins with none. -/
def IsQuote (quote value : List Char) : Prop :=
  quote = ['"'] ∨ quote = ['\''] ∨ quote = [] ∧ ∀ c ∈ value.head?, c ≠ '"' ∧ c ≠ '\''

/-- White space and slashes, which may stand between attributes. -/
def IsGap (cs : List Char) : Prop :=
  ∀ c ∈ cs, isMarkupSpace c = true ∨ c = '/'

/-- The text of an attribute, up to where it ends. -/
inductive Attribute.WrittenAs (attr : Attribute) : List Char → Prop
  | bare (named : attr.rawName ≠ "") (noValue : attr.value = none) (noSpan : attr.valueSpan = none) :
      WrittenAs attr attr.rawName.toList
  | valued {before between quote : List Char} {value : String} (named : attr.rawName ≠ "")
      (isValue : attr.value = some value) (blankBefore : before.all isMarkupSpace = true)
      (blankBetween : between.all isMarkupSpace = true) (quoted : IsQuote quote value.toList)
      (spans : ∀ start,
        start = attr.span.start + byteLength (attr.rawName.toList ++ before ++ '=' :: between ++ quote) →
        attr.valueSpan = some ⟨start, start + byteLength value.toList⟩) :
      WrittenAs attr (attr.rawName.toList ++ before ++ '=' :: between ++ quote ++ value.toList ++ quote)

/-- Between two offsets of the source stand attributes in their order, with gaps around them. -/
inductive AttributesWrittenAs (source : List Char) : List Attribute → Nat → Nat → List Char → Prop
  | nil {start stop : Nat} {gap : List Char} (isGap : IsGap gap) (cut : Cut source start stop gap) :
      AttributesWrittenAs source [] start stop gap
  | cons {attr : Attribute} {attributes : List Attribute} {start stop : Nat} {gap text rest : List Char}
      (isGap : IsGap gap) (before : Cut source start attr.span.start gap)
      (cut : Cut source attr.span.start attr.span.stop text) (written : attr.WrittenAs text)
      (others : AttributesWrittenAs source attributes attr.span.stop stop rest) :
      AttributesWrittenAs source (attr :: attributes) start stop (gap ++ text ++ rest)

/-- A start tag is written with the name and the attributes of its element. -/
def Element.WrittenAs (source : List Char) (start : Span) (element : Element) : Prop :=
  ∃ inner attributes closing,
    Cut source start.start start.stop ('<' :: element.rawName.toList ++ attributes ++ closing) ∧
      start.start + 1 = element.nameSpan.start ∧
      Cut source element.nameSpan.start element.nameSpan.stop element.rawName.toList ∧
      AttributesWrittenAs source element.attributes element.nameSpan.stop inner attributes ∧
      (closing = ['>'] ∨ closing = ['/', '>']) ∧ inner + byteLength closing = start.stop

/-! ### Values -/

variable {source : List Char} {cursor next : Cursor} {stop : Nat}

/-- A reader went over a text and the white space after it, or over all that is left. -/
def Attribute.ReadFrom (cursor next : Cursor) (attr : Attribute) : Prop :=
  (∃ text blank, cursor.Takes next (text ++ blank) ∧ blank.all isMarkupSpace = true ∧ attr.WrittenAs text ∧
    attr.span = ⟨cursor.pos, cursor.pos + byteLength text⟩) ∨ next.rest = []

theorem atChar_iff {c : Char} {cs : List Char} : atChar c cs = true ↔ ∃ rest, cs = c :: rest := by
  unfold atChar
  cases cs with
  | nil => simp
  | cons d rest => simp [eq_comm]

theorem takes_quotedValue {quote : Char} {cs : List Char} (same : cursor.rest = quote :: cs)
    (left : (readValue.quotedValue cursor quote cs).2.2.rest ≠ []) :
    let read := readValue.quotedValue cursor quote cs
    cursor.Takes read.2.2 (quote :: read.1.toList ++ [quote]) ∧
      read.2.1 = ⟨cursor.pos + quote.utf8Size, cursor.pos + quote.utf8Size + byteLength read.1.toList⟩ := by
  have whole := Text.scan_append (atChar quote) cs
  rcases Text.scan_stops (atChar quote) cs with none | stops
  · simp [readValue.quotedValue, Cursor.skip, none] at left
  · obtain ⟨rest, closes⟩ := atChar_iff.mp stops
    simp only [readValue.quotedValue, Cursor.skip, Cursor.spanTo, String.toList_ofList, closes, List.take_one,
      List.drop_one]
    refine ⟨⟨?_, ?_⟩, ?_⟩
    · rw [closes] at whole
      rw [same]
      simpa using whole.symm
    · simp only [Text.byteLength_append, Text.byteLength_cons, Text.byteLength_nil, List.head?_cons, Option.toList_some,
        List.cons_append]
      omega
    · simp only [Text.byteLength_cons, Text.byteLength_nil, Nat.add_zero]

/-- A value is read between its quotes, or up to a boundary; only a quote that stays open is read to the end. -/
theorem takes_readValue (left : (readValue cursor).2.2.rest ≠ []) :
    ∃ quote, IsQuote quote (readValue cursor).1.toList ∧
      cursor.Takes (readValue cursor).2.2 (quote ++ (readValue cursor).1.toList ++ quote) ∧
      (readValue cursor).2.1 =
        ⟨cursor.pos + byteLength quote, cursor.pos + byteLength quote + byteLength (readValue cursor).1.toList⟩ := by
  unfold readValue at left ⊢
  split at left
  · next cs same =>
    obtain ⟨takes, span⟩ := takes_quotedValue same left
    exact ⟨['"'], .inl rfl, takes, span⟩
  · next cs same =>
    obtain ⟨takes, span⟩ := takes_quotedValue same left
    exact ⟨['\''], .inr (.inl rfl), takes, span⟩
  · next cs noDouble noSingle =>
    have whole := Text.scan_append atBoundary cursor.rest
    refine ⟨[], .inr (.inr ⟨rfl, ?_⟩), ?_, ?_⟩
    · intro c first
      rw [String.toList_ofList] at first
      have front : ∃ more, cursor.rest = c :: more := by
        cases taken : (scan atBoundary cursor.rest).1 with
        | nil => rw [taken] at first; cases first
        | cons d ds =>
          rw [taken] at first whole
          cases first
          exact ⟨_, whole.symm⟩
      obtain ⟨more, same⟩ := front
      constructor
      · rintro rfl
        exact noDouble more same
      · rintro rfl
        exact noSingle more same
    · refine ⟨?_, ?_⟩
      · simp only [Cursor.skip, String.toList_ofList, List.nil_append, List.append_nil]
        exact whole.symm
      · simp only [Cursor.skip, String.toList_ofList, List.nil_append, List.append_nil]
    · simp only [Cursor.skip, Cursor.spanTo, String.toList_ofList, Text.byteLength_nil, Nat.add_zero]

/-! ### Attributes -/

theorem ne_empty_of_ne_nil {cs : List Char} (nonempty : cs ≠ []) : String.ofList cs ≠ "" := by
  intro empty
  have none := congrArg String.toList empty
  rw [String.toList_ofList] at none
  exact nonempty none

theorem writtenAs_bare {text : List Char} (nonempty : text ≠ []) (span : Span) :
    (⟨String.ofList text, none, span, none⟩ : Attribute).WrittenAs text := by
  have written : (⟨String.ofList text, none, span, none⟩ : Attribute).WrittenAs (String.ofList text).toList :=
    .bare (ne_empty_of_ne_nil nonempty) rfl rfl
  rwa [String.toList_ofList] at written

theorem takes_skipSpace (cursor : Cursor) :
    ∃ blank, blank.all isMarkupSpace = true ∧ cursor.Takes cursor.skipSpace blank :=
  ⟨_, List.all_takeWhile, Cursor.takes_skip List.takeWhile_append_dropWhile.symm⟩

theorem scan_name_ne_nil (noEnd : atNameEnd cursor.rest = false) : (scan atNameEnd cursor.rest).1 ≠ [] := by
  cases same : cursor.rest with
  | nil => rw [same] at noEnd; cases noEnd
  | cons c cs => rw [same] at noEnd; exact Text.scan_fst_ne_nil noEnd

theorem readFrom_valued {name : List Char} {named equals : Cursor} {after : List Char} (nonempty : name ≠ [])
    (takesName : cursor.Takes named name) (spaced : equals = named.skipSpace) (sign : equals.rest = '=' :: after) :
    let value := readValue (equals.skip ['='] after).skipSpace
    (⟨String.ofList name, some value.1, cursor.spanTo value.2.2, some value.2.1⟩ : Attribute).ReadFrom
      cursor value.2.2 := by
  by_cases left : (readValue (equals.skip ['='] after).skipSpace).2.2.rest = []
  · exact .inr left
  obtain ⟨before, blankBefore, takesBefore⟩ := takes_skipSpace named
  obtain ⟨between, blankBetween, takesBetween⟩ := takes_skipSpace (equals.skip ['='] after)
  obtain ⟨quote, quoted, takesValue, span⟩ := takes_readValue left
  rw [← spaced] at takesBefore
  have takesSign : equals.Takes (equals.skip ['='] after) ['='] := Cursor.takes_skip sign
  have opening := ((takesName.trans takesBefore).trans takesSign).trans takesBetween
  have whole := opening.trans takesValue
  generalize readValue (equals.skip ['='] after).skipSpace = read at *
  obtain ⟨value, valueSpan, next⟩ := read
  dsimp only at whole span quoted ⊢
  refine .inl ⟨name ++ before ++ '=' :: between ++ quote ++ value.toList ++ quote, [], ?_, rfl, ?_, ?_⟩
  · simpa using whole
  · have written : (⟨String.ofList name, some value, cursor.spanTo next, some valueSpan⟩ : Attribute).WrittenAs
        ((String.ofList name).toList ++ before ++ '=' :: between ++ quote ++ value.toList ++ quote) := by
      refine .valued (ne_empty_of_ne_nil nonempty) rfl blankBefore blankBetween quoted ?_
      rintro start rfl
      have begins := opening.2
      rw [span]
      simp only [Cursor.spanTo, String.toList_ofList, Text.byteLength_append, Text.byteLength_cons,
        Text.byteLength_nil] at begins ⊢
      rw [begins]
      congr 2 <;> omega
    rwa [String.toList_ofList] at written
  · have ends := whole.2
    simp only [Cursor.spanTo, Text.byteLength_append, Text.byteLength_cons, Text.byteLength_nil] at ends ⊢
    rw [ends]
    congr 1
    omega

theorem readFrom_readSingle (noEnd : atNameEnd cursor.rest = false) :
    (readSingle cursor).1.ReadFrom cursor (readSingle cursor).2 := by
  unfold readSingle
  split
  · next block rest found =>
    have takes := Cursor.takes_skip (Text.eq_of_templateBlock? found)
    refine .inl ⟨block, [], ?_, rfl, writtenAs_bare (Text.templateBlock?_ne_nil found) _, rfl⟩
    rwa [List.append_nil]
  · have nonempty := scan_name_ne_nil noEnd
    have takes := Cursor.takes_skip (Text.scan_append atNameEnd cursor.rest).symm
    dsimp only
    split
    · next after sign => exact readFrom_valued nonempty takes rfl sign
    · obtain ⟨blank, isBlank, spaces⟩ := takes_skipSpace (cursor.skip _ _)
      exact .inl ⟨_, blank, takes.trans spaces, isBlank, writtenAs_bare nonempty _, rfl⟩

theorem readFrom_readAttribute (noEnd : atNameEnd cursor.rest = false) :
    (readAttribute cursor).1.ReadFrom cursor (readAttribute cursor).2 := by
  have single := readFrom_readSingle noEnd
  have shorter := length_readSingle_lt noEnd
  obtain ⟨taken, takes⟩ := reaches_readSingle cursor
  have text : cursor.textTo (readSingle cursor).2 = taken := by
    unfold Cursor.textTo
    rw [takes.1, List.length_append, Nat.add_sub_cancel, List.take_left]
  unfold readAttribute
  dsimp only
  split
  · have whole := takes.trans (Cursor.takes_skip (gluedRun_append (readSingle cursor).2.rest).symm)
    have nonempty : taken ++ (gluedRun (readSingle cursor).2.rest).1 ≠ [] :=
      List.append_ne_nil_of_left_ne_nil (takes.ne_nil shorter) _
    rw [text]
    refine .inl ⟨_, [], ?_, rfl, writtenAs_bare nonempty _, ?_⟩
    · rwa [List.append_nil]
    · exact congrArg (Span.mk cursor.pos) whole.2
  · exact single

/-! ### Tags -/

theorem isGap_of_blank {cs : List Char} (blank : cs.all isMarkupSpace = true) : IsGap cs :=
  fun c member => .inl (List.all_eq_true.mp blank c member)

theorem IsGap.append {cs ds : List Char} (first : IsGap cs) (second : IsGap ds) : IsGap (cs ++ ds) :=
  List.forall_mem_append.mpr ⟨first, second⟩

theorem AttributesWrittenAs.afterGap {attributes : List Attribute} {start middle : Nat} {gap text : List Char}
    (written : AttributesWrittenAs source attributes middle stop text) (isGap : IsGap gap)
    (cut : Cut source start middle gap) : AttributesWrittenAs source attributes start stop (gap ++ text) := by
  cases written with
  | nil isGap' cut' => exact .nil (isGap.append isGap') (cut.append cut')
  | cons isGap' before cut' written others =>
    have longer := AttributesWrittenAs.cons (isGap.append isGap') (cut.append before) cut' written others
    simpa only [List.append_assoc] using longer

/-- How the attributes of a start tag are read, up to the end of the tag. -/
inductive ReadsAttributes : Cursor → List Attribute → Cursor → Prop
  | closed {cursor : Cursor} {rest : List Char} (closes : cursor.skipSpace.rest = '>' :: rest) :
      ReadsAttributes cursor [] (cursor.skipSpace.skip ['>'] rest)
  | selfClosed {cursor : Cursor} {rest : List Char} (closes : cursor.skipSpace.rest = '/' :: '>' :: rest) :
      ReadsAttributes cursor [] (cursor.skipSpace.skip ['/', '>'] rest)
  | slash {cursor last : Cursor} {rest : List Char} {attributes : List Attribute}
      (slash : cursor.skipSpace.rest = '/' :: rest)
      (others : ReadsAttributes (cursor.skipSpace.skip ['/'] rest) attributes last) :
      ReadsAttributes cursor attributes last
  | cons {cursor last : Cursor} {attributes : List Attribute} (noEnd : atNameEnd cursor.skipSpace.rest = false)
      (others : ReadsAttributes (readAttribute cursor.skipSpace).2 attributes last) :
      ReadsAttributes cursor ((readAttribute cursor.skipSpace).1 :: attributes) last

theorem readsAttributes_of_readAttributes {inside : Construct} {last : Cursor} {attributes : List Attribute}
    {selfClosing : Bool} (read : readAttributes inside cursor = .ok (attributes, selfClosing, last)) :
    ReadsAttributes cursor attributes last := by
  fun_induction readAttributes inside cursor generalizing attributes selfClosing last with
  | case1 cursor =>
    rename_i same
    cases read
    exact .closed same
  | case2 cursor =>
    rename_i same
    cases read
    exact .selfClosed same
  | case3 cursor =>
    rename_i same ih
    exact .slash same (ih read)
  | case4 => cases read
  | case5 cursor _ notEnd =>
    rename_i found _ _ _ ih
    cases read
    exact .cons (by simpa using notEnd) (ih found)
  | case6 => cases read

variable {last : Cursor} {attributes : List Attribute}

theorem ReadsAttributes.rest_ne_nil (reads : ReadsAttributes cursor attributes last) : cursor.rest ≠ [] := by
  intro empty
  have none : cursor.skipSpace.rest = [] := by
    simp only [Cursor.skipSpace, Cursor.skip, empty, List.dropWhile_nil]
  cases reads with
  | closed same => rw [none] at same; cases same
  | selfClosed same => rw [none] at same; cases same
  | slash same => rw [none] at same; cases same
  | cons noEnd => rw [none] at noEnd; cases noEnd

theorem ReadsAttributes.writtenAs (reads : ReadsAttributes cursor attributes last)
    (window : Cut source cursor.pos stop cursor.rest) :
    ∃ inner text closing, AttributesWrittenAs source attributes cursor.pos inner text ∧
      cursor.Takes last (text ++ closing) ∧ (closing = ['>'] ∨ closing = ['/', '>']) ∧
      inner + byteLength closing = last.pos := by
  induction reads with
  | @closed cursor rest same =>
    obtain ⟨blank, isBlank, spaces⟩ := takes_skipSpace cursor
    refine ⟨_, blank, ['>'], .nil (isGap_of_blank isBlank) (spaces.cut window).1, ?_, .inl rfl, rfl⟩
    exact spaces.trans (Cursor.takes_skip same)
  | @selfClosed cursor rest same =>
    obtain ⟨blank, isBlank, spaces⟩ := takes_skipSpace cursor
    refine ⟨_, blank, ['/', '>'], .nil (isGap_of_blank isBlank) (spaces.cut window).1, ?_, .inr rfl, rfl⟩
    exact spaces.trans (Cursor.takes_skip same)
  | @slash cursor last rest attributes same _ ih =>
    obtain ⟨blank, isBlank, spaces⟩ := takes_skipSpace cursor
    have sign : cursor.skipSpace.Takes (cursor.skipSpace.skip ['/'] rest) ['/'] := Cursor.takes_skip same
    have front := spaces.trans sign
    have isGap : IsGap (blank ++ ['/']) :=
      (isGap_of_blank isBlank).append (List.forall_mem_singleton.mpr (.inr rfl))
    obtain ⟨cut, window⟩ := front.cut window
    obtain ⟨inner, text, closing, written, takes, closes, ends⟩ := ih window
    refine ⟨inner, _, closing, written.afterGap isGap cut, ?_, closes, ends⟩
    simpa only [List.append_assoc] using front.trans takes
  | @cons cursor last attributes noEnd others ih =>
    obtain ⟨blank, isBlank, spaces⟩ := takes_skipSpace cursor
    obtain ⟨before, window⟩ := spaces.cut window
    rcases readFrom_readAttribute noEnd with ⟨text, after, takes, isBlank', written, span⟩ | none
    · generalize readAttribute cursor.skipSpace = read at *
      obtain ⟨attr, next⟩ := read
      dsimp only at takes written span others ih ⊢
      obtain ⟨here, window⟩ := takes.cut window
      obtain ⟨inner, rest, closing, writtenOthers, takesOthers, closes, ends⟩ := ih window
      -- The white space after the attribute belongs to the gap before the next one.
      obtain ⟨cut, gap⟩ := here.of_append
      have starts : attr.span.start = cursor.skipSpace.pos := congrArg Span.start span
      have stops : attr.span.stop = cursor.skipSpace.pos + byteLength text := congrArg Span.stop span
      rw [← starts] at before
      rw [← stops, ← starts] at cut
      rw [← stops] at gap
      have writtenAfter := writtenOthers.afterGap (isGap_of_blank isBlank') gap
      refine ⟨inner, _, closing, .cons (isGap_of_blank isBlank) before cut written writtenAfter, ?_, closes, ends⟩
      simpa only [List.append_assoc] using (spaces.trans takes).trans takesOthers
    · exact absurd none others.rest_ne_nil

/-- A name with its qualifier. -/
def TagName.full (name : TagName) : String :=
  match name.qualifier with
  | some qualifier => qualifier ++ ":" ++ name.name
  | none => name.name

theorem full_ofChars (cs : List Char) : (TagName.ofChars cs).full = String.ofList cs := by
  unfold TagName.ofChars
  dsimp only
  cases found : Text.breakOn [':'] cs with
  | none => rfl
  | some parts =>
    dsimp only
    split
    · rw [Text.eq_of_breakOn found, String.ofList_append, String.ofList_append]
      rfl
    · rfl

theorem rawName_elementIn (tag : StartTag) (parent : Option Element) :
    (tag.elementIn parent).rawName = tag.name.full := by
  unfold StartTag.elementIn TagName.namespaceIn Element.rawName Element.fullName TagName.full
  dsimp only
  cases tag.name.qualifier with
  | some qualifier => rfl
  | none =>
    dsimp only
    split
    · rfl
    · split <;> rfl

theorem StartTag.ReadIn.writtenAs {tag : StartTag} (read : tag.ReadIn source) (parent : Option Element) :
    (tag.elementIn parent).WrittenAs source tag.span := by
  obtain ⟨cursor, next, stop, window, opens, read⟩ := read
  have bracket := Cursor.takes_skip (Text.isPrefixOf_append_drop opens)
  have named : (cursor.skip ['<'] (cursor.rest.drop 1)).Takes (readTagName _).2 _ :=
    Cursor.takes_skip (List.takeWhile_append_dropWhile (p := isTagNameChar)).symm
  unfold readStartTag at read
  dsimp only [bind, Except.bind] at read
  split at read
  · cases read
  next found attributes =>
  cases read
  obtain ⟨first, afterBracket⟩ := bracket.cut window
  obtain ⟨second, afterName⟩ := named.cut afterBracket
  obtain ⟨inner, text, closing, written, takes, closes, ends⟩ :=
    (readsAttributes_of_readAttributes attributes).writtenAs afterName
  have whole := first.append (second.append (takes.cut afterName).1)
  unfold Element.WrittenAs
  rw [rawName_elementIn]
  dsimp only [readTagName]
  rw [full_ofChars, String.toList_ofList]
  refine ⟨inner, text, closing, ?_, rfl, second, written, closes, ends⟩
  rw [List.append_assoc, List.cons_append]
  exact whole

/-- Every start tag is written as its name and its attributes with gaps between them and brackets around them, and
the name and the attributes say what they cover. -/
theorem writtenAs_of_parse {source : String} {options : ParseOptions} {content : List Fragment}
    (parsed : parse source options = .ok content) :
    ∀ node ∈ content, node.ElementsSay fun start element => element.WrittenAs source.toList start :=
  elementsSay_of_parse (fun _ read parent => read.writtenAs parent) parsed

/-- Stray slashes and white space around an equals sign, a value without quotes and one with a block, a qualified name
and a run that is glued together. -/
def strayTag : String := "<x:y / a = 'b \x7b\x7b'\x7d\x7d' c=d/e\"f \x7b% g %\x7dh></x:y>"

theorem writtenAs_of_parse_strayTag : ∃ content, parse strayTag {} = .ok content ∧
    ∀ node ∈ content, node.ElementsSay fun start element => element.WrittenAs strayTag.toList start := by
  cases parsed : parse strayTag {} with
  | ok content => exact ⟨content, rfl, writtenAs_of_parse parsed⟩
  | error failure =>
    have readable : (parse strayTag {}).isOk = true := by decide +kernel
    rw [parsed] at readable
    cases readable

end MarkupFormat.Markup
