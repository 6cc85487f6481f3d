import MarkupFormat.Markup.Parse
import MarkupFormat.Proofs.Text.Blocks
import MarkupFormat.Proofs.Text.Cut

/-!
# What lexemes take

Each reader goes from a cursor to a later one. `Cursor.Takes` says which characters lie between the
two, and `readAs_of_readLexeme` that a lexeme spans exactly what its reader took. What is read of a
section goes on after its first lexeme by what this lexeme is.
-/

namespace MarkupFormat.Markup

open Text (byteLength)

namespace Cursor

/-- The characters `taken` lie between a cursor and a later one. -/
def Takes (cursor next : Cursor) (taken : List Char) : Prop :=
  cursor.rest = taken ++ next.rest ∧ next.pos = cursor.pos + byteLength taken

theorem takes_skip {cursor : Cursor} {taken rest : List Char} (same : cursor.rest = taken ++ rest) :
    cursor.Takes (cursor.skip taken rest) taken :=
  ⟨same, rfl⟩

theorem Takes.trans {cursor next last : Cursor} {taken more : List Char}
    (first : cursor.Takes next taken) (second : next.Takes last more) :
    cursor.Takes last (taken ++ more) := by
  obtain ⟨rest, pos⟩ := first
  obtain ⟨rest', pos'⟩ := second
  refine ⟨by rw [rest, rest', List.append_assoc], ?_⟩
  rw [pos', pos, Text.byteLength_append]
  omega

/-- Some characters lie between a cursor and a later one. -/
def Reaches (cursor next : Cursor) : Prop :=
  ∃ taken, cursor.Takes next taken

theorem Reaches.trans {cursor next last : Cursor} (first : cursor.Reaches next)
    (second : next.Reaches last) : cursor.Reaches last := by
  obtain ⟨taken, first⟩ := first
  obtain ⟨more, second⟩ := second
  exact ⟨taken ++ more, first.trans second⟩

theorem reaches_skip {cursor : Cursor} {taken rest : List Char} (same : cursor.rest = taken ++ rest) :
    cursor.Reaches (cursor.skip taken rest) :=
  ⟨taken, takes_skip same⟩

theorem reaches_skip_char {cursor : Cursor} {c : Char} {rest : List Char}
    (same : cursor.rest = c :: rest) : cursor.Reaches (cursor.skip [c] rest) :=
  reaches_skip same

theorem Takes.ne_nil {cursor next : Cursor} {taken : List Char} (took : cursor.Takes next taken)
    (shorter : next.rest.length < cursor.rest.length) : taken ≠ [] := by
  rintro rfl
  rw [took.1, List.nil_append] at shorter
  omega

theorem reaches_skipSpace (cursor : Cursor) : cursor.Reaches cursor.skipSpace :=
  reaches_skip List.takeWhile_append_dropWhile.symm

end Cursor

open Cursor (reaches_skip takes_skip)

/-! ### Tags -/

theorem reaches_readTagName (cursor : Cursor) : cursor.Reaches (readTagName cursor).2 :=
  reaches_skip List.takeWhile_append_dropWhile.symm

theorem reaches_quotedValue {cursor : Cursor} {quote : Char} {cs : List Char}
    (same : cursor.rest = quote :: cs) :
    cursor.Reaches (readValue.quotedValue cursor quote cs).2.2 := by
  have opened := Cursor.reaches_skip_char same
  have value := opened.trans (reaches_skip (Text.scan_append (atChar quote) cs).symm)
  exact value.trans (reaches_skip (List.take_append_drop 1 _).symm)

theorem reaches_readValue (cursor : Cursor) : cursor.Reaches (readValue cursor).2.2 := by
  unfold readValue
  split
  · next cs same => exact reaches_quotedValue same
  · next cs same => exact reaches_quotedValue same
  · exact reaches_skip (Text.scan_append atBoundary _).symm

theorem reaches_readSingle (cursor : Cursor) : cursor.Reaches (readSingle cursor).2 := by
  unfold readSingle
  split
  · next found => exact reaches_skip (Text.eq_of_templateBlock? found)
  · have name : cursor.Reaches (cursor.skip _ _) :=
      reaches_skip (Text.scan_append atNameEnd cursor.rest).symm
    have named := name.trans (Cursor.reaches_skipSpace _)
    dsimp only
    split
    · next after same =>
      have equals := named.trans (Cursor.reaches_skip_char same)
      exact (equals.trans (Cursor.reaches_skipSpace _)).trans (reaches_readValue _)
    · exact named

theorem reaches_readAttribute (cursor : Cursor) : cursor.Reaches (readAttribute cursor).2 := by
  have single := reaches_readSingle cursor
  unfold readAttribute
  dsimp only
  split
  · exact single.trans (reaches_skip (gluedRun_append _).symm)
  · exact single

theorem reaches_readAttributes {inside : Construct} {cursor last : Cursor}
    {attributes : List Attribute} {selfClosing : Bool}
    (read : readAttributes inside cursor = .ok (attributes, selfClosing, last)) :
    cursor.Reaches last := by
  fun_induction readAttributes inside cursor generalizing attributes selfClosing last with
  | case1 cursor =>
    rename_i same
    cases read
    exact cursor.reaches_skipSpace.trans (reaches_skip same)
  | case2 cursor =>
    rename_i same
    cases read
    exact cursor.reaches_skipSpace.trans (reaches_skip same)
  | case3 cursor =>
    rename_i same ih
    exact (cursor.reaches_skipSpace.trans (reaches_skip same)).trans (ih read)
  | case4 => cases read
  | case5 cursor =>
    rename_i found _ _ _ ih
    cases read
    exact (cursor.reaches_skipSpace.trans (reaches_readAttribute _)).trans (ih found)
  | case6 => cases read

theorem reaches_readStartTag {cursor next : Cursor} {tag : StartTag}
    (opening : ['<'].isPrefixOf cursor.rest) (read : readStartTag cursor = .ok (tag, next)) :
    cursor.Reaches next ∧ tag.span = cursor.spanTo next := by
  unfold readStartTag at read
  dsimp only [bind, Except.bind] at read
  split at read
  · cases read
  · next found =>
    cases read
    have opened := reaches_skip (Text.isPrefixOf_append_drop opening)
    exact ⟨(opened.trans (reaches_readTagName _)).trans (reaches_readAttributes found), rfl⟩

theorem reaches_readEndTag {cursor next : Cursor} {tag : EndTag}
    (opening : ['<', '/'].isPrefixOf cursor.rest) (read : readEndTag cursor = .ok (tag, next)) :
    cursor.Reaches next ∧ tag.span = cursor.spanTo next := by
  unfold readEndTag at read
  dsimp only at read
  split at read
  · next same =>
    cases read
    have opened := reaches_skip (Text.isPrefixOf_append_drop opening)
    have named := opened.trans (reaches_readTagName _)
    exact ⟨(named.trans (Cursor.reaches_skipSpace _)).trans (reaches_skip same), rfl⟩
  · cases read

/-! ### Lexemes -/

theorem takes_readDelimited {opening closing : List Char} {inside : Construct}
    {cursor next : Cursor} {value : List Char} {span : Span}
    (starts : opening.isPrefixOf cursor.rest)
    (read : readDelimited opening closing inside cursor = .ok (value, span, next)) :
    cursor.Takes next (opening ++ value ++ closing) ∧ span = cursor.spanTo next := by
  unfold readDelimited at read
  split at read
  · next found =>
    cases read
    refine ⟨takes_skip ?_, rfl⟩
    rw [Text.isPrefixOf_append_drop starts, Text.eq_of_breakOn found]
    simp only [List.append_assoc]
  · cases read

/-- The part of the input that a lexeme was read from. -/
def Lexeme.span : Lexeme → Span
  | text _ span | comment _ span | cdata _ span | doctype _ span | directive _ span
  | componentEnd span => span
  | startTag tag => tag.span
  | endTag tag => tag.span

/-- What a lexeme took, with the text of a text and of a comment. -/
structure Lexeme.ReadAs (lexeme : Lexeme) (cursor next : Cursor) (taken : List Char) : Prop where
  takes : cursor.Takes next taken
  span : lexeme.span = cursor.spanTo next
  text : ∀ value span, lexeme = .text value span → value = taken
  comment : ∀ value span, lexeme = .comment value span →
    taken = "<!--".toList ++ value ++ "-->".toList

theorem isPrefixOf_of_atMarkup {options : ParseOptions} {cs : List Char}
    (markup : atMarkup options cs = true) : ['<'].isPrefixOf cs := by
  unfold atMarkup at markup
  split at markup
  · rfl
  · rfl
  · rfl
  · rfl
  · cases markup

theorem exists_ok_of_map {ε α β : Type} {result : Except ε α} {change : α → β} {made : β}
    (mapped : result.map change = .ok made) : ∃ value, result = .ok value ∧ change value = made := by
  cases result with
  | error failure => cases mapped
  | ok value => exact ⟨value, rfl, Except.ok.inj mapped⟩

theorem takes_of_map_readDelimited {opening closing : List Char} {inside : Construct}
    {cursor next : Cursor} {lexeme : Lexeme} {make : List Char × Span × Cursor → Lexeme × Cursor}
    (starts : opening.isPrefixOf cursor.rest)
    (read : (readDelimited opening closing inside cursor).map make = .ok (lexeme, next)) :
    ∃ value after, make (value, cursor.spanTo after, after) = (lexeme, next) ∧
      cursor.Takes after (opening ++ value ++ closing) := by
  obtain ⟨⟨value, span, after⟩, found, same⟩ := exists_ok_of_map read
  obtain ⟨takes, rfl⟩ := takes_readDelimited starts found
  exact ⟨value, after, same, takes⟩

theorem readAs_of_readLexeme {options : ParseOptions} {cursor next : Cursor} {lexeme : Lexeme}
    (nonempty : cursor.rest ≠ []) (read : readLexeme options cursor = .ok (lexeme, next)) :
    ∃ taken, taken ≠ [] ∧ lexeme.ReadAs cursor next taken := by
  -- Since the rest gets shorter, it is enough that the lexeme spans what was taken.
  have shorter := (readLexeme_lt nonempty read).1
  suffices h : ∃ taken, lexeme.ReadAs cursor next taken by
    obtain ⟨taken, readAs⟩ := h
    exact ⟨taken, readAs.takes.ne_nil shorter, readAs⟩
  unfold readLexeme at read
  dsimp only at read
  split at read
  · cases read
    refine ⟨_, takes_skip (Text.scan_append _ _).symm, rfl, ?_, nofun⟩
    rintro _ _ ⟨⟩
    rfl
  · next markup =>
    split at read
    · next starts =>
      obtain ⟨value, after, same, takes⟩ := takes_of_map_readDelimited starts read
      cases same
      refine ⟨_, takes, rfl, nofun, ?_⟩
      rintro _ _ ⟨⟩
      rfl
    · split at read
      · next starts =>
        obtain ⟨value, after, same, takes⟩ := takes_of_map_readDelimited starts read
        cases same
        exact ⟨_, takes, rfl, nofun, nofun⟩
      · split at read
        · next starts =>
          obtain ⟨value, after, same, takes⟩ := takes_of_map_readDelimited starts read
          cases same
          exact ⟨_, takes, rfl, nofun, nofun⟩
        · split at read
          · next starts =>
            obtain ⟨value, after, same, takes⟩ := takes_of_map_readDelimited starts read
            cases same
            exact ⟨_, takes, rfl, nofun, nofun⟩
          · split at read
            · next component =>
              cases read
              simp only [atComponentEnd, Bool.and_eq_true] at component
              have starts := Text.isPrefixOf_append_drop component.2
              exact ⟨_, takes_skip starts, rfl, nofun, nofun⟩
            · split at read
              · next starts =>
                obtain ⟨⟨tag, after⟩, found, same⟩ := exists_ok_of_map read
                cases same
                obtain ⟨⟨taken, takes⟩, span⟩ := reaches_readEndTag starts found
                exact ⟨taken, takes, span, nofun, nofun⟩
              · obtain ⟨⟨tag, after⟩, found, same⟩ := exists_ok_of_map read
                cases same
                have starts := isPrefixOf_of_atMarkup (by simpa using markup)
                obtain ⟨⟨taken, takes⟩, span⟩ := reaches_readStartTag starts found
                exact ⟨taken, takes, span, nofun, nofun⟩

/-! ### Open elements -/

namespace OpenElements

/-- What is open once a start tag with a name has ended the element that cannot hold it. -/
def endedBy (opened : OpenElements) (name : String) : OpenElements :=
  match opened.innermost? with
  | some parent => if parent.tag.isClosedBy name then opened.close none else opened
  | none => opened

/-- Adds the element of a start tag if it is ended at once, and opens it otherwise. -/
def startElement (opened : OpenElements) (tag : StartTag) (element : Element) : OpenElements × Bool :=
  if tag.selfClosing || element.tag.isVoid then
    (opened.add (.node
      { kind := .element element
        span := tag.span
        startSpan := some tag.span
        endSpan := if tag.selfClosing then some tag.span else none } []), false)
  else
    ({ opened with stack := { element := element, startSpan := tag.span } :: opened.stack },
      element.hasRawContent)

/-! What is kept where one element ends is kept however many end. -/

section

variable {motive : OpenElements → Prop} {opened after : OpenElements}

theorem endedBy_keeps (holds : motive opened) (ended : motive (opened.close none)) (name : String) :
    motive (opened.endedBy name) := by
  unfold endedBy
  split
  · split
    · exact ended
    · exact holds
  · exact holds

theorem closeAll_keeps (holds : motive opened)
    (ended : ∀ {around : OpenElements}, motive around → motive (around.close none)) : motive opened.closeAll := by
  fun_induction closeAll opened with
  | case1 => exact holds
  | case2 opened _ ih => exact ih (ended holds)

theorem closeNamed?_keeps {name : String} {ns : Option String} {endSpan : Span} (holds : motive opened)
    (ended : ∀ {around : OpenElements}, motive around → motive (around.close none))
    (closes : ∀ {around : OpenElements}, motive around → motive (around.close (some endSpan)))
    (closed : opened.closeNamed? name ns endSpan = some after) : motive after := by
  fun_induction closeNamed? opened name ns endSpan with
  | case1 => cases closed
  | case2 opened innermost outer same named =>
    cases closed
    exact closes holds
  | case3 opened innermost outer same named implied ih => exact ih (ended holds) closed
  | case4 => cases closed

end

theorem startTag_eq_startElement (opened : OpenElements) (tag : StartTag) :
    opened.startTag tag = (opened.endedBy tag.name.name).startElement tag (tag.elementIn opened.innermost?) := rfl

end OpenElements

/-! ### Content -/

section

variable {options : ParseOptions} {opened : OpenElements} {cursor next : Cursor} {span : Span} {value : List Char}

theorem readContent_of_error {failure : Failure} (nonempty : cursor.rest ≠ [])
    (lexed : readLexeme options cursor = .error failure) : readContent options opened cursor = .error failure := by
  rw [readContent, dif_neg nonempty]
  grind

theorem readContent_of_startTag {tag : StartTag} (nonempty : cursor.rest ≠ [])
    (lexed : readLexeme options cursor = .ok (.startTag tag, next)) :
    readContent options opened cursor =
      match readElement opened tag next with
      | .error failure => .error failure
      | .ok (opened, next) => readContent options opened next := by
  rw [readContent, dif_neg nonempty]
  grind

theorem readContent_of_section {condition : String} {before body : List Char} (nonempty : cursor.rest ≠ [])
    (lexed : readLexeme options cursor = .ok (.comment value span, next))
    (found : conditionalOf? options value = some (.block condition before body)) :
    readContent options opened cursor =
      readContent options (opened.add (conditionalNode span condition before body
        (readContent options {} ⟨sectionStart span before, body⟩))) next := by
  rw [readContent, dif_neg nonempty]
  grind

theorem readContent_of_comment (nonempty : cursor.rest ≠ [])
    (lexed : readLexeme options cursor = .ok (.comment value span, next))
    (other : ∀ condition before body, conditionalOf? options value ≠ some (.block condition before body)) :
    readContent options opened cursor =
      readContent options (opened.add (commentNode span value (conditionalOf? options value))) next := by
  rw [readContent, dif_neg nonempty]
  grind

theorem readContent_of_follow {lexeme : Lexeme} (nonempty : cursor.rest ≠ [])
    (lexed : readLexeme options cursor = .ok (lexeme, next))
    (noElement : ∀ tag, lexeme ≠ .startTag tag) (noComment : ∀ value span, lexeme ≠ .comment value span) :
    readContent options opened cursor =
      match opened.follow lexeme with
      | .error failure => .error failure
      | .ok opened => readContent options opened next := by
  rw [readContent, dif_neg nonempty]
  grind

theorem readElement_keeps {motive : OpenElements → Prop} {after : OpenElements} {tag : StartTag}
    (started : motive (opened.startTag tag).1)
    (added : ∀ {around : OpenElements}, motive around → ∀ value span, motive (around.add (.leaf (.text value) span)))
    (ended : ∀ {around : OpenElements}, motive around → ∀ endSpan, motive (around.close endSpan))
    (found : readElement opened tag cursor = .ok (after, next)) : motive after := by
  unfold readElement at found
  split at found
  · next inner same =>
    rw [same] at started
    unfold readRawContent at found
    dsimp only at found
    generalize (readRaw tag.name.name.toList cursor.rest).1 = value at found
    have raw (span : Span) :
        motive (if value = [] then inner else inner.add (.leaf (.text (String.ofList value)) span)) := by
      split
      · exact started
      · exact added started _ _
    split at found
    · cases found
      exact raw _
    · obtain ⟨⟨tag, last⟩, -, same⟩ := exists_ok_of_map found
      cases same
      exact ended (raw _) _
  · next inner same =>
    rw [same] at started
    cases found
    exact started

/-- Front matter is looked for only before everything else is read. -/
theorem readContent_frontMatter (options : ParseOptions) (frontMatter : Bool) (opened : OpenElements)
    (cursor : Cursor) :
    readContent { options with frontMatter := frontMatter } opened cursor = readContent options opened cursor := by
  have lexeme (cursor : Cursor) :
      readLexeme { options with frontMatter := frontMatter } cursor = readLexeme options cursor := rfl
  fun_induction readContent options opened cursor with
  | case1 opened cursor empty => rw [readContent, dif_pos empty]
  | case2 opened cursor nonempty failure lexed => exact readContent_of_error nonempty lexed
  | case3 opened cursor nonempty tag next lexed failure element =>
    rw [readContent_of_startTag nonempty ((lexeme cursor).trans lexed), element]
  | case4 opened cursor nonempty tag next lexed inner later element ih =>
    rw [readContent_of_startTag nonempty ((lexeme cursor).trans lexed), element]
    exact ih
  | case5 opened cursor nonempty value span next lexed condition front body found content ihInside =>
    rename_i ih
    rw [readContent_of_section nonempty ((lexeme cursor).trans lexed) found, ihInside]
    exact ih
  | case6 opened cursor nonempty value span next lexed plain ih =>
    rw [readContent_of_comment nonempty ((lexeme cursor).trans lexed) plain]
    exact ih
  | case7 opened cursor nonempty lexeme' next noElement noComment lexed failure followed =>
    rw [readContent_of_follow nonempty ((lexeme cursor).trans lexed) noElement noComment, followed]
  | case8 opened cursor nonempty lexeme' next noElement noComment lexed inner followed ih =>
    rw [readContent_of_follow nonempty ((lexeme cursor).trans lexed) noElement noComment, followed]
    exact ih

/-- A source is read unless it is too large. -/
theorem parse_eq_ok_iff {source : List Char} {content : List Fragment} :
    parse (String.ofList source) options = .ok content ↔
      readSource options source = .ok content ∧ byteLength source ≤ maxSourceBytes := by
  unfold parse
  rw [String.toList_ofList]
  dsimp only
  by_cases small : byteLength source ≤ maxSourceBytes
  · rw [if_neg (Nat.not_lt.mpr small), and_iff_left small]
    cases readSource options source with
    | ok nodes => exact ⟨fun same => congrArg _ (Except.ok.inj same), fun same => congrArg _ (Except.ok.inj same)⟩
    | error failure => exact ⟨fun same => (by cases same), fun same => (by cases same)⟩
  · rw [if_pos (Nat.lt_of_not_le small)]
    exact ⟨fun same => (by cases same), fun both => absurd both.2 small⟩

end

end MarkupFormat.Markup
