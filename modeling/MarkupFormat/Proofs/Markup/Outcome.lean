import MarkupFormat.Proofs.Markup.LineIndex
import MarkupFormat.Proofs.Markup.Losslessness

/-!
# How reading ends

Whether a source can be read to its end, and where it fails otherwise.

Whether a source can be read to its end, and how it fails otherwise, depends on which elements are open and not on what
is inside of them: readers that begin with the same open elements fail in the same way or end with the same open
elements (`elements_readContent`). So a node that was added does not show in the outcome (`outcome_add`).

What is read is a window of the source, and a reader that fails does so at a cursor in its window. So the span of a
failure cuts out of the source what cannot stand there (`Failure.LiesIn`): one character, an end tag, or nothing at the
end of the input. Sections that cannot be read are kept as text, so a failure in another window never shows.
-/

namespace MarkupFormat.Markup

open Text (Cut byteLength)

namespace OpenElements

variable {opened other : OpenElements}

/-- The open elements, the innermost first. -/
def elements (opened : OpenElements) : List Element :=
  opened.stack.map (·.element)

theorem elements_add (opened : OpenElements) (node : Fragment) : (opened.add node).elements = opened.elements := by
  obtain ⟨stack, nodes⟩ := opened
  cases stack <;> rfl

theorem elements_close (opened : OpenElements) (endSpan : Option Span) :
    (opened.close endSpan).elements = opened.elements.tail := by
  obtain ⟨stack, nodes⟩ := opened
  cases stack with
  | nil => rfl
  | cons innermost outer => exact elements_add ⟨outer, nodes⟩ _

theorem innermost?_eq (opened : OpenElements) : opened.innermost? = opened.elements.head? := by
  unfold innermost? elements
  rw [List.head?_map]

/-- What stays open after an end tag, if it ends an element. -/
def openAfter? (name : String) (ns : Option String) : List Element → Option (List Element)
  | [] => none
  | innermost :: outer =>
    if innermost.name = name ∧ innermost.ns = ns then some outer
    else if innermost.tag.closedByParent then openAfter? name ns outer
    else none

theorem elements_closeNamed? (opened : OpenElements) (name : String) (ns : Option String) (endSpan : Span) :
    (opened.closeNamed? name ns endSpan).map elements = openAfter? name ns opened.elements := by
  fun_induction OpenElements.closeNamed? opened name ns endSpan with
  | case1 opened none_open =>
    rw [elements, none_open]
    rfl
  | case2 opened innermost outer some_open named =>
    rw [Option.map_some, elements_close, elements, some_open, List.map_cons, openAfter?, if_pos named]
    rfl
  | case3 opened innermost outer some_open named implied ih =>
    rw [ih, elements_close, elements, some_open, List.map_cons, openAfter?, if_neg named, if_pos implied]
    rfl
  | case4 opened innermost outer some_open named stays =>
    rw [elements, some_open, List.map_cons, openAfter?, if_neg named, if_neg stays]
    rfl

theorem elements_endTag (same : opened.elements = other.elements) (tag : EndTag) :
    (opened.endTag tag).map elements = (other.endTag tag).map elements := by
  have closed (opened : OpenElements) := opened.elements_closeNamed? tag.name.name
  unfold endTag namespaceOf
  rw [innermost?_eq, innermost?_eq, same]
  split
  · rfl
  · generalize (tag.name.namespaceIn other.elements.head?).1 = ns
    have here := (closed opened ns tag.span).trans ((congrArg _ same).trans (closed other ns tag.span).symm)
    generalize opened.closeNamed? _ _ _ = found at here ⊢
    generalize other.closeNamed? _ _ _ = expected at here ⊢
    cases found with
    | none =>
      cases expected with
      | none => rfl
      | some => cases here
    | some =>
      cases expected with
      | none => cases here
      | some => exact congrArg Except.ok (Option.some.inj here)

theorem elements_componentEnd (same : opened.elements = other.elements) (span : Span) :
    (opened.componentEnd span).map elements = (other.componentEnd span).map elements := by
  have empty (opened : OpenElements) : opened.stack.isEmpty = opened.elements.isEmpty := List.isEmpty_map.symm
  unfold componentEnd
  rw [empty, empty, same]
  split
  · rfl
  · show Except.ok (elements _) = Except.ok (elements _)
    rw [elements_close, elements_close, same]

theorem elements_follow (same : opened.elements = other.elements) (lexeme : Lexeme) :
    (opened.follow lexeme).map elements = (other.follow lexeme).map elements := by
  have added (node : Fragment) : (opened.add node).elements = (other.add node).elements := by
    rw [elements_add, elements_add, same]
  cases lexeme with
  | text | cdata | doctype | directive => exact congrArg Except.ok (added _)
  | comment | startTag => exact congrArg Except.ok same
  | endTag tag => exact elements_endTag same tag
  | componentEnd span => exact elements_componentEnd same span

theorem elements_endedBy (same : opened.elements = other.elements) (name : String) :
    (opened.endedBy name).elements = (other.endedBy name).elements := by
  unfold endedBy
  rw [innermost?_eq, innermost?_eq, same]
  cases other.elements.head? with
  | none => exact same
  | some parent =>
    dsimp only
    split
    · rw [elements_close, elements_close, same]
    · exact same

theorem elements_startElement (same : opened.elements = other.elements) (tag : StartTag) (element : Element) :
    (opened.startElement tag element).1.elements = (other.startElement tag element).1.elements ∧
      (opened.startElement tag element).2 = (other.startElement tag element).2 := by
  unfold startElement
  split
  · exact ⟨by rw [elements_add, elements_add, same], rfl⟩
  · exact ⟨congrArg (element :: ·) same, rfl⟩

theorem elements_startTag (same : opened.elements = other.elements) (tag : StartTag) :
    (opened.startTag tag).1.elements = (other.startTag tag).1.elements ∧
      (opened.startTag tag).2 = (other.startTag tag).2 := by
  rw [startTag_eq_startElement, startTag_eq_startElement, innermost?_eq, innermost?_eq, same]
  exact elements_startElement (elements_endedBy same tag.name.name) tag _

end OpenElements

open OpenElements (elements)

variable {opened other : OpenElements}

/-- The elements that are open, and what is left to read. -/
def placeOf (read : OpenElements × Cursor) : List Element × Cursor :=
  (read.1.elements, read.2)

theorem placeOf_readRawContent (same : opened.elements = other.elements) (name : String) (cursor : Cursor) :
    (readRawContent opened name cursor).map placeOf = (readRawContent other name cursor).map placeOf := by
  unfold readRawContent
  generalize readRaw name.toList cursor.rest = raw
  obtain ⟨value, rest⟩ := raw
  dsimp only
  generalize cursor.skip value rest = next
  have inside (opened : OpenElements) : (if value = [] then opened
      else opened.add (.leaf (.text (String.ofList value)) (cursor.spanTo next))).elements = opened.elements := by
    split
    · rfl
    · exact OpenElements.elements_add _ _
  split
  · refine congrArg (fun elements => Except.ok (elements, next)) ?_
    rw [inside, inside, same]
  · cases readEndTag next with
    | error failure => rfl
    | ok read =>
      refine congrArg (fun elements => Except.ok (elements, read.2)) ?_
      rw [OpenElements.elements_close, OpenElements.elements_close, inside, inside, same]

theorem placeOf_readElement (same : opened.elements = other.elements) (tag : StartTag) (cursor : Cursor) :
    (readElement opened tag cursor).map placeOf = (readElement other tag cursor).map placeOf := by
  obtain ⟨started, raw⟩ := OpenElements.elements_startTag same tag
  unfold readElement
  generalize opened.startTag tag = here at started raw ⊢
  generalize other.startTag tag = there at started raw ⊢
  obtain ⟨here, isRaw⟩ := here
  obtain ⟨there, isRaw'⟩ := there
  obtain rfl : isRaw = isRaw' := raw
  cases isRaw with
  | true => exact placeOf_readRawContent started _ _
  | false => exact congrArg (fun elements => Except.ok (elements, cursor)) started

/-! ### Content -/

/-- Readers that begin with the same open elements end with the same ones or fail in the same way. -/
theorem elements_readContent (options : ParseOptions) (same : opened.elements = other.elements) (cursor : Cursor) :
    (readContent options opened cursor).map elements = (readContent options other cursor).map elements := by
  have added {opened other : OpenElements} (same : opened.elements = other.elements) (node more : Fragment) :
      (opened.add node).elements = (other.add more).elements := by
    rw [OpenElements.elements_add, OpenElements.elements_add, same]
  fun_induction readContent options opened cursor generalizing other with
  | case1 opened cursor empty =>
    rw [readContent, dif_pos empty]
    exact congrArg Except.ok same
  | case2 opened cursor nonempty failure lexed =>
    rw [readContent_of_error nonempty lexed]
  | case3 opened cursor nonempty tag next lexed failure element =>
    have agree := placeOf_readElement same tag next
    rw [element] at agree
    rw [readContent_of_startTag nonempty lexed]
    generalize readElement other tag next = there at agree ⊢
    cases there with
    | error => cases agree; rfl
    | ok => cases agree
  | case4 opened cursor nonempty tag next lexed inner later element ih =>
    have agree := placeOf_readElement same tag next
    rw [element] at agree
    rw [readContent_of_startTag nonempty lexed]
    generalize readElement other tag next = there at agree ⊢
    cases there with
    | error => cases agree
    | ok read =>
      obtain ⟨elements, rfl⟩ := Prod.mk.inj (Except.ok.inj agree)
      exact ih elements
  | case5 opened cursor nonempty value span next lexed condition before body found content ihInside =>
    rename_i ih
    rw [readContent_of_section nonempty lexed found]
    exact ih (added same _ _)
  | case6 opened cursor nonempty value span next lexed plain ih =>
    rw [readContent_of_comment nonempty lexed plain]
    exact ih (added same _ _)
  | case7 opened cursor nonempty lexeme next noElement noComment lexed failure followed =>
    have agree := OpenElements.elements_follow same lexeme
    rw [followed] at agree
    rw [readContent_of_follow nonempty lexed noElement noComment]
    generalize other.follow lexeme = there at agree ⊢
    cases there with
    | error => cases agree; rfl
    | ok => cases agree
  | case8 opened cursor nonempty lexeme next noElement noComment lexed inner followed ih =>
    have agree := OpenElements.elements_follow same lexeme
    rw [followed] at agree
    rw [readContent_of_follow nonempty lexed noElement noComment]
    generalize other.follow lexeme = there at agree ⊢
    cases there with
    | error => cases agree
    | ok read => exact ih (Except.ok.inj agree)

theorem outcome_add (options : ParseOptions) (opened : OpenElements) (node : Fragment) (cursor : Cursor) :
    ((readContent options (opened.add node) cursor).map fun _ => ()) =
      (readContent options opened cursor).map fun _ => () := by
  have forget (read : Except Failure OpenElements) : (read.map elements).map (fun _ => ()) = read.map fun _ => () := by
    cases read <;> rfl
  rw [← forget, ← forget, elements_readContent options (opened.elements_add node) cursor]

/-! ### Where failures lie -/

/-- What a fault is about, as it is written in the source. -/
def Fault.IsAbout : Fault → List Char → Prop
  | .unterminated _, part => part = []
  | .unexpected found _, part => part = [found]
  | .nothingToClose, part | .unmatchedEnd _, part | .voidEnd _, part => part ≠ []
  | .tooLarge _, _ => False

/-- The span of a failure lies between characters of the source, and covers what the fault is about. -/
def Failure.LiesIn (source : List Char) (failure : Failure) : Prop :=
  ∃ part, failure.fault.IsAbout part ∧ Cut source failure.span.start failure.span.stop part

variable {source : List Char} {cursor next : Cursor} {stop : Nat} {failure : Failure} {options : ParseOptions}

/-! ### Cursors -/

theorem Cursor.Reaches.cut_rest (reaches : cursor.Reaches next) (window : Cut source cursor.pos stop cursor.rest) :
    Cut source next.pos stop next.rest := by
  obtain ⟨taken, took⟩ := reaches
  exact (took.cut window).2

theorem Cursor.liesIn_unterminated (window : Cut source cursor.pos stop cursor.rest) (inside : Construct) :
    (cursor.unterminated inside).LiesIn source := by
  have ends : cursor.stop = stop := window.stop_eq.symm
  refine ⟨[], rfl, ?_⟩
  show Cut source cursor.stop cursor.stop []
  rw [ends]
  exact window.nil_stop

theorem Cursor.liesIn_unexpected (window : Cut source cursor.pos stop cursor.rest) (inside : Construct) :
    (cursor.unexpected inside).LiesIn source := by
  unfold unexpected
  split
  · exact liesIn_unterminated window inside
  · next c rest same =>
    rw [same, ← List.singleton_append] at window
    have here := window.of_append.1
    rw [Text.byteLength_cons, Text.byteLength_nil, Nat.add_zero] at here
    exact ⟨[c], rfl, here⟩

/-! ### Tags -/

theorem liesIn_readAttributes {inside : Construct} (window : Cut source cursor.pos stop cursor.rest)
    (failed : readAttributes inside cursor = .error failure) : failure.LiesIn source := by
  fun_induction readAttributes inside cursor with
  | case1 => cases failed
  | case2 => cases failed
  | case3 cursor =>
    rename_i same ih
    exact ih ((cursor.reaches_skipSpace.trans (Cursor.reaches_skip same)).cut_rest window) failed
  | case4 cursor =>
    cases failed
    exact Cursor.liesIn_unexpected (cursor.reaches_skipSpace.cut_rest window) inside
  | case5 => cases failed
  | case6 cursor =>
    rename_i found _ _ _ ih
    cases failed
    exact ih ((cursor.reaches_skipSpace.trans (reaches_readAttribute _)).cut_rest window) found

theorem liesIn_readStartTag (opening : ['<'].isPrefixOf cursor.rest) (window : Cut source cursor.pos stop cursor.rest)
    (failed : readStartTag cursor = .error failure) : failure.LiesIn source := by
  unfold readStartTag at failed
  dsimp only [bind, Except.bind] at failed
  split at failed
  · next found =>
    cases failed
    have opened := Cursor.reaches_skip (Text.isPrefixOf_append_drop opening)
    exact liesIn_readAttributes ((opened.trans (reaches_readTagName _)).cut_rest window) found
  · cases failed

theorem liesIn_readEndTag (opening : ['<', '/'].isPrefixOf cursor.rest)
    (window : Cut source cursor.pos stop cursor.rest) (failed : readEndTag cursor = .error failure) :
    failure.LiesIn source := by
  unfold readEndTag at failed
  dsimp only at failed
  split at failed
  · cases failed
  · cases failed
    have opened := Cursor.reaches_skip (Text.isPrefixOf_append_drop opening)
    have named := (opened.trans (reaches_readTagName _)).trans (Cursor.reaches_skipSpace _)
    exact Cursor.liesIn_unexpected (named.cut_rest window) _

/-! ### Lexemes -/

theorem eq_error_of_map {ε α β : Type} {result : Except ε α} {change : α → β} {reason : ε}
    (mapped : result.map change = .error reason) : result = .error reason := by
  cases result with
  | error failure => cases mapped; rfl
  | ok value => cases mapped

theorem liesIn_map_readDelimited {α : Type} {opening closing : List Char} {inside : Construct}
    {make : List Char × Span × Cursor → α} (window : Cut source cursor.pos stop cursor.rest)
    (failed : (readDelimited opening closing inside cursor).map make = .error failure) : failure.LiesIn source := by
  have failed := eq_error_of_map failed
  unfold readDelimited at failed
  split at failed
  · cases failed
  · cases failed
    exact Cursor.liesIn_unterminated window inside

theorem liesIn_readLexeme (window : Cut source cursor.pos stop cursor.rest)
    (failed : readLexeme options cursor = .error failure) : failure.LiesIn source := by
  unfold readLexeme at failed
  dsimp only at failed
  split at failed
  · cases failed
  next markup =>
  split at failed
  · exact liesIn_map_readDelimited window failed
  split at failed
  · exact liesIn_map_readDelimited window failed
  split at failed
  · exact liesIn_map_readDelimited window failed
  split at failed
  · exact liesIn_map_readDelimited window failed
  split at failed
  · cases failed
  split at failed
  · next starts => exact liesIn_readEndTag starts window (eq_error_of_map failed)
  · exact liesIn_readStartTag (isPrefixOf_of_atMarkup (by simpa using markup)) window (eq_error_of_map failed)

/-! ### Content -/

/-- A lexeme that cannot be followed fails as a whole. -/
theorem OpenElements.liesIn_follow {opened : OpenElements} {lexeme : Lexeme} {taken : List Char} (some : taken ≠ [])
    (covers : Cut source lexeme.span.start lexeme.span.stop taken) (failed : opened.follow lexeme = .error failure) :
    failure.LiesIn source := by
  cases lexeme with
  | text | cdata | doctype | directive | comment | startTag => cases failed
  | endTag tag =>
    unfold follow endTag at failed
    dsimp only at failed
    split at failed
    · cases failed
      exact ⟨taken, some, covers⟩
    · split at failed
      · cases failed
      · cases failed
        exact ⟨taken, some, covers⟩
  | componentEnd span =>
    unfold follow componentEnd at failed
    dsimp only at failed
    split at failed
    · cases failed
      exact ⟨taken, some, covers⟩
    · cases failed

theorem liesIn_readElement {opened : OpenElements} {tag : StartTag} (window : Cut source cursor.pos stop cursor.rest)
    (failed : readElement opened tag cursor = .error failure) : failure.LiesIn source := by
  unfold readElement at failed
  split at failed
  · unfold readRawContent at failed
    dsimp only at failed
    have raw : cursor.Reaches (cursor.skip _ _) :=
      Cursor.reaches_skip (readRaw_append tag.name.name.toList cursor.rest).symm
    split at failed
    · cases failed
    · next nonempty =>
      exact liesIn_readEndTag (atRawEnd_readRaw nonempty) (raw.cut_rest window) (eq_error_of_map failed)
  · cases failed

/-- A failure lies in the window that is read. -/
theorem liesIn_readContent {opened : OpenElements} (window : Cut source cursor.pos stop cursor.rest)
    (failed : readContent options opened cursor = .error failure) : failure.LiesIn source := by
  fun_induction readContent options opened cursor with
  | case1 => cases failed
  | case2 opened cursor nonempty found lexed =>
    cases failed
    exact liesIn_readLexeme window lexed
  | case3 opened cursor nonempty tag next lexed found element =>
    cases failed
    obtain ⟨_, _, _, _, rest⟩ := window_of_readLexeme nonempty window lexed
    exact liesIn_readElement rest element
  | case4 opened cursor nonempty tag next lexed inner later element ih =>
    obtain ⟨_, _, _, _, rest⟩ := window_of_readLexeme nonempty window lexed
    exact ih ((reaches_readElement element).cut_rest rest) failed
  | case5 opened cursor nonempty value span next lexed condition before body found content ihInside =>
    rename_i ih
    obtain ⟨_, _, _, _, rest⟩ := window_of_readLexeme nonempty window lexed
    exact ih rest failed
  | case6 opened cursor nonempty value span next lexed plain ih =>
    obtain ⟨_, _, _, _, rest⟩ := window_of_readLexeme nonempty window lexed
    exact ih rest failed
  | case7 opened cursor nonempty lexeme next noElement noComment lexed found followed =>
    cases failed
    obtain ⟨taken, some_taken, readAs, _, _⟩ := window_of_readLexeme nonempty window lexed
    exact OpenElements.liesIn_follow some_taken (readAs.cut window) followed
  | case8 opened cursor nonempty lexeme next noElement noComment lexed inner followed ih =>
    obtain ⟨_, _, _, _, rest⟩ := window_of_readLexeme nonempty window lexed
    exact ih rest failed

/-! ### Sources -/

theorem liesIn_readSource (failed : readSource options source = .error failure) : failure.LiesIn source := by
  unfold readSource at failed
  dsimp only [bind, Except.bind] at failed
  split at failed
  · next block isBlock =>
    split at failed
    · next found =>
      cases failed
      have isBlock : FrontMatter.parse? source = some block := by
        split at isBlock
        · exact isBlock
        · cases isBlock
      obtain ⟨-, rest, same⟩ := append_of_parse? isBlock
      have whole : Cut source 0 (byteLength source) (block.raw.toList ++ rest) := same ▸ Cut.whole source
      have window := whole.of_append.2
      have dropped : source.drop block.raw.toList.length = rest := by rw [same, List.drop_left]
      rw [Nat.zero_add] at window
      rw [dropped] at found
      exact liesIn_readContent window found
    · cases failed
  · split at failed
    · next found =>
      cases failed
      exact liesIn_readContent (Cut.whole source) found
    · cases failed

/-- The error of a source that is not too large is placed where its failure lies. -/
theorem liesIn_of_parse {source : String} {error : ParseError} (fits : byteLength source.toList ≤ maxSourceBytes)
    (failed : parse source options = .error error) :
    error.failure.LiesIn source.toList ∧
      error = .place source.toList (.build source.toList) error.failure := by
  unfold parse at failed
  dsimp only at failed
  rw [if_neg (Nat.not_lt_of_le fits)] at failed
  cases found : readSource options source.toList with
  | ok content => rw [found] at failed; cases failed
  | error failure =>
    rw [found] at failed
    cases failed
    exact ⟨liesIn_readSource found, rfl⟩

end MarkupFormat.Markup
