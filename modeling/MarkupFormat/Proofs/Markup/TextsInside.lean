import MarkupFormat.Proofs.Markup.Declaration
import MarkupFormat.Proofs.Markup.TextsApart
import MarkupFormat.Proofs.Text.Blocks

/-!
# Texts inside of elements

A reader takes a text inside of an element up to the next markup, or up to the end tag if the content of the element
is raw. Every text that is read inside of an element is what the reader took there (`readsTexts_of_readSource`). So
a reader takes it as well where something else comes behind it that begins with a bracket and makes the reader stop
(`Element.Reads.again`).
-/

namespace MarkupFormat.Markup

open Text (Apart scan)

variable {options : ParseOptions} {opened after : OpenElements} {cursor next : Cursor}

/-- The text that is taken inside of an element, and what is left. -/
def Element.readText (options : ParseOptions) (element : Element) (cs : List Char) : List Char × List Char :=
  if element.hasRawContent then readRaw element.name.toList cs else scan (atMarkup options) cs

/-- A text is taken inside of an element where something comes behind it. -/
def Element.Reads (options : ParseOptions) (element : Element) (text : List Char) : Prop :=
  ∃ rest, element.readText options (text ++ rest) = (text, rest)

/-- The texts inside of an element are taken there. -/
def ReadsTexts (options : ParseOptions) (node : NodeKind) (children : List NodeKind) : Prop :=
  ∀ element value, node = .element element → .text value ∈ children → element.Reads options value.toList

theorem readsTexts_leaf (kind : NodeKind) (span : Span) :
    (Fragment.leaf kind span).Follows NodeInfo.kind (ReadsTexts options) :=
  Fragment.follows_leaf.mpr fun _ _ _ member => absurd member List.not_mem_nil

/-! ### Open elements -/

/-- The texts inside of an open element are taken there, and those further inside as well. -/
structure OpenElement.TextsRead (options : ParseOptions) (inner : OpenElement) : Prop where
  below : ∀ child ∈ inner.children, child.Follows NodeInfo.kind (ReadsTexts options)
  texts : ∀ child ∈ inner.children, ∀ value, child.kind = .text value → inner.element.Reads options value.toList

namespace OpenElements

structure TextsRead (options : ParseOptions) (opened : OpenElements) : Prop where
  nodes : ∀ node ∈ opened.nodes, node.Follows NodeInfo.kind (ReadsTexts options)
  stack : ∀ inner ∈ opened.stack, inner.TextsRead options

/-- No open element has raw content. -/
def Parsable (opened : OpenElements) : Prop :=
  ∀ inner ∈ opened.stack, inner.element.hasRawContent = false

theorem textsRead_empty : TextsRead options {} :=
  ⟨List.forall_mem_nil _, List.forall_mem_nil _⟩

theorem parsable_empty : Parsable {} :=
  List.forall_mem_nil _

theorem textsRead_add {node : Fragment} (read : opened.TextsRead options)
    (follows : node.Follows NodeInfo.kind (ReadsTexts options))
    (fits : ∀ inner ∈ opened.stack.head?, ∀ value, node.kind = .text value →
      inner.element.Reads options value.toList) : (opened.add node).TextsRead options := by
  unfold add
  split
  · exact ⟨List.forall_mem_cons.mpr ⟨follows, read.nodes⟩, read.stack⟩
  · next innermost outer same =>
    have stack := read.stack
    rw [same] at stack fits
    obtain ⟨here, others⟩ := List.forall_mem_cons.mp stack
    refine ⟨read.nodes, List.forall_mem_cons.mpr ⟨⟨?_, ?_⟩, others⟩⟩
    · exact List.forall_mem_cons.mpr ⟨follows, here.below⟩
    · exact List.forall_mem_cons.mpr ⟨fits innermost rfl, here.texts⟩

theorem textsRead_add_other {node : Fragment} (read : opened.TextsRead options)
    (follows : node.Follows NodeInfo.kind (ReadsTexts options)) (noText : node.kind.isText = false) :
    (opened.add node).TextsRead options := by
  refine textsRead_add read follows fun _ _ value isText => ?_
  rw [isText] at noText
  cases noText

theorem parsable_add (parsable : opened.Parsable) (node : Fragment) : (opened.add node).Parsable := by
  unfold add
  split
  · exact parsable
  · next innermost outer same =>
    unfold Parsable at parsable
    rw [same] at parsable
    exact List.forall_mem_cons.mpr (List.forall_mem_cons.mp parsable)

theorem textsRead_close (read : opened.TextsRead options) (endSpan : Option Span) :
    (opened.close endSpan).TextsRead options := by
  unfold close
  split
  · exact read
  · next innermost outer same =>
    have stack := read.stack
    rw [same] at stack
    obtain ⟨here, others⟩ := List.forall_mem_cons.mp stack
    refine textsRead_add_other ⟨read.nodes, others⟩ ?_ rfl
    refine Fragment.follows_node.mpr ⟨?_, fun child member => here.below child (List.mem_reverse.mp member)⟩
    rintro _ value ⟨⟩ isText
    obtain ⟨child, member, kind⟩ := List.mem_map.mp isText
    exact here.texts child (List.mem_reverse.mp member) value kind

theorem tail_stack_add (opened : OpenElements) (node : Fragment) : (opened.add node).stack.tail = opened.stack.tail := by
  unfold add
  split <;> simp_all

/-- The innermost element may have raw content once it is ended. -/
theorem parsable_close (parsable : ∀ inner ∈ opened.stack.tail, inner.element.hasRawContent = false)
    (endSpan : Option Span) : (opened.close endSpan).Parsable := by
  unfold close
  split
  · next none =>
    unfold Parsable
    rw [none]
    exact List.forall_mem_nil _
  · next innermost outer same =>
    rw [same] at parsable
    exact @parsable_add { opened with stack := outer } parsable _

theorem textsRead_finish (read : opened.TextsRead options) :
    ∀ node ∈ opened.finish, node.Follows NodeInfo.kind (ReadsTexts options) := by
  have closed := closeAll_keeps (motive := TextsRead options) read fun read => textsRead_close read none
  exact fun node member => closed.nodes node (List.mem_reverse.mp member)

/-- What is read goes on with texts that are markup in nothing raw. -/
structure Parsing (options : ParseOptions) (opened : OpenElements) : Prop extends TextsRead options opened where
  parsable : opened.Parsable

theorem parsing_close (parsing : opened.Parsing options) (endSpan : Option Span) :
    (opened.close endSpan).Parsing options :=
  ⟨textsRead_close parsing.toTextsRead endSpan,
    parsable_close (fun inner member => parsing.parsable inner (List.mem_of_mem_tail member)) endSpan⟩

theorem parsing_closeNamed? {name : String} {ns : Option String} {endSpan : Span} (parsing : opened.Parsing options)
    (closed : opened.closeNamed? name ns endSpan = some after) : after.Parsing options :=
  closeNamed?_keeps (motive := Parsing options) parsing (fun parsing => parsing_close parsing none)
    (fun parsing => parsing_close parsing _) closed

end OpenElements

open OpenElements (Parsing TextsRead parsable_add parsing_close parsing_closeNamed? textsRead_add textsRead_add_other
  textsRead_close)

/-! ### Content -/

/-- A text that is read in nothing raw is taken there. -/
theorem parsing_add_text {value : List Char} {span : Span} (parsing : opened.Parsing options)
    (lexed : readLexeme options cursor = .ok (.text value span, next)) :
    (opened.add (.leaf (.text (String.ofList value)) span)).Parsing options := by
  refine ⟨textsRead_add parsing.toTextsRead (readsTexts_leaf _ _) ?_, parsable_add parsing.parsable _⟩
  rintro inner innermost _ ⟨⟩
  have member := List.mem_of_mem_head? innermost
  obtain ⟨scanned, -⟩ := readLexeme_text lexed
  have whole := Text.scan_append (atMarkup options) cursor.rest
  rw [scanned] at whole
  refine ⟨next.rest, ?_⟩
  unfold Element.readText
  rw [parsing.parsable inner member, if_neg Bool.false_ne_true, String.toList_ofList, whole, scanned]

theorem parsing_add_leaf {kind : NodeKind} {span : Span} (parsing : opened.Parsing options)
    (noText : kind.isText = false) : (opened.add (.leaf kind span)).Parsing options :=
  ⟨textsRead_add_other parsing.toTextsRead (readsTexts_leaf _ _) noText, parsable_add parsing.parsable _⟩

theorem parsing_follow {lexeme : Lexeme} (parsing : opened.Parsing options)
    (lexed : readLexeme options cursor = .ok (lexeme, next)) (followed : opened.follow lexeme = .ok after) :
    after.Parsing options := by
  cases lexeme with
  | text value span =>
    cases followed
    exact parsing_add_text parsing lexed
  | cdata | doctype | directive =>
    cases followed
    exact parsing_add_leaf parsing rfl
  | endTag tag =>
    change opened.endTag tag = .ok after at followed
    unfold OpenElements.endTag at followed
    split at followed
    · cases followed
    · split at followed
      · next closed =>
        cases followed
        exact parsing_closeNamed? parsing closed
      · cases followed
  | componentEnd span =>
    change opened.componentEnd span = .ok after at followed
    unfold OpenElements.componentEnd at followed
    split at followed
    · cases followed
    · cases followed
      exact parsing_close parsing _
  | startTag | comment =>
    cases followed
    exact parsing

/-- A start tag opens an element with raw content, or leaves everything open to markup. -/
theorem exists_startTag (parsing : opened.Parsing options) (tag : StartTag) :
    ((opened.startTag tag).2 = false ∧ (opened.startTag tag).1.Parsing options) ∨
      ∃ (inner : OpenElement) (started : OpenElements), opened.startTag tag = (started, true) ∧
        started.TextsRead options ∧ started.stack.head? = some inner ∧ inner.element.name = tag.name.name ∧
        inner.element.hasRawContent = true ∧ ∀ outer ∈ started.stack.tail, outer.element.hasRawContent = false := by
  have ended := OpenElements.endedBy_keeps (motive := Parsing options) parsing (parsing_close parsing none) tag.name.name
  rw [OpenElements.startTag_eq_startElement]
  generalize opened.endedBy tag.name.name = outer at ended
  generalize same : tag.elementIn opened.innermost? = element
  have named : element.name = tag.name.name := same ▸ rfl
  have fresh : OpenElement.TextsRead options ⟨element, tag.span, []⟩ := ⟨List.forall_mem_nil _, List.forall_mem_nil _⟩
  have read := List.forall_mem_cons.mpr ⟨fresh, ended.stack⟩
  unfold OpenElements.startElement
  split
  · refine .inl ⟨rfl, textsRead_add_other ended.toTextsRead ?_ rfl, parsable_add ended.parsable _⟩
    exact Fragment.follows_node.mpr ⟨fun _ _ _ member => absurd member List.not_mem_nil, List.forall_mem_nil _⟩
  · cases raw : element.hasRawContent with
    | true => exact .inr ⟨_, _, rfl, ⟨ended.nodes, read⟩, rfl, named, raw, ended.parsable⟩
    | false => exact .inl ⟨rfl, ⟨ended.nodes, read⟩, List.forall_mem_cons.mpr ⟨raw, ended.parsable⟩⟩

/-- Raw content is a text that is taken in its element. If it is not ended, nothing is left to read. -/
theorem textsRead_readElement {tag : StartTag} (parsing : opened.Parsing options)
    (found : readElement opened tag cursor = .ok (after, next)) :
    after.TextsRead options ∧ (next.rest ≠ [] → after.Parsable) := by
  unfold readElement at found
  obtain ⟨noRaw, started⟩ | ⟨inner, started, same, read, innermost, named, raw, outer⟩ := exists_startTag parsing tag
  · split at found
    · next same =>
      rw [same] at noRaw
      cases noRaw
    · next same =>
      rw [same] at started
      cases found
      exact ⟨started.toTextsRead, fun _ => started.parsable⟩
  · rw [same] at found
    unfold readRawContent at found
    dsimp only at found
    have whole := readRaw_append tag.name.name.toList cursor.rest
    generalize scanned : readRaw tag.name.name.toList cursor.rest = taken at found whole
    have reads : inner.element.Reads options taken.1 := by
      refine ⟨taken.2, ?_⟩
      unfold Element.readText
      rw [if_pos raw, named, whole, scanned]
    have added (span : Span) : OpenElements.TextsRead options (if taken.1 = [] then started
        else started.add (.leaf (.text (String.ofList taken.1)) span)) := by
      split
      · exact read
      · refine textsRead_add read (readsTexts_leaf _ _) ?_
        rintro other isInnermost _ ⟨⟩
        obtain rfl := Option.some.inj (innermost.symm.trans isInnermost)
        rwa [String.toList_ofList]
    have around (span : Span) : (if taken.1 = [] then started
        else started.add (.leaf (.text (String.ofList taken.1)) span)).stack.tail = started.stack.tail := by
      split
      · rfl
      · exact OpenElements.tail_stack_add _ _
    split at found
    · next empty =>
      cases found
      exact ⟨added _, fun nonempty => absurd empty nonempty⟩
    · obtain ⟨⟨tag, last⟩, -, same⟩ := exists_ok_of_map found
      cases same
      exact ⟨textsRead_close (added _) _, fun _ => OpenElements.parsable_close (by rwa [around]) _⟩

/-- Whatever was read of its section, texts are taken in a conditional comment. -/
theorem readsTexts_conditionalNode {span : Span} {condition : String} {before body : List Char}
    {content : Except Failure OpenElements} (read : ∀ opened, content = .ok opened → opened.TextsRead options) :
    (conditionalNode span condition before body content).Follows NodeInfo.kind (ReadsTexts options) := by
  unfold conditionalNode
  cases content with
  | ok opened =>
    exact Fragment.follows_node.mpr ⟨fun _ _ same => NodeKind.noConfusion same, OpenElements.textsRead_finish (read opened rfl)⟩
  | error failure =>
    refine Fragment.follows_node.mpr ⟨fun _ _ same => NodeKind.noConfusion same, fun child member => ?_⟩
    rw [List.mem_singleton.mp member]
    exact readsTexts_leaf _ _

theorem textsRead_readContent (read : opened.TextsRead options) (parsable : cursor.rest ≠ [] → opened.Parsable)
    (found : readContent options opened cursor = .ok after) : after.TextsRead options := by
  fun_induction readContent options opened cursor generalizing after with
  | case1 opened cursor empty =>
    cases found
    exact read
  | case2 => cases found
  | case3 => cases found
  | case4 opened cursor nonempty tag next lexed inner later element ih =>
    obtain ⟨read, parsable⟩ := textsRead_readElement ⟨read, parsable nonempty⟩ element
    exact ih read parsable found
  | case5 opened cursor nonempty value span next lexed condition before body classified content ihInside =>
    rename_i ih
    have inside : (conditionalNode span condition before body content).Follows NodeInfo.kind (ReadsTexts options) :=
      readsTexts_conditionalNode fun _ ok =>
        ihInside OpenElements.textsRead_empty (fun _ => OpenElements.parsable_empty) ok
    exact ih (textsRead_add_other read inside (isText_conditionalNode _ _ _ _ _))
      (fun _ => parsable_add (parsable nonempty) _) found
  | case6 opened cursor nonempty value span next lexed _ ih =>
    have comment : (commentNode span value (conditionalOf? options value)).Follows NodeInfo.kind (ReadsTexts options) ∧
        (commentNode span value (conditionalOf? options value)).kind.isText = false := by
      unfold commentNode
      split <;> exact ⟨readsTexts_leaf _ _, rfl⟩
    exact ih (textsRead_add_other read comment.1 comment.2) (fun _ => parsable_add (parsable nonempty) _) found
  | case7 => cases found
  | case8 opened cursor nonempty lexeme next noElement noComment lexed inner followed ih =>
    have parsing := parsing_follow ⟨read, parsable nonempty⟩ lexed followed
    exact ih parsing.toTextsRead (fun _ => parsing.parsable) found

/-- The texts inside of the elements of a source are what a reader takes there. -/
theorem readsTexts_of_readSource {source : List Char} {content : List Fragment}
    (read : readSource options source = .ok content) :
    ∀ node ∈ content, node.Follows NodeInfo.kind (ReadsTexts options) := by
  have inside {cursor : Cursor} {opened : OpenElements} (found : readContent options {} cursor = .ok opened) :=
    OpenElements.textsRead_finish
      (textsRead_readContent OpenElements.textsRead_empty (fun _ => OpenElements.parsable_empty) found)
  cases readsSource_of_readSource read with
  | all found => exact inside found
  | afterBlock isBlock nonempty front window found =>
    exact List.forall_mem_cons.mpr ⟨readsTexts_leaf _ _, inside found⟩

/-! ### Texts that are taken again -/

variable {element : Element} {text more : List Char}

theorem atMarkup_bracket {x : Char} (declares : x ≠ '!') (directs : x ≠ '?') (ends : x ≠ '/') (cs : List Char) :
    atMarkup options ('<' :: x :: cs) = isNameStart x := by
  unfold atMarkup
  split <;> simp_all

theorem atMarkup_slash_append (back : List Char) :
    atMarkup options ('<' :: '/' :: (back ++ '<' :: more)) = atMarkup options ('<' :: '/' :: back) := by
  have prefixed (cs : List Char) : atComponentEnd options ('<' :: '/' :: cs) =
      (options.componentEndTags && ['/', '>'].isPrefixOf cs) := rfl
  rcases back with _ | ⟨y, _ | ⟨z, back⟩⟩
  · show (isNameStart '<' || atComponentEnd options ('<' :: '/' :: '<' :: more)) = isNameStart '/'
    rw [prefixed]
    simp [List.isPrefixOf]
    decide
  · show (isNameStart y || atComponentEnd options ('<' :: '/' :: y :: '<' :: more)) =
      (isNameStart y || atComponentEnd options ['<', '/', y])
    rw [prefixed, prefixed]
    simp [List.isPrefixOf]
  · rfl

/-- Whether a text begins with markup is told before the next bracket. -/
theorem atMarkup_append (bracket : ∀ d ∈ more.head?, d = '<') (c : Char) (back : List Char) :
    atMarkup options (c :: (back ++ more)) = atMarkup options (c :: back) := by
  cases more with
  | nil => rw [List.append_nil]
  | cons d more =>
    obtain rfl := bracket d rfl
    by_cases opens : c = '<'
    · subst opens
      cases back with
      | nil => rfl
      | cons x back =>
        by_cases known : x = '!' ∨ x = '?'
        · obtain rfl | rfl := known <;> rfl
        · by_cases ends : x = '/'
          · subst ends
            exact atMarkup_slash_append back
          · rw [not_or] at known
            exact (atMarkup_bracket known.1 known.2 ends _).trans (atMarkup_bracket known.1 known.2 ends _).symm
    · exact (atMarkup_eq_false opens).trans (atMarkup_eq_false opens).symm

/-- An end tag that begins before a bracket ends its name there too. -/
theorem atRawEnd_append {name back : List Char} {c : Char} (noBracket : '<' ∉ name.map Char.toLower)
    (bracket : more.head? = some '<') (ends : atRawEnd name (c :: (back ++ more)) = true) (other : List Char) :
    atRawEnd name (c :: (back ++ other)) = true := by
  obtain ⟨more, rfl⟩ := List.head?_eq_some_iff.mp bracket
  cases back with
  | nil =>
    unfold atRawEnd at ends
    split at ends
    · next same => cases same
    · cases ends
  | cons d back =>
    rw [List.cons_append] at ends ⊢
    unfold atRawEnd at ends ⊢
    split at ends
    · next cs same =>
      cases same
      simp only [Bool.and_eq_true, beq_iff_eq] at ends ⊢
      obtain ⟨named, stops⟩ := ends
      obtain within | same | short := Nat.lt_trichotomy name.length back.length
      · rw [List.take_append_of_le_length within.le] at named ⊢
        rw [List.drop_append_of_le_length within.le] at stops ⊢
        refine ⟨named, ?_⟩
        cases rest : back.drop name.length with
        | nil => exact absurd (List.drop_eq_nil_iff.mp rest) (Nat.not_le_of_lt within)
        | cons c rest =>
          rw [rest] at stops
          exact stops
      · rw [same, List.drop_left] at stops
        cases stops
      · have member : '<' ∈ (back ++ '<' :: more).take name.length := by
          obtain ⟨count, longer⟩ := Nat.exists_eq_add_of_lt short
          rw [longer, Nat.add_assoc, List.take_length_add_append]
          exact List.mem_append_right _ List.mem_cons_self
        exact absurd (named ▸ List.mem_map_of_mem member) noBracket
    · cases ends

theorem readRaw_again {name other : List Char} (read : readRaw name (text ++ other) = (text, other))
    (noBracket : '<' ∉ name.map Char.toLower) (bracket : more.head? = some '<')
    (stops : readRaw name more = ([], more)) : readRaw name (text ++ more) = (text, more) := by
  induction text with
  | nil => exact stops
  | cons c text ih =>
    rw [List.cons_append, readRaw] at read
    split at read
    · cases congrArg Prod.fst read
    · next passes =>
      obtain ⟨taken, left⟩ := Prod.ext_iff.mp read
      have read : readRaw name (text ++ other) = (text, other) := Prod.ext (List.cons.inj taken).2 left
      rw [List.cons_append, readRaw, if_neg fun ends => passes (atRawEnd_append noBracket bracket ends other), ih read]

namespace Element

theorem readText_feed (options : ParseOptions) (element : Element) (cs : List Char) :
    element.readText options ('\n' :: cs) =
      ('\n' :: (element.readText options cs).1, (element.readText options cs).2) := by
  unfold readText
  split
  · rw [readRaw, if_neg (by exact Bool.false_ne_true)]
  · rw [Text.scan_of_none (Text.templateBlock?_of_unmarked (by decide)), atMarkup_eq_false (by decide),
      if_neg Bool.false_ne_true]

theorem reads_feed_iff : element.Reads options ('\n' :: text) ↔ element.Reads options text := by
  refine exists_congr fun rest => ?_
  rw [List.cons_append, readText_feed, Prod.mk.injEq, List.cons.injEq, Prod.ext_iff]
  simp

theorem reads_nil (options : ParseOptions) (element : Element) : element.Reads options [] := by
  refine ⟨[], ?_⟩
  unfold readText
  split
  · rfl
  · rw [List.append_nil, scan]

/-- A text is taken again where something else comes behind it that begins with a bracket and is not taken. -/
theorem Reads.again (reads : element.Reads options text) (noBracket : '<' ∉ element.name.toList.map Char.toLower)
    (bracket : more.head? = some '<') (apart : Apart more text) (stops : element.readText options more = ([], more)) :
    element.readText options (text ++ more) = (text, more) := by
  obtain ⟨other, read⟩ := reads
  unfold readText at read stops ⊢
  split
  · next raw =>
    rw [if_pos raw] at read stops
    exact readRaw_again read noBracket bracket stops
  · next parsable =>
    rw [if_neg parsable] at read stops
    have begins : ∀ d ∈ other.head?, d = '<' := by
      intro d first
      obtain ⟨tail, rfl⟩ := List.head?_eq_some_iff.mp first
      have left := Text.scan_stops (atMarkup options) (text ++ d :: tail)
      rw [read] at left
      obtain none | markup := left
      · cases none
      · by_contra noMarkup
        rw [atMarkup_eq_false noMarkup] at markup
        cases markup
    refine Text.scan_again read apart (fun c back => ?_) stops
    rw [List.cons_append, List.cons_append, atMarkup_append begins,
      atMarkup_append fun d first => Option.some.inj (first.symm.trans bracket)]

/-- Where the content is no raw text, a tag that begins with a name is not taken. -/
theorem readText_endTag (parsable : element.hasRawContent = false) {c : Char} (named : isNameStart c = true)
    (cs : List Char) : element.readText options ('<' :: '/' :: c :: cs) = ([], '<' :: '/' :: c :: cs) := by
  unfold readText
  rw [parsable, if_neg Bool.false_ne_true]
  refine Text.scan_of_stops (fun d first => by cases first; decide) ?_
  show (isNameStart c || _) = true
  rw [named, Bool.true_or]

end Element

end MarkupFormat.Markup
