import MarkupFormat.Proofs.Markup.Attributes
import MarkupFormat.Proofs.Text.Characters

/-!
# Marks of nodes

A section under a condition, what begins or ends such a section, a comment and an instruction stand between marks that
do not depend on what they hold. A tag that ends an element ends with a bracket, and with a slash before it if it is
the start tag of the element as well. Reading keeps this for every node (`marked_of_readSource`).
-/

namespace MarkupFormat.Markup

open Text (Cut byteLength)

variable {source : List Char} {cursor next : Cursor} {stop pos : Nat}

/-! ### What is written -/

/-- How a node is written, as far as its kind alone tells. -/
def NodeKind.WrittenAs (kind : NodeKind) (text : List Char) : Prop :=
  match kind with
  | .conditional condition _ =>
    ']' ∉ condition.toList ∧ ∃ raw inner, text = "<!--[if".toList ++ raw ++ (']' :: inner ++ "[endif]-->".toList)
  | .conditionalStart condition =>
    ']' ∉ condition.toList ∧ ∃ raw, text = "<!--[if".toList ++ raw ++ "]><!-->".toList
  | .conditionalEnd => ∃ blank, text = "<!--<!".toList ++ blank ++ "[endif]-->".toList
  | .comment value => text = "<!--".toList ++ value.toList ++ "-->".toList
  | .directive _ => ∃ inner, text = "<?".toList ++ inner ++ ">".toList
  | .interpolation => ∃ inner, text = ['{', '{'] ++ inner ++ ['}', '}']
  | _ => True

/-- The tag that ends an element comes after its start tag and ends with a bracket, or it is the start tag and ends
with a slash and a bracket. -/
def NodeInfo.Ends (source : List Char) (info : NodeInfo) : Prop :=
  ∀ start stop, info.startSpan = some start → info.endSpan = some stop →
    ∃ text, Cut source stop.start stop.stop text ∧
      (stop = start ∧ ['/', '>'] <:+ text ∨ start.stop ≤ stop.start ∧ ['>'] <:+ text)

/-- A node is written as its kind tells, or ends with a tag. -/
structure NodeInfo.Marked (source : List Char) (info : NodeInfo) : Prop where
  written : info.kind.isElement = false →
    ∃ text, Cut source info.span.start info.span.stop text ∧ info.kind.WrittenAs text
  ends : info.kind.isElement = true → info.Ends source

/-- All nodes in a tree are marked. -/
abbrev Fragment.AllMarked (source : List Char) (fragment : Fragment) : Prop :=
  fragment.Follows id fun info _ => info.Marked source

theorem allMarked_leaf {kind : NodeKind} {span : Span} {text : List Char} (other : kind.isElement = false)
    (cut : Cut source span.start span.stop text) (written : kind.WrittenAs text) :
    (Fragment.leaf kind span).AllMarked source := by
  refine Fragment.follows_leaf.mpr ⟨fun _ => ⟨text, cut, written⟩, fun element => ?_⟩
  have element : kind.isElement = true := element
  rw [other] at element
  cases element

/-! ### Tags -/

theorem takes_readAttributes {inside : Construct} {last : Cursor} {attributes : List Attribute} {selfClosing : Bool}
    (read : readAttributes inside cursor = .ok (attributes, selfClosing, last)) :
    ∃ taken, cursor.Takes last taken ∧ (selfClosing = true → ['/', '>'] <:+ taken) := by
  fun_induction readAttributes inside cursor generalizing attributes selfClosing last with
  | case1 cursor =>
    rename_i same
    cases read
    obtain ⟨blank, spaces⟩ := cursor.reaches_skipSpace
    exact ⟨_, spaces.trans (Cursor.takes_skip same), fun closes => absurd closes Bool.false_ne_true⟩
  | case2 cursor =>
    rename_i same
    cases read
    obtain ⟨blank, spaces⟩ := cursor.reaches_skipSpace
    exact ⟨_, spaces.trans (Cursor.takes_skip same), fun _ => List.suffix_append _ _⟩
  | case3 cursor =>
    rename_i same ih
    obtain ⟨taken, takes, ends⟩ := ih read
    obtain ⟨front, reaches⟩ := cursor.reaches_skipSpace.trans (Cursor.reaches_skip_char same)
    exact ⟨_, reaches.trans takes, fun closes => (ends closes).trans (List.suffix_append _ _)⟩
  | case4 => cases read
  | case5 cursor =>
    rename_i found _ _ _ ih
    cases read
    obtain ⟨taken, takes, ends⟩ := ih found
    obtain ⟨front, reaches⟩ := cursor.reaches_skipSpace.trans (reaches_readAttribute _)
    exact ⟨_, reaches.trans takes, fun closes => (ends closes).trans (List.suffix_append _ _)⟩
  | case6 => cases read

theorem takes_readStartTag {tag : StartTag} (opening : ['<'].isPrefixOf cursor.rest)
    (read : readStartTag cursor = .ok (tag, next)) :
    ∃ taken, cursor.Takes next taken ∧ (tag.selfClosing = true → ['/', '>'] <:+ taken) := by
  unfold readStartTag at read
  dsimp only [bind, Except.bind] at read
  split at read
  · cases read
  · next found =>
    cases read
    obtain ⟨taken, takes, ends⟩ := takes_readAttributes found
    obtain ⟨front, named⟩ :=
      (Cursor.reaches_skip (Text.isPrefixOf_append_drop opening)).trans (reaches_readTagName _)
    exact ⟨_, named.trans takes, fun closes => (ends closes).trans (List.suffix_append _ _)⟩

theorem takes_readEndTag {tag : EndTag} (opening : ['<', '/'].isPrefixOf cursor.rest)
    (read : readEndTag cursor = .ok (tag, next)) :
    tag.span = cursor.spanTo next ∧ ∃ taken, cursor.Takes next taken ∧ ['>'] <:+ taken := by
  unfold readEndTag at read
  dsimp only at read
  split at read
  · next same =>
    cases read
    obtain ⟨front, named⟩ :=
      (Cursor.reaches_skip (Text.isPrefixOf_append_drop opening)).trans (reaches_readTagName _)
    obtain ⟨blank, spaces⟩ := Cursor.reaches_skipSpace _
    exact ⟨rfl, _, (named.trans spaces).trans (Cursor.takes_skip same), List.suffix_append _ _⟩
  · cases read

/-- What a lexeme took, as far as its end matters. -/
def Lexeme.EndsAs (lexeme : Lexeme) (taken : List Char) : Prop :=
  match lexeme with
  | .directive .. => ∃ inner, taken = "<?".toList ++ inner ++ ">".toList
  | .startTag tag => tag.selfClosing = true → ['/', '>'] <:+ taken
  | .endTag _ | .componentEnd _ => ['>'] <:+ taken
  | _ => True

theorem endsAs_of_readLexeme {options : ParseOptions} {lexeme : Lexeme}
    (read : readLexeme options cursor = .ok (lexeme, next)) :
    ∃ taken, cursor.Takes next taken ∧ lexeme.EndsAs taken := by
  unfold readLexeme at read
  dsimp only at read
  split at read
  · cases read
    exact ⟨_, Cursor.takes_skip (Text.scan_append _ _).symm, trivial⟩
  next markup =>
  split at read
  · next starts =>
    obtain ⟨value, after, same, takes⟩ := takes_of_map_readDelimited starts read
    cases same
    exact ⟨_, takes, trivial⟩
  split at read
  · next starts =>
    obtain ⟨value, after, same, takes⟩ := takes_of_map_readDelimited starts read
    cases same
    exact ⟨_, takes, trivial⟩
  split at read
  · next starts =>
    obtain ⟨value, after, same, takes⟩ := takes_of_map_readDelimited starts read
    cases same
    exact ⟨_, takes, trivial⟩
  split at read
  · next starts =>
    obtain ⟨value, after, same, takes⟩ := takes_of_map_readDelimited starts read
    cases same
    exact ⟨_, takes, value, rfl⟩
  split at read
  · next component =>
    cases read
    simp only [atComponentEnd, Bool.and_eq_true] at component
    exact ⟨_, Cursor.takes_skip (Text.isPrefixOf_append_drop component.2), "<//".toList, rfl⟩
  split at read
  · next starts =>
    obtain ⟨⟨tag, after⟩, found, same⟩ := exists_ok_of_map read
    cases same
    exact (takes_readEndTag starts found).2
  · obtain ⟨⟨tag, after⟩, found, same⟩ := exists_ok_of_map read
    cases same
    exact takes_readStartTag (isPrefixOf_of_atMarkup (by simpa using markup)) found

/-! ### Comments -/

theorem append_of_isEndMark {cs : List Char} (isEnd : ConditionalComment.isEndMark cs = true) :
    ∃ blank, cs = "<!".toList ++ blank ++ "[endif]".toList := by
  unfold ConditionalComment.isEndMark at isEnd
  split at isEnd
  · next rest dropped =>
    refine ⟨rest.takeWhile Text.isWhiteSpace, ?_⟩
    rw [append_of_dropPrefix? dropped, List.append_assoc, ← eq_of_beq isEnd, List.takeWhile_append_dropWhile]
  · cases isEnd

theorem not_mem_normalizeCondition {raw : List Char} (clean : ']' ∉ raw) :
    ']' ∉ (ConditionalComment.normalizeCondition raw).toList := by
  have within : Text.Within (· ≠ ']') raw := fun c member => ne_of_mem_of_not_mem member clean
  intro member
  exact ConditionalComment.within_normalizeCondition (p := (· ≠ ']')) (by decide) within ']' member rfl

theorem writtenAs_conditional {value before body : List Char} {condition : String} (complete : Bool)
    (classified : ConditionalComment.classify? value = some (.block condition before body)) :
    (NodeKind.conditional condition complete).WrittenAs ("<!--".toList ++ value ++ "-->".toList) := by
  obtain ⟨raw, closing, clean, rfl, rfl, isEnd, rfl⟩ := append_of_classify? classified
  obtain ⟨blank, rfl⟩ := append_of_isEndMark isEnd
  exact ⟨not_mem_normalizeCondition clean, raw, '>' :: (body ++ ("<!".toList ++ blank)), by simp⟩

theorem writtenAs_conditionalStart {value : List Char} {condition : String}
    (classified : ConditionalComment.classify? value = some (.start condition)) :
    (NodeKind.conditionalStart condition).WrittenAs ("<!--".toList ++ value ++ "-->".toList) := by
  unfold ConditionalComment.classify? at classified
  split at classified
  · cases classified
  simp only [Option.bind_eq_bind, Option.bind_eq_some_iff] at classified
  obtain ⟨⟨raw, rest⟩, opened, inner, closed, found⟩ := classified
  obtain ⟨clean, rfl⟩ := append_of_condition? opened
  dsimp only at found closed
  split at found
  · cases found
  · split at found
    · next whole =>
      cases found
      rw [append_of_dropPrefix? closed, whole]
      exact ⟨not_mem_normalizeCondition clean, raw, by simp⟩
    · cases found

theorem writtenAs_conditionalEnd {value : List Char} (classified : ConditionalComment.classify? value = some .finish) :
    NodeKind.conditionalEnd.WrittenAs ("<!--".toList ++ value ++ "-->".toList) := by
  unfold ConditionalComment.classify? at classified
  split at classified
  · next isEnd =>
    obtain ⟨blank, rfl⟩ := append_of_isEndMark isEnd
    exact ⟨blank, by simp⟩
  · simp only [Option.bind_eq_bind, Option.bind_eq_some_iff] at classified
    obtain ⟨_, -, _, -, found⟩ := classified
    split at found
    · cases found
    · split at found <;> cases found

theorem allMarked_commentNode {options : ParseOptions} {span : Span} {value : List Char}
    (cut : Cut source span.start span.stop ("<!--".toList ++ value ++ "-->".toList)) :
    (commentNode span value (conditionalOf? options value)).AllMarked source := by
  unfold commentNode
  split
  · next found => exact allMarked_leaf rfl cut (writtenAs_conditionalStart (classify?_of_conditionalOf? found))
  · next found => exact allMarked_leaf rfl cut (writtenAs_conditionalEnd (classify?_of_conditionalOf? found))
  · exact allMarked_leaf rfl cut (congrArg ("<!--".toList ++ · ++ "-->".toList) String.toList_ofList.symm)

/-! ### Open elements -/

namespace OpenElements

/-- What was read up to an offset is marked, and the start tags of open elements end before it. -/
structure Marked (source : List Char) (opened : OpenElements) (pos : Nat) : Prop where
  nodes : ∀ node ∈ opened.nodes, node.AllMarked source
  stack : ∀ inner ∈ opened.stack, inner.startSpan.stop ≤ pos ∧ ∀ child ∈ inner.children, child.AllMarked source

variable {opened after : OpenElements}

theorem marked_empty (source : List Char) (pos : Nat) : Marked source {} pos :=
  ⟨fun _ member => absurd member List.not_mem_nil, fun _ member => absurd member List.not_mem_nil⟩

theorem Marked.mono {later : Nat} (marked : opened.Marked source pos) (before : pos ≤ later) :
    opened.Marked source later := by
  refine ⟨marked.nodes, fun inner member => ?_⟩
  obtain ⟨starts, below⟩ := marked.stack inner member
  exact ⟨Nat.le_trans starts before, below⟩

theorem marked_add {node : Fragment} (marked : opened.Marked source pos) (here : node.AllMarked source) :
    (opened.add node).Marked source pos := by
  unfold add
  split
  · exact ⟨List.forall_mem_cons.mpr ⟨here, marked.nodes⟩, marked.stack⟩
  · next innermost outer same =>
    have stack := marked.stack
    rw [same] at stack
    obtain ⟨⟨starts, below⟩, others⟩ := List.forall_mem_cons.mp stack
    exact ⟨marked.nodes, List.forall_mem_cons.mpr ⟨⟨starts, List.forall_mem_cons.mpr ⟨here, below⟩⟩, others⟩⟩

/-- What is written between an offset and the end of a span ends with a bracket. -/
def EndsAfter (source : List Char) (pos : Nat) (endSpan : Span) : Prop :=
  pos ≤ endSpan.start ∧ ∃ text, Cut source endSpan.start endSpan.stop text ∧ ['>'] <:+ text

theorem marked_close {endSpan : Option Span} (marked : opened.Marked source pos)
    (ends : ∀ span ∈ endSpan, EndsAfter source pos span) : (opened.close endSpan).Marked source pos := by
  unfold close
  split
  · exact marked
  · next innermost outer same =>
    have stack := marked.stack
    rw [same] at stack
    obtain ⟨⟨starts, below⟩, others⟩ := List.forall_mem_cons.mp stack
    have around : Marked source { opened with stack := outer } pos := ⟨marked.nodes, others⟩
    refine marked_add around (Fragment.follows_node.mpr ⟨⟨nofun, fun _ => ?_⟩, fun child member => ?_⟩)
    · rintro _ stop ⟨⟩ ended
      obtain ⟨later, text, cut, bracket⟩ := ends stop ended
      exact ⟨text, cut, .inr ⟨Nat.le_trans starts later, bracket⟩⟩
    · exact below child (List.mem_reverse.mp member)

theorem marked_close_none (marked : opened.Marked source pos) : (opened.close none).Marked source pos :=
  marked_close marked nofun

theorem allMarked_finish (marked : opened.Marked source pos) : ∀ node ∈ opened.finish, node.AllMarked source := by
  have closed := closeAll_keeps (motive := (·.Marked source pos)) marked marked_close_none
  exact fun node member => closed.nodes node (List.mem_reverse.mp member)

theorem marked_closeNamed? {name : String} {ns : Option String} {endSpan : Span} (marked : opened.Marked source pos)
    (ends : EndsAfter source pos endSpan) (closed : opened.closeNamed? name ns endSpan = some after) :
    after.Marked source pos :=
  closeNamed?_keeps (motive := (·.Marked source pos)) marked marked_close_none
    (fun marked => marked_close marked fun _ same => Option.some.inj same ▸ ends) closed

/-- An element that is opened starts with its tag, and one that is ended at once ends with it. -/
theorem marked_startTag {tag : StartTag} {text : List Char} (marked : opened.Marked source tag.span.start)
    (cut : Cut source tag.span.start tag.span.stop text) (ends : tag.selfClosing = true → ['/', '>'] <:+ text) :
    (opened.startTag tag).1.Marked source tag.span.stop := by
  have ended := endedBy_keeps (motive := (·.Marked source tag.span.start)) marked (marked_close_none marked)
  have ended := (ended tag.name.name).mono cut.le
  rw [startTag_eq_startElement]
  generalize opened.endedBy tag.name.name = opened at ended
  unfold startElement
  split
  · refine marked_add ended (Fragment.follows_node.mpr ⟨⟨nofun, fun _ => ?_⟩, fun _ member => ?_⟩)
    · rintro _ stop ⟨⟩ closes
      change (if tag.selfClosing = true then some tag.span else none) = some stop at closes
      split at closes
      · next closed =>
        cases closes
        exact ⟨text, cut, .inl ⟨rfl, ends closed⟩⟩
      · cases closes
    · exact absurd member List.not_mem_nil
  · exact ⟨ended.nodes, List.forall_mem_cons.mpr ⟨⟨Nat.le_refl _, nofun⟩, ended.stack⟩⟩

end OpenElements

/-! ### Content -/

variable {opened after : OpenElements}

theorem marked_addRaw {value : List Char} (marked : opened.Marked source cursor.pos)
    (raw : Cut source cursor.pos next.pos value) :
    (if value = [] then opened else opened.add (.leaf (.text (String.ofList value)) (cursor.spanTo next))).Marked
      source next.pos := by
  split
  · exact marked.mono raw.le
  · exact OpenElements.marked_add (marked.mono raw.le) (allMarked_leaf rfl raw trivial)

theorem marked_readElement {tag : StartTag} {text : List Char} (marked : opened.Marked source tag.span.start)
    (cut : Cut source tag.span.start tag.span.stop text) (ends : tag.selfClosing = true → ['/', '>'] <:+ text)
    (here : tag.span.stop = cursor.pos) (window : Cut source cursor.pos stop cursor.rest)
    (found : readElement opened tag cursor = .ok (after, next)) : after.Marked source next.pos := by
  have started := OpenElements.marked_startTag marked cut ends
  rw [here] at started
  unfold readElement at found
  split at found
  · next inner same =>
    rw [same] at started
    unfold readRawContent at found
    dsimp only at found
    have took : cursor.Takes (cursor.skip _ _) _ :=
      Cursor.takes_skip (readRaw_append tag.name.name.toList cursor.rest).symm
    obtain ⟨raw, left⟩ := took.cut window
    have added := marked_addRaw started raw
    split at found
    · cases found
      exact added
    · next nonempty =>
      obtain ⟨⟨ended, last⟩, read, same⟩ := exists_ok_of_map found
      cases same
      obtain ⟨span, taken, takes, bracket⟩ := takes_readEndTag (atRawEnd_readRaw nonempty) read
      obtain ⟨closing, -⟩ := takes.cut left
      refine (OpenElements.marked_close added fun _ same => ?_).mono closing.le
      cases same
      rw [span]
      exact ⟨Nat.le_refl _, taken, closing, bracket⟩
  · next inner same =>
    rw [same] at started
    cases found
    exact started

theorem marked_follow {lexeme : Lexeme} {taken : List Char} (marked : opened.Marked source lexeme.span.start)
    (cut : Cut source lexeme.span.start lexeme.span.stop taken) (ends : lexeme.EndsAs taken)
    (noElement : ∀ tag, lexeme ≠ .startTag tag) (noComment : ∀ value span, lexeme ≠ .comment value span)
    (followed : opened.follow lexeme = .ok after) : after.Marked source lexeme.span.stop := by
  have later := marked.mono cut.le
  cases lexeme with
  | text | cdata | doctype =>
    cases followed
    exact OpenElements.marked_add later (allMarked_leaf rfl cut trivial)
  | directive =>
    cases followed
    exact OpenElements.marked_add later (allMarked_leaf rfl cut ends)
  | endTag tag =>
    change opened.endTag tag = .ok after at followed
    unfold OpenElements.endTag at followed
    split at followed
    · cases followed
    split at followed
    · next closed =>
      cases followed
      exact (OpenElements.marked_closeNamed? marked ⟨Nat.le_refl _, taken, cut, ends⟩ closed).mono cut.le
    · cases followed
  | componentEnd span =>
    change opened.componentEnd span = .ok after at followed
    unfold OpenElements.componentEnd at followed
    split at followed
    · cases followed
    · cases followed
      refine (OpenElements.marked_close marked fun _ same => ?_).mono cut.le
      cases same
      exact ⟨Nat.le_refl _, taken, cut, ends⟩
  | startTag tag => exact absurd rfl (noElement tag)
  | comment value span => exact absurd rfl (noComment value span)

theorem allMarked_conditionalNode {span : Span} {value before body : List Char} {condition : String}
    {content : Except Failure OpenElements}
    (cut : Cut source span.start span.stop ("<!--".toList ++ value ++ "-->".toList))
    (classified : ConditionalComment.classify? value = some (.block condition before body))
    (marked : ∀ opened, content = .ok opened → opened.Marked source (sectionStart span before + byteLength body)) :
    (conditionalNode span condition before body content).AllMarked source := by
  obtain ⟨-, inside, -⟩ := window_of_classify? cut classified
  have here (complete : Bool) : (conditionalInfo span condition before body complete).Marked source :=
    ⟨fun _ => ⟨_, cut, writtenAs_conditional complete classified⟩, nofun⟩
  unfold conditionalNode
  cases content with
  | ok opened => exact Fragment.follows_node.mpr ⟨here true, OpenElements.allMarked_finish (marked opened rfl)⟩
  | error failure =>
    exact Fragment.follows_node.mpr ⟨here false, List.forall_mem_singleton.mpr (allMarked_leaf rfl inside trivial)⟩

theorem marked_readContent {options : ParseOptions} (marked : opened.Marked source cursor.pos)
    (window : Cut source cursor.pos stop cursor.rest) (found : readContent options opened cursor = .ok after) :
    after.Marked source stop := by
  fun_induction readContent options opened cursor generalizing stop after with
  | case1 opened cursor empty =>
    cases found
    exact marked.mono window.le
  | case2 => cases found
  | case3 => cases found
  | case4 opened cursor nonempty tag next lexed inner later element ih =>
    obtain ⟨_, _, readAs, _, rest⟩ := window_of_readLexeme nonempty window lexed
    obtain ⟨taken, takes, ends⟩ := endsAs_of_readLexeme lexed
    have span : tag.span = cursor.spanTo next := readAs.span
    obtain ⟨content, took⟩ := reaches_readElement element
    refine ih (marked_readElement ?_ ?_ ends (congrArg Span.stop span) rest element) (took.cut rest).2 found
    · rw [span]
      exact marked
    · rw [span]
      exact (takes.cut window).1
  | case5 opened cursor nonempty value span next lexed condition before body classified content ihInside =>
    rename_i ih
    obtain ⟨taken, -, readAs, cut, rest⟩ := window_of_readLexeme nonempty window lexed
    obtain rfl : span = cursor.spanTo next := readAs.span
    have cut : Cut source (cursor.spanTo next).start (cursor.spanTo next).stop _ := readAs.comment _ _ rfl ▸ cut
    have classified := classify?_of_conditionalOf? classified
    obtain ⟨-, inside, -⟩ := window_of_classify? cut classified
    have node := allMarked_conditionalNode cut classified fun _ ok => ihInside (OpenElements.marked_empty _ _) inside ok
    exact ih (OpenElements.marked_add (marked.mono cut.le) node) rest found
  | case6 opened cursor nonempty value span next lexed _ ih =>
    obtain ⟨taken, -, readAs, cut, rest⟩ := window_of_readLexeme nonempty window lexed
    obtain rfl : span = cursor.spanTo next := readAs.span
    have cut : Cut source (cursor.spanTo next).start (cursor.spanTo next).stop _ := readAs.comment _ _ rfl ▸ cut
    exact ih (OpenElements.marked_add (marked.mono cut.le) (allMarked_commentNode cut)) rest found
  | case7 => cases found
  | case8 opened cursor nonempty lexeme next noElement noComment lexed inner followed ih =>
    obtain ⟨_, _, readAs, _, rest⟩ := window_of_readLexeme nonempty window lexed
    obtain ⟨taken, takes, ends⟩ := endsAs_of_readLexeme lexed
    have span := readAs.span
    have after : inner.Marked source lexeme.span.stop := by
      refine marked_follow ?_ ?_ ends noElement noComment followed
      · rw [span]
        exact marked
      · rw [span]
        exact (takes.cut window).1
    rw [span] at after
    exact ih after rest found

/-- Every node of a source is written between the marks of its kind, or is an element that ends with a tag. -/
theorem marked_of_readSource {options : ParseOptions} {content : List Fragment}
    (read : readSource options source = .ok content) : ∀ node ∈ content, node.AllMarked source := by
  cases readsSource_of_readSource read with
  | all found =>
    have marked := marked_readContent (OpenElements.marked_empty source 0) (Cut.whole source) found
    exact OpenElements.allMarked_finish marked
  | afterBlock isBlock nonempty front window found =>
    have marked := marked_readContent (OpenElements.marked_empty source _) window found
    exact List.forall_mem_cons.mpr ⟨allMarked_leaf rfl front trivial, OpenElements.allMarked_finish marked⟩

end MarkupFormat.Markup
