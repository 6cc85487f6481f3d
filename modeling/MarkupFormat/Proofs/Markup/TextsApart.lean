import Mathlib.Data.List.Chain
import MarkupFormat.Proofs.Markup.LocalRule
import MarkupFormat.Proofs.Markup.Losslessness

/-!
# Texts as they are read

A text ends only where markup or the end of the input follows, and whatever markup is read comes to stand
after it as a node. So no two texts stand side by side in what is read (`follows_of_readSource`). Nothing is
known yet about removed white space, and character data is written between its marks.
-/

namespace MarkupFormat.Markup

open Text (Cut byteLength)

/-- What matters of a node for the white space around it. -/
structure Spacing where
  kind : NodeKind
  span : Span
  leading : Bool
  trailing : Bool

namespace NodeInfo

def spacing (info : NodeInfo) : Spacing :=
  ⟨info.kind, info.span, info.flags.leadingSpaces, info.flags.trailingSpaces⟩

end NodeInfo

namespace Spacing

/-- Two neighbours are not both texts. -/
def Apart (node next : Spacing) : Prop :=
  ¬(node.kind.isText = true ∧ next.kind.isText = true)

theorem Apart.symm {node next : Spacing} (apart : node.Apart next) : next.Apart node :=
  fun both => apart both.symm

/-- A node as it is read: without flags, and its children apart. -/
structure AsRead (source : List Char) (node : Spacing) (children : List Spacing) : Prop where
  unspaced : node.leading = false ∧ node.trailing = false
  cdata : ∀ value, node.kind = .cdata value →
    Cut source node.span.start node.span.stop ("<![CDATA[".toList ++ value.toList ++ "]]>".toList)
  apart : children.IsChain Apart

end Spacing

open Spacing (Apart AsRead)
open NodeInfo (spacing)

variable {source : List Char}

/-! ### Open elements -/

/-- Nodes as they were read, the last one first. -/
structure ReadList (source : List Char) (nodes : List Fragment) : Prop where
  follow : ∀ node ∈ nodes, node.Follows spacing (AsRead source)
  apart : (Fragment.looks spacing nodes).IsChain Apart

theorem readList_nil : ReadList source [] :=
  ⟨fun _ member => absurd member List.not_mem_nil, .nil⟩

theorem readList_cons {node : Fragment} {nodes : List Fragment} (list : ReadList source nodes)
    (follows : node.Follows spacing (AsRead source))
    (apart : ∀ last ∈ nodes.head?, Apart node.info.spacing last.info.spacing) :
    ReadList source (node :: nodes) := by
  refine ⟨fun other member => ?_, ?_⟩
  · rcases List.mem_cons.mp member with rfl | member
    · exact follows
    · exact list.follow other member
  · refine List.isChain_cons.mpr ⟨fun last first => ?_, list.apart⟩
    rw [List.head?_map] at first
    obtain ⟨fragment, same, rfl⟩ := Option.map_eq_some_iff.mp first
    exact apart fragment same

theorem ReadList.reverse_apart {nodes : List Fragment} (list : ReadList source nodes) :
    (Fragment.looks spacing nodes.reverse).IsChain Apart := by
  unfold Fragment.looks
  rw [List.map_reverse, List.isChain_reverse]
  exact list.apart.imp fun _ _ apart => apart.symm

namespace OpenElements

/-- The node that was read last inside of the innermost element. -/
def last? (opened : OpenElements) : Option Fragment :=
  match opened.stack with
  | [] => opened.nodes.head?
  | innermost :: _ => innermost.children.head?

/-- Everything inside of the open elements and outside of them is as it was read. -/
structure ReadWell (source : List Char) (opened : OpenElements) : Prop where
  nodes : ReadList source opened.nodes
  stack : ∀ element ∈ opened.stack, ReadList source element.children

variable {opened : OpenElements}

theorem readWell_empty : ReadWell source {} :=
  ⟨readList_nil, fun _ member => absurd member List.not_mem_nil⟩

theorem last?_add (opened : OpenElements) (node : Fragment) : (opened.add node).last? = some node := by
  unfold add
  split
  · next same => simp [last?, same]
  · rfl

theorem readWell_add {node : Fragment} (read : opened.ReadWell source)
    (follows : node.Follows spacing (AsRead source))
    (apart : ∀ last ∈ opened.last?, Apart node.info.spacing last.info.spacing) :
    (opened.add node).ReadWell source := by
  unfold last? at apart
  unfold add
  split
  · next same =>
    rw [same] at apart
    exact ⟨readList_cons read.nodes follows apart, read.stack⟩
  · next innermost outer same =>
    rw [same] at apart
    have stack := read.stack
    rw [same] at stack
    refine ⟨read.nodes, fun element member => ?_⟩
    rcases List.mem_cons.mp member with rfl | member
    · exact readList_cons (stack innermost List.mem_cons_self) follows apart
    · exact stack element (List.mem_cons_of_mem _ member)

theorem readWell_add_other {node : Fragment} (read : opened.ReadWell source)
    (follows : node.Follows spacing (AsRead source)) (noText : node.kind.isText = false) :
    (opened.add node).ReadWell source := by
  refine readWell_add read follows fun last _ both => ?_
  have isText : node.kind.isText = true := both.1
  rw [noText] at isText
  cases isText

theorem follows_close {element : OpenElement} (list : ReadList source element.children)
    (endSpan : Option Span) : (element.close endSpan).Follows spacing (AsRead source) := by
  unfold OpenElement.close
  rw [Fragment.follows_node]
  refine ⟨⟨⟨rfl, rfl⟩, nofun, list.reverse_apart⟩, fun child member => ?_⟩
  exact list.follow child (List.mem_reverse.mp member)

/-- Ending an element leaves an element as the last node. -/
theorem readWell_close (read : opened.ReadWell source) (endSpan : Option Span) :
    (opened.close endSpan).ReadWell source := by
  unfold close
  split
  · exact read
  · next innermost outer same =>
    have stack := read.stack
    rw [same] at stack
    have around : ReadWell source { opened with stack := outer } :=
      ⟨read.nodes, fun element member => stack element (List.mem_cons_of_mem _ member)⟩
    exact readWell_add_other around (follows_close (stack innermost List.mem_cons_self) endSpan) rfl

/-- The last node, if there is one, is no text. -/
def EndsInMarkup (opened : OpenElements) : Prop :=
  ∀ last ∈ opened.last?, last.kind.isText = false

theorem endsInMarkup_add {node : Fragment} (noText : node.kind.isText = false) :
    (opened.add node).EndsInMarkup := by
  intro last same
  rw [last?_add] at same
  cases same
  exact noText

theorem endsInMarkup_close (some_open : opened.stack ≠ []) (endSpan : Option Span) :
    (opened.close endSpan).EndsInMarkup := by
  unfold close
  split
  · next none_open => exact absurd none_open some_open
  · exact endsInMarkup_add rfl

theorem readList_finish (read : opened.ReadWell source) :
    (∀ node ∈ opened.finish, node.Follows spacing (AsRead source)) ∧
      (Fragment.looks spacing opened.finish).IsChain Apart := by
  have closed := closeAll_keeps (motive := ReadWell source) read fun read => readWell_close read none
  have list := closed.nodes
  exact ⟨fun node member => list.follow node (List.mem_reverse.mp member), list.reverse_apart⟩

/-! ### Tags -/

theorem readWell_closeNamed? {after : OpenElements} {name : String} {ns : Option String} {endSpan : Span}
    (read : opened.ReadWell source) (closed : opened.closeNamed? name ns endSpan = some after) :
    after.ReadWell source ∧ after.EndsInMarkup := by
  fun_induction closeNamed? opened name ns endSpan with
  | case1 => cases closed
  | case2 opened innermost outer same named =>
    cases closed
    exact ⟨readWell_close read _, endsInMarkup_close (by rw [same]; exact List.cons_ne_nil _ _) _⟩
  | case3 opened innermost outer same named implied ih => exact ih (readWell_close read none) closed
  | case4 => cases closed

theorem readWell_startElement (read : opened.ReadWell source) (tag : StartTag) (element : Element) :
    (opened.startElement tag element).1.ReadWell source ∧ (opened.startElement tag element).1.EndsInMarkup ∧
      ((opened.startElement tag element).2 = true → (opened.startElement tag element).1.stack ≠ []) := by
  unfold startElement
  split
  · refine ⟨readWell_add_other read ?_ rfl, endsInMarkup_add rfl, nofun⟩
    rw [Fragment.follows_node]
    exact ⟨⟨⟨rfl, rfl⟩, nofun, .nil⟩, nofun⟩
  · refine ⟨⟨read.nodes, fun other member => ?_⟩, nofun, fun _ => List.cons_ne_nil _ _⟩
    rcases List.mem_cons.mp member with rfl | member
    · exact readList_nil
    · exact read.stack other member

/-- A start tag adds an element or opens one. The content is raw text only for an element that stays open. -/
theorem readWell_startTag (read : opened.ReadWell source) (tag : StartTag) :
    (opened.startTag tag).1.ReadWell source ∧ (opened.startTag tag).1.EndsInMarkup ∧
      ((opened.startTag tag).2 = true → (opened.startTag tag).1.stack ≠ []) := by
  have ended := endedBy_keeps (motive := ReadWell source) read (readWell_close read none)
  rw [startTag_eq_startElement]
  exact readWell_startElement (ended tag.name.name) tag _

/-- After a text, nothing but markup is read. -/
def Ready (options : ParseOptions) (opened : OpenElements) (cursor : Cursor) : Prop :=
  ∀ last ∈ opened.last?, last.kind.isText = true → cursor.rest = [] ∨ atMarkup options cursor.rest = true

theorem ready_empty {options : ParseOptions} {cursor : Cursor} : Ready options {} cursor := by
  intro last same
  cases same

theorem EndsInMarkup.ready {options : ParseOptions} {cursor : Cursor} (ends : opened.EndsInMarkup) :
    opened.Ready options cursor := by
  intro last same isText
  rw [ends last same] at isText
  cases isText

end OpenElements

open OpenElements (ReadWell readWell_add readWell_add_other)

/-! ### Lexemes -/

theorem readLexeme_text {options : ParseOptions} {cursor next : Cursor} {value : List Char} {span : Span}
    (read : readLexeme options cursor = .ok (.text value span, next)) :
    Text.scan (atMarkup options) cursor.rest = (value, next.rest) ∧ atMarkup options cursor.rest = false ∧
      (next.rest = [] ∨ atMarkup options next.rest = true) := by
  unfold readLexeme at read
  dsimp only at read
  split at read
  · next noMarkup =>
    cases read
    exact ⟨rfl, by simpa using noMarkup, Text.scan_stops _ _⟩
  · split at read
    · obtain ⟨_, _, same⟩ := exists_ok_of_map read
      cases same
    · split at read
      · obtain ⟨_, _, same⟩ := exists_ok_of_map read
        cases same
      · split at read
        · obtain ⟨_, _, same⟩ := exists_ok_of_map read
          cases same
        · split at read
          · obtain ⟨_, _, same⟩ := exists_ok_of_map read
            cases same
          · split at read
            · cases read
            · split at read
              · obtain ⟨_, _, same⟩ := exists_ok_of_map read
                cases same
              · obtain ⟨_, _, same⟩ := exists_ok_of_map read
                cases same

theorem readLexeme_cdata {options : ParseOptions} {cursor next : Cursor} {value : List Char} {span : Span}
    (read : readLexeme options cursor = .ok (.cdata value span, next)) :
    cursor.Takes next ("<![CDATA[".toList ++ value ++ "]]>".toList) := by
  unfold readLexeme at read
  dsimp only at read
  split at read
  · cases read
  · split at read
    · obtain ⟨_, _, same⟩ := exists_ok_of_map read
      cases same
    · split at read
      · next starts =>
        obtain ⟨value, after, same, takes⟩ := takes_of_map_readDelimited starts read
        cases same
        exact takes
      · split at read
        · obtain ⟨_, _, same⟩ := exists_ok_of_map read
          cases same
        · split at read
          · obtain ⟨_, _, same⟩ := exists_ok_of_map read
            cases same
          · split at read
            · cases read
            · split at read
              · obtain ⟨_, _, same⟩ := exists_ok_of_map read
                cases same
              · obtain ⟨_, _, same⟩ := exists_ok_of_map read
                cases same

theorem follows_leaf_asRead {kind : NodeKind} {span : Span}
    (cdata : ∀ value, kind = .cdata value →
      Cut source span.start span.stop ("<![CDATA[".toList ++ value.toList ++ "]]>".toList)) :
    (Fragment.leaf kind span).Follows spacing (AsRead source) :=
  Fragment.follows_leaf.mpr ⟨⟨rfl, rfl⟩, cdata, .nil⟩

/-! ### Content -/

variable {opened after : OpenElements} {cursor next : Cursor} {stop : Nat}

theorem readWell_readRawContent {options : ParseOptions} {name : String} (read : opened.ReadWell source)
    (ends : opened.EndsInMarkup) (some_open : opened.stack ≠ [])
    (found : readRawContent opened name cursor = .ok (after, next)) :
    after.ReadWell source ∧ after.Ready options next := by
  unfold readRawContent at found
  dsimp only at found
  have added : ∀ node : Fragment, node.Follows spacing (AsRead source) → (opened.add node).ReadWell source := by
    intro node follows
    refine readWell_add read follows fun last same both => ?_
    have isText : last.kind.isText = true := both.2
    rw [ends last same] at isText
    cases isText
  split at found
  · next empty =>
    cases found
    refine ⟨?_, fun _ _ _ => Or.inl empty⟩
    split
    · exact read
    · exact added _ (follows_leaf_asRead (by nofun))
  · obtain ⟨⟨tag, last⟩, ended, same⟩ := exists_ok_of_map found
    cases same
    split
    · exact ⟨OpenElements.readWell_close read _, (OpenElements.endsInMarkup_close some_open _).ready⟩
    · have still_open : (opened.add (.leaf (.text (String.ofList (readRaw name.toList cursor.rest).1))
          (cursor.spanTo (cursor.skip (readRaw name.toList cursor.rest).1
            (readRaw name.toList cursor.rest).2)))).stack ≠ [] := by
        rw [← List.length_pos_iff, OpenElements.length_stack_add]
        exact List.length_pos_iff.mpr some_open
      exact ⟨OpenElements.readWell_close (added _ (follows_leaf_asRead (by nofun))) _,
        (OpenElements.endsInMarkup_close still_open _).ready⟩

theorem readWell_readElement (options : ParseOptions) {tag : StartTag} (read : opened.ReadWell source)
    (found : readElement opened tag cursor = .ok (after, next)) :
    after.ReadWell source ∧ after.Ready options next := by
  obtain ⟨started, ends, remains⟩ := OpenElements.readWell_startTag read tag
  unfold readElement at found
  split at found
  · next same =>
    rw [same] at started ends remains
    exact readWell_readRawContent started ends (remains rfl) found
  · next same =>
    rw [same] at started ends
    cases found
    exact ⟨started, ends.ready⟩

theorem readWell_follow {options : ParseOptions} {lexeme : Lexeme} (read : opened.ReadWell source)
    (ready : opened.Ready options cursor) (nonempty : cursor.rest ≠ [])
    (window : Cut source cursor.pos stop cursor.rest)
    (lexed : readLexeme options cursor = .ok (lexeme, next))
    (noElement : ∀ tag, lexeme ≠ .startTag tag) (noComment : ∀ value span, lexeme ≠ .comment value span)
    (followed : opened.follow lexeme = .ok after) : after.ReadWell source ∧ after.Ready options next := by
  have other {kind : NodeKind} {span : Span} (noText : kind.isText = false)
      (cdata : ∀ value, kind = .cdata value →
        Cut source span.start span.stop ("<![CDATA[".toList ++ value.toList ++ "]]>".toList)) :
      (opened.add (.leaf kind span)).ReadWell source ∧ (opened.add (.leaf kind span)).Ready options next :=
    ⟨readWell_add_other read (follows_leaf_asRead cdata) noText,
      OpenElements.EndsInMarkup.ready (OpenElements.endsInMarkup_add noText)⟩
  cases lexeme with
  | text value span =>
    obtain ⟨-, noMarkup, stops⟩ := readLexeme_text lexed
    cases followed
    refine ⟨readWell_add read (follows_leaf_asRead nofun) fun last same both => ?_, fun _ _ _ => stops⟩
    -- Otherwise markup would be read here.
    rcases ready last same both.2 with empty | markup
    · exact nonempty empty
    · rw [noMarkup] at markup
      cases markup
  | cdata value span =>
    obtain ⟨_, _, readAs, _, _⟩ := window_of_readLexeme nonempty window lexed
    obtain rfl : span = cursor.spanTo next := readAs.span
    cases followed
    refine other rfl fun _ same => ?_
    have text : (String.ofList value).toList = value := String.toList_ofList
    rw [← NodeKind.cdata.inj same, text]
    exact ((readLexeme_cdata lexed).cut window).1
  | doctype value span =>
    cases followed
    exact other rfl nofun
  | directive value span =>
    cases followed
    exact other rfl nofun
  | endTag tag =>
    change opened.endTag tag = .ok after at followed
    unfold OpenElements.endTag at followed
    split at followed
    · cases followed
    · split at followed
      · next closed =>
        cases followed
        obtain ⟨read, ends⟩ := OpenElements.readWell_closeNamed? read closed
        exact ⟨read, ends.ready⟩
      · cases followed
  | componentEnd span =>
    change opened.componentEnd span = .ok after at followed
    unfold OpenElements.componentEnd at followed
    split at followed
    · cases followed
    · next some_open =>
      cases followed
      exact ⟨OpenElements.readWell_close read _,
        (OpenElements.endsInMarkup_close (by simpa using some_open) _).ready⟩
  | startTag tag => exact absurd rfl (noElement tag)
  | comment value span => exact absurd rfl (noComment value span)

/-- Whatever was read of its section, a conditional comment is as it was read. -/
theorem follows_conditionalNode {span : Span} {condition : String} {before body : List Char}
    {content : Except Failure OpenElements}
    (read : ∀ opened, content = .ok opened → opened.ReadWell source) :
    (conditionalNode span condition before body content).Follows spacing (AsRead source) := by
  unfold conditionalNode
  cases content with
  | ok opened =>
    obtain ⟨follow, apart⟩ := OpenElements.readList_finish (read opened rfl)
    exact Fragment.follows_node.mpr ⟨⟨⟨rfl, rfl⟩, nofun, apart⟩, follow⟩
  | error failure =>
    refine Fragment.follows_node.mpr ⟨⟨⟨rfl, rfl⟩, nofun, .singleton _⟩, fun child member => ?_⟩
    rw [List.mem_singleton.mp member]
    exact follows_leaf_asRead nofun

theorem isText_conditionalNode (span : Span) (condition : String) (before body : List Char)
    (content : Except Failure OpenElements) :
    (conditionalNode span condition before body content).kind.isText = false := by
  cases content <;> rfl

/-- Reading goes on as it began. -/
theorem readWell_readContent {options : ParseOptions} (read : opened.ReadWell source)
    (ready : opened.Ready options cursor) (window : Cut source cursor.pos stop cursor.rest)
    (found : readContent options opened cursor = .ok after) : after.ReadWell source := by
  fun_induction readContent options opened cursor generalizing stop after with
  | case1 opened cursor empty =>
    cases found
    exact read
  | case2 => cases found
  | case3 => cases found
  | case4 opened cursor nonempty tag next lexed inner later element ih =>
    obtain ⟨_, _, _, _, rest⟩ := window_of_readLexeme nonempty window lexed
    obtain ⟨_, took⟩ := reaches_readElement element
    obtain ⟨read, ready⟩ := readWell_readElement options read element
    exact ih read ready (took.cut rest).2 found
  | case5 opened cursor nonempty value span next lexed condition before body classified content ihInside =>
    rename_i ih
    obtain ⟨_, _, readAs, cut, rest⟩ := window_of_readLexeme nonempty window lexed
    obtain rfl : span = cursor.spanTo next := readAs.span
    have cut : Cut source (cursor.spanTo next).start (cursor.spanTo next).stop _ :=
      readAs.comment _ _ rfl ▸ cut
    obtain ⟨_, inside, _⟩ := window_of_classify? cut (classify?_of_conditionalOf? classified)
    have section' : ∀ opened, content = .ok opened → opened.ReadWell source := fun _ ok =>
      ihInside OpenElements.readWell_empty OpenElements.ready_empty inside ok
    have noText := isText_conditionalNode (cursor.spanTo next) condition before body content
    exact ih (readWell_add_other read (follows_conditionalNode section') noText)
      (OpenElements.endsInMarkup_add noText).ready rest found
  | case6 opened cursor nonempty value span next lexed _ ih =>
    obtain ⟨_, _, _, _, rest⟩ := window_of_readLexeme nonempty window lexed
    have comment : (commentNode span value (conditionalOf? options value)).Follows spacing (AsRead source) ∧
        (commentNode span value (conditionalOf? options value)).kind.isText = false := by
      unfold commentNode
      split <;> exact ⟨follows_leaf_asRead fun _ same => NodeKind.noConfusion same, rfl⟩
    exact ih (readWell_add_other read comment.1 comment.2)
      (OpenElements.endsInMarkup_add comment.2).ready rest found
  | case7 => cases found
  | case8 opened cursor nonempty lexeme next noElement noComment lexed inner followed ih =>
    obtain ⟨taken, _, _, _, left⟩ := window_of_readLexeme nonempty window lexed
    obtain ⟨read, ready⟩ := readWell_follow read ready nonempty window lexed noElement noComment followed
    exact ih read ready left found

/-- The nodes of a source are as they are read, and stand apart. -/
theorem follows_of_readSource {options : ParseOptions} {content : List Fragment}
    (read : readSource options source = .ok content) :
    (∀ node ∈ content, node.Follows spacing (AsRead source)) ∧
      (Fragment.looks spacing content).IsChain Apart := by
  cases readsSource_of_readSource read with
  | all found =>
    exact OpenElements.readList_finish
      (readWell_readContent OpenElements.readWell_empty OpenElements.ready_empty (Cut.whole source) found)
  | afterBlock isBlock nonempty front window found =>
    obtain ⟨follow, apart⟩ := OpenElements.readList_finish
      (readWell_readContent OpenElements.readWell_empty OpenElements.ready_empty window found)
    refine ⟨List.forall_mem_cons.mpr ⟨follows_leaf_asRead nofun, follow⟩, ?_⟩
    exact List.isChain_cons.mpr ⟨fun next _ both => (nomatch both.1), apart⟩

end MarkupFormat.Markup
