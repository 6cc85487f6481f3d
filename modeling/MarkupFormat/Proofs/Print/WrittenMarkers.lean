import MarkupFormat.Print.Element
import MarkupFormat.Proofs.Annotate.WrittenTags

/-!
# Markers and how they are written

The first and the last marker of a node are made from its kind and its name, and the source of the node says how they
are written. `WrittenAt.openingStartText_isPrefix` and `WrittenAt.closes` compare the two. The markers of sections, of
document types and of void elements may be written otherwise than they are printed.
-/

namespace MarkupFormat.Text

/-! ### Both ends of a text -/

theorem isPrefix_of_not_mem {mark : Char} {start front back : List Char} (free : mark ∉ start)
    (starts : start <+: front ++ mark :: back) : start <+: front := by
  obtain shorter | ⟨rest, rfl⟩ := List.prefix_or_prefix_of_prefix starts (List.prefix_append front (mark :: back))
  · exact shorter
  · cases rest with
    | nil => exact ⟨[], by rw [List.append_nil, List.append_nil]⟩
    | cons c rest =>
      obtain ⟨rfl, -⟩ := List.cons_prefix_cons.mp ((List.prefix_append_right_inj front).mp starts)
      exact absurd (List.mem_append_right _ List.mem_cons_self) free

/-- What begins a text and what ends it do not meet if the one ends with a word that shares nothing with the other. -/
theorem exists_middle_of_apart {front word stop text : List Char} (nonempty : word ≠ [])
    (apart : ∀ c ∈ word, c ∉ stop) (starts : front ++ word <+: text) (ends : stop <:+ text) :
    ∃ middle, text = front ++ word ++ middle ++ stop := by
  obtain ⟨rest, rfl⟩ := starts
  obtain ⟨middle, rfl⟩ | ⟨more, rfl⟩ :=
    List.suffix_or_suffix_of_suffix ends (List.suffix_append (front ++ word) rest)
  · exact ⟨middle, (List.append_assoc _ _ _).symm⟩
  · obtain ⟨before, same⟩ := ends
    have same : before ++ more = front ++ word := List.append_cancel_right ((List.append_assoc _ _ _).trans same)
    cases isLast : more.getLast? with
    | none =>
      rw [List.getLast?_eq_none_iff.mp isLast]
      exact ⟨[], by simp⟩
    | some c =>
      -- The two would have the last character of the word in common.
      have inMore : c ∈ more := List.mem_of_getLast? isLast
      have inWord : c ∈ word := by
        refine List.mem_of_getLast? ?_
        rw [← List.getLast?_append_of_ne_nil front nonempty, ← same,
          List.getLast?_append_of_ne_nil before (List.ne_nil_of_mem inMore), isLast]
      exact absurd (List.mem_append_left rest inMore) (apart c inWord)

end MarkupFormat.Text

namespace MarkupFormat.Markup.NodeKind

/-- Whether a node has tags, or marks in their place. -/
def hasMarks : NodeKind → Bool
  | .element _ | .conditional .. | .conditionalStart _ | .conditionalEnd | .interpolation | .directive _
  | .doctype _ => true
  | _ => false

end MarkupFormat.Markup.NodeKind

namespace MarkupFormat.Print.Page

open Markup (NodeId NodeKind Tags)
open Text (Cut)

variable {page : Page} {id : NodeId} {text front back : List Char}

variable (page id) in
/-- Whether the start of an opening tag is printed in another form than the one it may be written in. -/
def rewritesOpening : Bool :=
  match page.tree.kind id with
  | .conditional .. | .conditionalStart _ => true
  | .doctype value => value = "html" && page.options.isHtmlFile
  | .element element => element.condition.isSome
  | _ => false

variable (page id text) in
/-- How a node is written in the source of the page. -/
structure WrittenAt : Prop where
  cut : Cut page.source (page.tree.node id).span.start (page.tree.node id).span.stop text
  written : (page.tree.kind id).WrittenAs text
  tagged : ∀ element, page.tree.kind id = .element element →
    (page.tree.node id).tags.TagsWrittenAs element text
  closed : page.isSelfClosing id = (page.tree.node id).tags.closesItself

theorem toList_elementStart {element : Markup.Element} (bare : element.condition = none) :
    (elementStart element).toList = '<' :: element.rawName.toList := by
  unfold elementStart
  rw [bare]
  exact String.toList_append

theorem exists_toList_elementStart (element : Markup.Element) :
    ∃ front, (elementStart element).toList = front ++ '<' :: element.rawName.toList := by
  unfold elementStart
  split
  · next condition _ =>
    refine ⟨("<!--[if " ++ condition ++ "]><!-->").toList, ?_⟩
    simp only [String.toList_append, List.append_assoc]
    rfl
  · exact ⟨[], String.toList_append⟩

namespace WrittenAt

theorem sourceText_eq (known : page.WrittenAt id text) :
    (page.sourceText (page.tree.node id).span).toList = text := by
  unfold sourceText Markup.Span.slice
  rw [known.cut.slice_eq, String.toList_ofList]

/-- The start of an opening tag is printed as it is written, unless it has a form of its own. -/
theorem openingStartText_isPrefix (known : page.WrittenAt id text) (marked : (page.tree.kind id).hasMarks = true)
    (kept : page.rewritesOpening id = false) : (page.openingStartText id).toList <+: text := by
  have written := known.written
  unfold rewritesOpening at kept
  unfold openingStartText
  dsimp only
  cases kind : (page.tree.node id).kind <;> rw [Markup.Tree.kind, kind] at marked kept written
  case element element =>
    rw [toList_elementStart (Option.not_isSome_iff_eq_none.mp (ne_true_of_eq_false kept))]
    exact (known.tagged element kind).opening (Option.not_isSome_iff_eq_none.mp (ne_true_of_eq_false kept))
  case doctype value =>
    dsimp only
    unfold declarationStart
    rw [if_neg (by simpa using kept)]
    dsimp only
    rw [known.sourceText_eq]
    cases split : Text.splitBytes declarationBytes text with
    | none => exact known.sourceText_eq ▸ List.prefix_rfl
    | some parts =>
      dsimp only
      rw [String.toList_ofList, (Text.eq_of_splitBytes split).1]
      exact List.prefix_append _ _
  case conditionalEnd =>
    obtain ⟨blank, rfl⟩ := written
    rw [List.append_assoc]
    exact List.prefix_append _ _
  case interpolation =>
    obtain ⟨inner, rfl⟩ := written
    have braces : "\x7b\x7b".toList = ['{', '{'] := by decide
    rw [List.append_assoc, ← braces]
    exact List.prefix_append _ _
  case directive =>
    obtain ⟨inner, rfl⟩ := written
    have opening : "<?".toList = "<".toList ++ ['?'] := by decide
    rw [opening, List.append_assoc, List.append_assoc]
    exact List.prefix_append _ _
  case conditional | conditionalStart => cases kept
  case root | text | comment | cdata | frontMatter => cases marked

/-- How the end of a closing tag that is printed fits the source of its node. -/
structure Closes (page : Page) (id : NodeId) (text : List Char) : Prop where
  more : text ≠ (page.openingStartText id).toList
  ends : (page.closingEndText id).toList <:+ text ↔
    ∀ element, page.tree.kind id = .element element → element.tag.isVoid = true → ['/', '>'] <:+ text
  apart : (page.openingStartText id).toList <+: text → (page.closingEndText id).toList <:+ text →
    ∃ middle, text = (page.openingStartText id).toList ++ middle ++ (page.closingEndText id).toList

/-- A node that is no element is written with its last marker after a character that its first one does not hold. -/
theorem closes_of_mark (opening closing : String) {mark : Char}
    (noElement : (page.tree.node id).kind.isElement = false) (opens : page.openingStartText id = opening)
    (closes : page.closingEndText id = closing) (same : text = front ++ mark :: back) (free : mark ∉ opening.toList)
    (ends : closing.toList <:+ mark :: back) : Closes page id text := by
  subst same opens closes
  refine ⟨fun whole => ?_, iff_of_true (ends.trans (List.suffix_append _ _)) fun element isElement => ?_,
    fun starts _ => ?_⟩
  · rw [← whole] at free
    exact absurd (List.mem_append_right _ List.mem_cons_self) free
  · rw [show (page.tree.node id).kind = .element element from isElement] at noElement
    cases noElement
  · obtain ⟨rest, rfl⟩ := Text.isPrefix_of_not_mem free starts
    obtain ⟨middle, same⟩ := ends
    rw [← same]
    exact ⟨rest ++ middle, by simp only [List.append_assoc]⟩

theorem closingEndText_element {element : Markup.Element} (isElement : page.tree.kind id = .element element)
    (closed : page.omitsClosingTag id = false) :
    (page.closingEndText id).toList = if page.isSelfClosing id then ['/', '>'] else ['>'] := by
  unfold closingEndText
  rw [closed, if_neg Bool.false_ne_true, isElement]
  dsimp only
  cases page.isSelfClosing id <;> decide

theorem not_mem_of_named {element : Markup.Element}
    (named : ∀ c ∈ element.rawName.toList, Markup.isTagNameChar c = true) :
    ∀ c ∈ '<' :: element.rawName.toList, c ∉ ['/', '>'] := by
  have slash : Markup.isTagNameChar '/' = false := by decide
  have bracket : Markup.isTagNameChar '>' = false := by decide
  refine List.forall_mem_cons.mpr ⟨by decide, fun c member inside => ?_⟩
  have isName := named c member
  obtain rfl | rfl : c = '/' ∨ c = '>' := by simpa using inside
  · rw [slash] at isName
    cases isName
  · rw [bracket] at isName
    cases isName

theorem closes_element (known : page.WrittenAt id text) {element : Markup.Element}
    (isElement : page.tree.kind id = .element element)
    (ended : page.isSelfClosing id = true ∨ (page.tree.node id).endSpan ≠ none)
    (closed : page.omitsClosingTag id = false) : Closes page id text := by
  have tagged := known.tagged element isElement
  have self : page.isSelfClosing id = (element.tag.isVoid ||
      ((page.tree.node id).endSpan.isSome && (page.tree.node id).endSpan = (page.tree.node id).startSpan)) :=
    known.closed.trans (Tags.closesItself_element isElement)
  obtain ⟨front, name⟩ := exists_toList_elementStart element
  have opening : (page.openingStartText id).toList = front ++ '<' :: element.rawName.toList := by
    rw [← name]
    unfold openingStartText
    dsimp only
    rw [show (page.tree.node id).kind = .element element from isElement]
  have bracket : ['>'] <:+ text := by
    refine tagged.closing (ended.elim (fun closes => ?_) .inr)
    rw [self, Bool.or_eq_true, Bool.and_eq_true] at closes
    exact closes.imp_right fun some => Option.isSome_iff_ne_none.mp some.1
  have free := not_mem_of_named tagged.named
  constructor
  case more =>
    intro whole
    have apart : ∀ c ∈ '<' :: element.rawName.toList, c ∉ ['>'] :=
      fun c member inside => free c member (List.mem_cons_of_mem _ inside)
    have starts : front ++ '<' :: element.rawName.toList <+: text :=
      ⟨[], by rw [List.append_nil, whole, opening]⟩
    obtain ⟨middle, same⟩ := Text.exists_middle_of_apart (List.cons_ne_nil _ _) apart starts bracket
    rw [← opening, ← whole, List.append_assoc] at same
    cases List.append_eq_nil_iff.mp (List.self_eq_append_right.mp same) with
    | intro _ empty => cases empty
  case ends =>
    rw [closingEndText_element isElement closed]
    cases closes : page.isSelfClosing id with
    | true =>
      rw [if_pos rfl]
      refine ⟨fun ends _ _ _ => ends, fun void => ?_⟩
      cases isVoid : element.tag.isVoid with
      | true => exact void element isElement isVoid
      | false =>
        rw [closes, isVoid, Bool.false_or, eq_comm, Bool.and_eq_true, decide_eq_true_eq] at self
        exact tagged.selfClosed (Option.isSome_iff_ne_none.mp self.1) self.2
    | false =>
      rw [if_neg Bool.false_ne_true]
      refine iff_of_true bracket fun other same isVoid => ?_
      obtain rfl : element = other := by
        rw [isElement] at same
        exact NodeKind.element.inj same
      rw [closes, isVoid, Bool.true_or] at self
      cases self
  case apart =>
    rw [opening, closingEndText_element isElement closed]
    intro starts ends
    refine Text.exists_middle_of_apart (List.cons_ne_nil _ _) (fun c member inside => free c member ?_) starts ends
    revert inside
    cases page.isSelfClosing id with
    | true => exact fun inside => inside
    | false => exact fun inside => List.mem_cons_of_mem _ inside

/-- A node that is left as it is has its closing tag printed if it has one. -/
theorem isSelfClosing_or_of_ignored (ignored : page.tree.isIgnored id = true)
    (closed : page.omitsClosingTag id = false) :
    page.isSelfClosing id = true ∨ (page.tree.node id).endSpan ≠ none := by
  unfold omitsClosingTag at closed
  dsimp only at closed
  rw [ignored, Bool.true_or, Bool.and_true, Bool.and_eq_false_iff, Bool.not_eq_false', Option.isNone_eq_false_iff,
    Option.isSome_iff_ne_none] at closed
  exact closed

/-- Where a closing tag is printed, its end is what is written unless a void element has no slash. -/
theorem closes (known : page.WrittenAt id text) (ignored : page.tree.isIgnored id = true)
    (marked : (page.tree.kind id).hasMarks = true) (noDoctype : page.tree.isDoctype id = false)
    (closed : page.omitsClosingTag id = false) : Closes page id text := by
  have written := known.written
  have noBracket {condition : String} (free : ']' ∉ condition.toList) : ']' ∉ ("<!--[if " ++ condition).toList := by
    rw [String.toList_append]
    exact fun inside => (List.mem_append.mp inside).elim (by decide) free
  cases kind : (page.tree.node id).kind <;> rw [Markup.Tree.kind, kind] at marked written <;>
    have noElement := congrArg NodeKind.isElement kind
  case element element => exact closes_element known kind (isSelfClosing_or_of_ignored ignored closed) closed
  case conditional condition complete =>
    obtain ⟨free, raw, inner, same⟩ := written
    refine closes_of_mark ("<!--[if " ++ condition) "[endif]-->" noElement ?_ ?_ same (noBracket free) ?_
    · simp only [openingStartText, kind]
    · simp [closingEndText, closed, Markup.Tree.kind, kind]
    · exact (List.suffix_append inner _).trans (List.suffix_cons _ _)
  case conditionalStart condition =>
    obtain ⟨free, raw, same⟩ := written
    refine closes_of_mark ("<!--[if " ++ condition) "]><!-->" noElement ?_ ?_ same (noBracket free) List.suffix_rfl
    · simp only [openingStartText, kind]
    · simp [closingEndText, closed, Markup.Tree.kind, kind]
  case conditionalEnd =>
    obtain ⟨blank, same⟩ := written
    refine closes_of_mark "<!--<!" "[endif]-->" noElement ?_ ?_ same (by decide) List.suffix_rfl
    · simp only [openingStartText, kind]
    · simp [closingEndText, closed, Markup.Tree.kind, kind]
  case interpolation =>
    obtain ⟨inner, same⟩ := written
    refine closes_of_mark "\x7b\x7b" "\x7d\x7d" noElement ?_ ?_ same (by decide) List.suffix_rfl
    · simp only [openingStartText, kind]
    · simp [closingEndText, closed, Markup.Tree.kind, kind]
  case directive value =>
    obtain ⟨inner, same⟩ := written
    refine closes_of_mark "<" ">" noElement ?_ ?_ same (by decide) List.suffix_rfl
    · simp only [openingStartText, kind]
    · simp [closingEndText, closed, Markup.Tree.kind, kind]
  case doctype value =>
    unfold Markup.Tree.isDoctype at noDoctype
    rw [Markup.Tree.kind, kind] at noDoctype
    cases noDoctype
  case root | text | comment | cdata | frontMatter => cases marked

end WrittenAt

end MarkupFormat.Print.Page
