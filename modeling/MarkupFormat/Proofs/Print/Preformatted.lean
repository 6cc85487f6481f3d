import MarkupFormat.Proofs.Layout.Paths
import MarkupFormat.Proofs.Layout.Triples
import MarkupFormat.Proofs.Print.LaidOut
import MarkupFormat.Proofs.Text.WordBreaks

/-!
# Printed preformatted text

The text of an element that keeps its indentation is printed with the start of the end tag glued to it. Between the
end of the start tag and the text there is a soft line at most, at the margin. So wherever lines are broken, the text
stands as it is between the tags, behind what is seen of the start tag (`Preformatted.shows_printNode`). A run of
characters without white space is kept by any text, behind what is seen of the text before it (`shows_printNode_text`).
-/

namespace MarkupFormat.Print

open Annotate (isScriptLike)
open Layout (AnyHolds Assertion Build Doc EndsSolid GroupId Mode ShowsAmong TriplesIn anyHolds_append_left
  anyHolds_append_right anyHolds_singleton)
open Layout.Build (Yields forces_literalline forces_splitLines inks_concat inks_line inks_text lays_literalline
  lays_splitLines lays_text shows_concat shows_fill triple_concat triple_fill triple_groupWith triple_indent
  triple_triple upward_concat upward_fill yields_and yields_bind yields_imp yields_of_makes yields_pure yields_true)
open Layout.Doc (inkedAll_cons inkedAll_singleton)
open Markup (NodeId Tree)
open Text (isLineBlank isMarkupSpace visible visible_append writtenChars writtenChars_append)

/-! ### Texts that are joined to markers -/

section Parts

variable {first last part : Doc} {parts : List Doc} {cs before after : List Char}

theorem lays_joinLast (ends : last.verbatim? = some after) (all : Doc.verbatimAll? (part :: parts) = some cs) :
    Yields (joinLast last part parts) fun parts => Doc.verbatimAll? parts = some (cs ++ after) := by
  induction parts generalizing part cs with
  | nil =>
    have joined := Doc.verbatimAll?_append all (Doc.verbatimAll?_singleton ends)
    refine yields_bind (yields_of_makes (Layout.Build.lays_concat joined)) fun doc same => yields_pure ?_
    exact Doc.verbatimAll?_singleton same
  | cons next parts ih =>
    obtain ⟨here, others, first, rest, rfl⟩ := Doc.verbatimAll?_cons_eq_some.mp all
    refine yields_bind (ih rest) fun joined same => yields_pure ?_
    exact Doc.verbatimAll?_cons_eq_some.mpr ⟨here, _, first, same, List.append_assoc ..⟩

theorem lays_wrapParts (begins : first.verbatim? = some before) (ends : last.verbatim? = some after)
    (all : Doc.verbatimAll? parts = some cs) :
    Yields (wrapParts first last parts) fun parts => Doc.verbatimAll? parts = some (before ++ cs ++ after) := by
  cases parts with
  | nil =>
    refine yields_bind (yields_of_makes (lays_text "")) fun blank none => ?_
    have joined := Doc.verbatimAll?_append (Doc.verbatimAll?_singleton begins) (Doc.verbatimAll?_singleton none)
    refine yields_bind (yields_of_makes (Layout.Build.lays_concat joined)) fun part same => ?_
    cases all
    exact lays_joinLast ends (Doc.verbatimAll?_singleton same)
  | cons part parts =>
    obtain ⟨here, others, isHere, rest, rfl⟩ := Doc.verbatimAll?_cons_eq_some.mp all
    have joined := Doc.verbatimAll?_append (Doc.verbatimAll?_singleton begins) (Doc.verbatimAll?_singleton isHere)
    refine yields_bind (yields_of_makes (Layout.Build.lays_concat joined)) fun part same => ?_
    rw [← List.append_assoc]
    exact lays_joinLast ends (Doc.verbatimAll?_cons_eq_some.mpr ⟨_, _, same, rest, rfl⟩)

section Upward

variable {holds : Doc → Prop} (upward : Doc.Upward holds)

include upward

theorem anyHolds_joinLast (any : AnyHolds holds (part :: parts)) :
    Yields (joinLast last part parts) (AnyHolds holds) := by
  induction parts generalizing part with
  | nil =>
    exact yields_bind (upward_concat upward (anyHolds_append_left any [last])) fun _ here =>
      yields_pure (anyHolds_singleton here)
  | cons next parts ih =>
    obtain ⟨doc, member, here⟩ := any
    obtain rfl | later := List.mem_cons.mp member
    · exact yields_bind yields_true fun joined _ => yields_pure (anyHolds_append_left (anyHolds_singleton here) joined)
    · exact yields_bind (ih ⟨doc, later, here⟩) fun _ there => yields_pure (anyHolds_append_right [part] there)

theorem anyHolds_wrapParts (any : AnyHolds holds parts) : Yields (wrapParts first last parts) (AnyHolds holds) := by
  cases parts with
  | nil =>
    obtain ⟨_, member, _⟩ := any
    exact absurd member List.not_mem_nil
  | cons part parts =>
    obtain ⟨doc, member, here⟩ := any
    obtain rfl | later := List.mem_cons.mp member
    · have both : AnyHolds holds [first, doc] := anyHolds_append_right [first] (anyHolds_singleton here)
      exact yields_bind (upward_concat upward both) fun joined there =>
        anyHolds_joinLast upward (anyHolds_append_left (anyHolds_singleton there) parts)
    · exact yields_bind yields_true fun joined _ =>
        anyHolds_joinLast upward (anyHolds_append_right [joined] ⟨doc, later, here⟩)

end Upward

section Shown

variable {wanted : Assertion} {lead : List Char}

theorem showsAmong_joinLast (among : ShowsAmong wanted lead (part :: parts)) :
    Yields (joinLast last part parts) (ShowsAmong wanted lead) := by
  induction parts generalizing part lead with
  | nil =>
    cases among with
    | here shows => exact yields_bind (shows_concat (.here shows)) fun _ shows => yields_pure (.here shows)
    | there _ among => exact absurd rfl among.ne_nil
  | cons next parts ih =>
    cases among with
    | here shows => exact yields_bind yields_true fun joined _ => yields_pure (.here shows)
    | there inked among => exact yields_bind (ih among) fun joined among => yields_pure (.there inked among)

theorem showsAmong_wrapParts (inked : first.Inked cs) (among : ShowsAmong wanted lead parts) :
    Yields (wrapParts first last parts) (ShowsAmong wanted (cs ++ lead)) := by
  cases among with
  | here shows =>
    exact yields_bind (shows_concat (.there inked (.here shows))) fun joined shows => showsAmong_joinLast (.here shows)
  | there inkedToo among =>
    rw [← List.append_assoc]
    have both := inkedAll_cons inked (inkedAll_singleton inkedToo)
    exact yields_bind (inks_concat both) fun joined inked => showsAmong_joinLast (.there inked among)

end Shown

theorem adds_fill (all : Doc.verbatimAll? parts = some cs) : Yields (Build.fill parts) (Doc.Adds · cs) := by
  intro supply result ran before
  exact triple_fill (Layout.triples_of_verbatimAll? all before) supply result ran

end Parts

namespace Page

variable {page : Page} {id child : NodeId} {value tag : List Char} {before after : Assertion}

/-- A text that keeps its lines and their indentation is written as it is. -/
theorem lays_textParts {parent : NodeId} (above : page.tree.parent? id = some parent)
    (kept : (page.tree.node parent).flags.whitespaceSensitive = true ∧
      (page.tree.node parent).flags.indentationSensitive = true) :
    Yields (page.textParts id value) fun parts => Doc.verbatimAll? parts = some value := by
  unfold textParts
  rw [above]
  simp only [Option.map_some, Option.getD_some, kept.1, kept.2, if_true]
  refine yields_bind (yields_of_makes lays_literalline) fun separator line => ?_
  have lines := yields_of_makes (lays_splitLines (String.ofList value) line)
  rwa [String.toList_ofList] at lines

/-! ### Preformatted elements -/

/-- An element with one text whose indentation shows, and white space after it. -/
structure Preformatted (tree : Tree) (id child : NodeId) (value : List Char) : Prop where
  element : ∃ element, tree.kind id = .element element
  notScript : isScriptLike (tree.kind id) = false
  only : tree.children id = [child]
  text : tree.kind child = .text (String.ofList value)
  kept : (tree.node id).flags.whitespaceSensitive = true ∧ (tree.node id).flags.indentationSensitive = true
  unspaced : (tree.node child).flags.leadingSpaces = false ∧ (tree.node child).flags.trailingSpaces = false
  sensitive : (tree.node child).flags.leadingSensitive = false ∧ (tree.node child).flags.trailingSensitive = true

/-- The text of an element between its tags, after a line break at most, and after one if it begins with a line
feed. -/
def betweenTags (value tag : List Char) : Assertion := fun ending cs =>
  ∃ lead, ((value.head? ≠ some '\n' ∧ lead = []) ∨ lead = ['\n']) ∧
    cs = '>' :: (writtenChars ending (lead ++ value) ++ tag)

/-- These characters are seen, and the last one is the end of a tag. -/
def opened (seen : List Char) : Assertion :=
  fun _ cs => visible cs = seen ∧ cs.getLast? = some '>'

namespace Preformatted

variable (shaped : page.tree.Shaped) (preformatted : Preformatted page.tree id child value)

include preformatted

theorem isTextLikeNode : page.tree.isTextLikeNode child = true := by
  unfold Tree.isTextLikeNode
  rw [preformatted.text]
  rfl

theorem hugsContent : page.hugsContent id = false := by
  unfold Page.hugsContent
  rw [preformatted.only]
  dsimp only
  rw [preformatted.text]
  rfl

/-- Before text that keeps its indentation there is a soft line at the margin. -/
theorem yields_lineBefore (tagGroup : GroupId) :
    Yields (page.lineBefore id (page.tree.node child) tagGroup) fun doc =>
      ∃ mark lineMark, doc = .align mark .dedentToRoot (.line lineMark .soft) := by
  have keeps : keepsIndentation (page.tree.node id) (page.tree.node child) = true := by
    unfold keepsIndentation
    rw [show (page.tree.node child).kind = _ from preformatted.text, preformatted.kept.1, preformatted.kept.2]
    rfl
  have touches : hasSensitiveSpaceBefore (page.tree.node child) = false := by
    unfold hasSensitiveSpaceBefore
    rw [preformatted.unspaced.1, Bool.false_and]
  unfold Page.lineBefore
  rw [preformatted.hugsContent, touches, keeps, if_neg Bool.false_ne_true, if_neg Bool.false_ne_true, if_pos rfl]
  refine yields_bind (yields_of_makes (Layout.Build.makes_bareLine .soft)) fun line isLine => ?_
  obtain ⟨lineMark, rfl⟩ := isLine
  exact yields_bind yields_true fun mark _ => yields_pure ⟨mark, lineMark, rfl⟩

include shaped

theorem linked : page.tree.parent? child = some id ∧ page.tree.prev? child = none ∧ page.tree.next? child = none := by
  have split : page.tree.children id = [] ++ child :: [] := preformatted.only
  exact shaped.numbered.linked split

/-- The text prints the start of the end tag, and nothing before it. -/
theorem borrowed : page.tree.borrowedBefore? child = none ∧
    page.tree.borrowedAfter? child = some ⟨id, .closingStart⟩ := by
  obtain ⟨above, prev, next⟩ := preformatted.linked shaped
  have loose : page.tree.isGluedBefore child = false := by
    unfold Tree.isGluedBefore
    rw [preformatted.sensitive.1, Bool.false_and]
  have glued : page.tree.isGluedAfter child = true := by
    unfold Tree.isGluedAfter
    rw [preformatted.sensitive.2, preformatted.unspaced.2]
    rfl
  have leaf : page.tree.children child = [] := shaped.leaf (by rw [preformatted.text]; rfl)
  have last : page.tree.lastDescendant child = child := by
    unfold Tree.lastDescendant
    cases page.tree.size with
    | zero => rfl
    | succ depth =>
      unfold Tree.lastDescendantTo Tree.lastChild?
      rw [leaf]
      rfl
  unfold Tree.borrowedBefore? Tree.borrowedAfter? Tree.borrowsParentOpeningEnd Tree.borrowsParentClosingStart
  rw [prev, next, loose, glued, last, preformatted.isTextLikeNode, above]
  exact ⟨rfl, rfl⟩

theorem adds_printText :
    Yields (page.printText child value) (Doc.Adds · (value ++ (page.closingStartText id).toList)) := by
  obtain ⟨above, -, -⟩ := preformatted.linked shaped
  obtain ⟨element, isElement⟩ := preformatted.element
  obtain ⟨nothing, closing⟩ := preformatted.borrowed shaped
  have outside : ((page.tree.parent? child).any fun parent => (page.tree.kind parent).isInterpolation) = false := by
    rw [above, Option.any_some, isElement]
    rfl
  have begins : Yields (page.before child) fun doc => doc.verbatim? = some [] := by
    unfold Page.before Page.borrowed
    rw [nothing]
    exact yields_of_makes (lays_text "")
  have ends : Yields (page.after child) fun doc => doc.verbatim? = some (page.closingStartText id).toList := by
    unfold Page.after Page.borrowed
    rw [closing]
    exact yields_of_makes (lays_text (page.closingStartText id))
  unfold printText
  rw [outside, if_neg Bool.false_ne_true]
  refine yields_bind begins fun first isFirst => yields_bind ends fun last isLast => ?_
  refine yields_bind (lays_textParts above preformatted.kept) fun parts all => ?_
  refine yields_bind (lays_wrapParts isFirst isLast all) fun parts all => ?_
  rw [List.nil_append] at all
  exact adds_fill all

theorem forces_printText (feeds : '\n' ∈ value) : Yields (page.printText child value) Doc.Forces := by
  obtain ⟨above, -, -⟩ := preformatted.linked shaped
  obtain ⟨element, isElement⟩ := preformatted.element
  have outside : ((page.tree.parent? child).any fun parent => (page.tree.kind parent).isInterpolation) = false := by
    rw [above, Option.any_some, isElement]
    rfl
  have parts : Yields (page.textParts child value) (AnyHolds Doc.Forces) := by
    unfold textParts
    rw [above]
    simp only [Option.map_some, Option.getD_some, preformatted.kept.1, preformatted.kept.2, if_true]
    refine yields_bind forces_literalline fun separator forces => ?_
    exact forces_splitLines (by rwa [String.toList_ofList]) forces
  unfold printText
  rw [outside, if_neg Bool.false_ne_true]
  refine yields_bind yields_true fun first _ => yields_bind yields_true fun last _ => ?_
  refine yields_bind parts fun parts any => ?_
  exact yields_bind (anyHolds_wrapParts Doc.upward_forces any) fun _ any => upward_fill Doc.upward_forces any

/-- The text is the only child. -/
theorem triple_joinChildren {modes : Mode → Prop} {doc : Doc} (triple : doc.TripleIn modes before after) :
    Yields (joinChildren page.tree id [(child, doc)]) fun doc => doc.TripleIn modes before after := by
  obtain ⟨-, prev, -⟩ := preformatted.linked shaped
  have alone : separatorBefore? page.tree child = none := by
    unfold separatorBefore?
    rw [prev]
    rfl
  have ownLine : ownLine page.tree child doc = pure [doc] := by
    unfold ownLine
    rw [alone]
  have flowing (group : GroupId) : flowing page.tree child doc group none = pure [doc] := by
    unfold flowing flowingText
    rw [preformatted.isTextLikeNode, if_pos rfl, alone]
  unfold joinChildren
  split
  · refine yields_bind (yields_of_makes Layout.Build.makes_breakParent) fun first isBreak => ?_
    obtain ⟨mark, rfl⟩ := isBreak
    rw [List.mapM_cons, List.mapM_nil]
    dsimp only
    rw [ownLine]
    exact triple_concat (.cons (Doc.triple_of_verbatim?_nil rfl before) (Layout.triples_singleton triple))
  · rw [flowAll]
    refine yields_bind (yields_bind yields_true fun group _ => ?_) fun parts same => triple_concat same
    rw [flowing, pure_bind, flowAll, pure_bind]
    exact yields_pure (Layout.triples_singleton triple)

/-- The start tag is printed by the element itself. -/
theorem spellOpening_eq (kept : page.tree.isIgnored id = false) : page.tree.lendsOpeningEnd id = false ∧
    page.isSelfClosing id = false ∧ page.spellOpening id =
      visible (page.attributesText id) ++ visible (page.openingEndText id).toList := by
  obtain ⟨element, isElement⟩ := preformatted.element
  have opened : page.isSelfClosing id = false := by
    refine Bool.eq_false_iff.mpr fun closed => ?_
    have none := shaped.selfClosing closed
    rw [preformatted.only] at none
    cases none
  have keeps : page.tree.lendsOpeningEnd id = false := by
    unfold Tree.lendsOpeningEnd Tree.firstChild? Tree.borrowsParentOpeningEnd Tree.isGluedBefore
    rw [preformatted.only, List.head?_cons, Option.any_some, preformatted.sensitive.1, Bool.false_and, Bool.and_false]
  have alone : page.tree.borrower? ⟨id, .openingEnd⟩ = none :=
    if_neg (by rw [keeps]; exact Bool.false_ne_true)
  have prints : page.Prints id .openingEnd := by
    have tagged : page.IsTagged id := .inl ⟨element, isElement⟩
    obtain ⟨-, -, marked, -⟩ := tagged.marked
    exact ⟨kept, marked.trans (by rw [opened]; rfl)⟩
  refine ⟨keeps, opened, ?_⟩
  unfold spellOpening
  rw [isElement]
  dsimp only
  rw [spellMarker_of_none alone, spellOwn_of_prints prints, alone]
  rfl

omit shaped in
theorem openingEndText_eq : ∃ front, (page.openingEndText id).toList = front ++ ['>'] ∧ '\n' ∉ front := by
  obtain ⟨element, isElement⟩ := preformatted.element
  unfold openingEndText
  rw [isElement]
  dsimp only
  split
  · exact ⟨"><!--<![endif]--".toList, by decide, by decide⟩
  · exact ⟨[], by decide, List.not_mem_nil⟩

theorem dropLast_spellOpening (kept : page.tree.isIgnored id = false) :
    (page.spellOpening id).dropLast ++ ['>'] = page.spellOpening id := by
  obtain ⟨-, -, spelled⟩ := preformatted.spellOpening_eq shaped kept
  obtain ⟨front, bracket, -⟩ := preformatted.openingEndText_eq
  rw [spelled, bracket, visible_append, ← List.append_assoc, show visible ['>'] = ['>'] from rfl, List.dropLast_concat]

/-- What is seen of the page before the text ends with the end of the start tag. -/
theorem spelledUpTo_eq (laidOut : page.tree.LaidOut id) :
    page.spelledUpTo child = page.spelledUpTo id ++ (page.spellOpening id).dropLast ++ ['>'] := by
  have split : page.tree.children id = [] ++ child :: [] := preformatted.only
  have leaf : page.tree.children child = [] := shaped.leaf (by rw [preformatted.text]; rfl)
  obtain ⟨alone, -⟩ := Tree.borrower?_of_isTextLikeNode shaped.numbered split leaf preformatted.isTextLikeNode
  have bare : page.tree.hasMarker ⟨child, .openingStart⟩ = false :=
    hasMarker_of_isBare (by rw [preformatted.text]; rfl) _
  rw [spelledUpTo_child shaped.numbered laidOut split List.not_mem_nil, spellMarker_of_none alone,
    spellOwn_of_noMarker bare, List.flatMap_nil, List.append_nil, List.append_nil, List.append_assoc,
    preformatted.dropLast_spellOpening shaped (isIgnored_of_laidOut shaped laidOut)]

variable (declines : page.Declines) (kept : page.tree.isIgnored id = false)
  (printed : page.tree.preservesContent id = false) (seen : List Char)

include declines kept printed

theorem triple_openingTag : Printing.Yields (page.openingTag id) fun doc =>
    doc.Triple (.sees seen) (opened (seen ++ (page.head id ++ page.spellOpening id))) := by
  obtain ⟨element, isElement⟩ := preformatted.element
  have tagged : page.IsTagged id := .inl ⟨element, isElement⟩
  have once := timesBorrowed_eq_one kept printed tagged.isMute
  obtain ⟨keeps, open_, spelled⟩ := preformatted.spellOpening_eq shaped kept
  obtain ⟨front, bracket, flat⟩ := preformatted.openingEndText_eq
  have stop (seen : List Char) : Yields (page.own id .openingEnd) fun doc =>
      doc.Triple (.sees seen) (opened (seen ++ visible (page.openingEndText id).toList)) := by
    refine (yields_of_makes (lays_text (page.openingEndText id))).mono fun doc same => ?_
    refine (Doc.adds_of_verbatim? same (.sees seen)).mono (fun _ _ holds => holds) ?_
    rintro ending _ ⟨out, rfl, rfl⟩
    refine ⟨by rw [visible_append, Text.visible_writtenChars], ?_⟩
    rw [bracket, writtenChars_append, ← List.append_assoc]
    exact List.getLast?_concat
  have start : Yields (page.openingStart id) (Doc.Inked (page.head id)) := by
    unfold head
    rw [spellBorrowed_once once]
    exact inks_openingStart ⟨kept, tagged.marked.1⟩
  have lead : seen ++ (page.head id ++ page.spellOpening id) = seen ++ page.head id ++
      visible (page.attributesText id) ++ visible (page.openingEndText id).toList := by
    rw [spelled]
    simp only [List.append_assoc]
  unfold openingTag openingEnd
  rw [open_, keeps, if_neg Bool.false_ne_true, lead]
  refine Printing.yields_bind (Printing.yields_lift start) fun start inked => ?_
  refine Printing.yields_bind (inks_printAttributes declines) fun attributes inkedAttributes => ?_
  dsimp only
  rw [if_neg Bool.false_ne_true]
  refine Printing.yields_bind (Printing.yields_lift (stop (seen ++ page.head id ++ visible (page.attributesText id))))
    fun last ends => Printing.yields_lift (triple_concat ?_)
  exact .cons (Doc.triple_sees inked seen) (.cons (Doc.triple_sees inkedAttributes _) (Layout.triples_singleton ends))

omit declines kept printed in
theorem triple_body (closing : (page.closingStartText id).toList = tag) (flat : '\n' ∉ tag) (solid : EndsSolid tag)
    {doc : Doc} (printed : doc.Adds (value ++ (page.closingStartText id).toList)) (tagGroup : GroupId)
    {modes : Mode → Prop} (broken : modes .flat → value.head? ≠ some '\n') :
    Yields (page.body id [(child, doc)] tagGroup) fun doc =>
      doc.TripleIn modes (opened seen) (.shown seen.dropLast (betweenTags value tag)) := by
  have first : page.tree.firstChild? id = some child := by
    unfold Tree.firstChild?
    rw [preformatted.only]
    rfl
  have last : page.tree.lastChild? id = some child := by
    unfold Tree.lastChild?
    rw [preformatted.only]
    rfl
  have breaks : Yields (if page.tree.breaksContent id then Build.breakParent else Build.empty) fun doc =>
      doc.TripleIn modes (opened seen) (opened seen) := by
    split
    · refine (yields_of_makes Layout.Build.makes_breakParent).mono fun doc isBreak => ?_
      obtain ⟨mark, rfl⟩ := isBreak
      exact Doc.triple_of_verbatim?_nil rfl _
    · exact (yields_of_makes (lays_text "")).mono fun doc same => Doc.triple_of_verbatim?_nil same _
  -- What is written up to the text, and then up to the end tag.
  let led : Assertion := fun ending cs => ∃ out lead, opened seen ending out ∧
    ((modes .flat ∧ lead = []) ∨ lead = ['\n']) ∧ cs = out ++ writtenChars ending lead
  have shown (ending : Text.LineEnding) (cs : List Char) (written : led.followedBy (value ++ tag) ending cs) :
      Assertion.shown seen.dropLast (betweenTags value tag) ending cs := by
    obtain ⟨_, ⟨out, lead, ⟨rfl, isLast⟩, some, rfl⟩, rfl⟩ := written
    obtain ⟨front, rfl⟩ := List.getLast?_eq_some_iff.mp isLast
    have some := some.imp_left fun both => And.intro (broken both.1) both.2
    obtain ⟨last, isLast, noBlank⟩ := solid
    refine ⟨front, '>' :: (writtenChars ending (lead ++ value) ++ tag), [], ?_, ⟨lead, some, rfl⟩, ?_, last, ?_, noBlank⟩
    · rw [visible_append]
      exact List.dropLast_concat.symm
    · simp [writtenChars_append, Text.writtenChars_of_not_mem ending flat]
    · rw [List.getLast?_cons, List.getLast?_append, isLast]
      rfl
  unfold body
  rw [first, last]
  dsimp only
  rw [preformatted.hugsContent]
  refine yields_bind (preformatted.yields_lineBefore tagGroup) fun before isLine => ?_
  obtain ⟨mark, lineMark, rfl⟩ := isLine
  have inside : doc.TripleIn modes led (led.followedBy (value ++ tag)) := by
    rw [← closing]
    exact Doc.tripleIn_of_triple (printed led)
  refine yields_bind (preformatted.triple_joinChildren shaped inside) fun joined triple => ?_
  have line : (Doc.align mark .dedentToRoot (.line lineMark .soft)).TripleIn modes (opened seen) led :=
    Doc.triple_dedentedLine mark lineMark fun _ out holds => ⟨'>', holds.2, by decide⟩
  refine yields_bind (triple_concat (.cons line (Layout.triples_singleton triple))) fun content triple => ?_
  rw [if_neg Bool.false_ne_true]
  refine yields_bind (triple_indent triple) fun indented triple => ?_
  refine triple_triple breaks (yields_pure (triple.mono (fun _ _ holds => holds) shown)) ?_
  exact yields_true.mono fun doc _ => doc.triple_shown _ _

theorem triple_printElement (closing : (page.closingStartText id).toList = tag) (flat : '\n' ∉ tag)
    (solid : EndsSolid tag) {doc : Doc} (adds : doc.Adds (value ++ (page.closingStartText id).toList))
    (forced : '\n' ∈ value → doc.Forces) :
    Printing.Yields (page.printElement id [(child, doc)]) fun doc => doc.Triple (.sees seen)
      (.shown (seen ++ (page.head id ++ page.spellOpening id)).dropLast (betweenTags value tag)) := by
  -- A text that begins with a line feed breaks the element, so that it is not laid out flat.
  let modes : Mode → Prop := fun mode => mode = .flat → value.head? ≠ some '\n'
  have inBroken : modes .broken := fun isFlat => Mode.noConfusion isFlat
  have body (seen : List Char) (tagGroup : GroupId) : Yields (page.body id [(child, doc)] tagGroup) fun body =>
      body.TripleIn modes (opened seen) (.shown seen.dropLast (betweenTags value tag)) ∧
        (value.head? = some '\n' → body.Forces) := by
    refine yields_and (preformatted.triple_body shaped seen closing flat solid adds tagGroup fun allowed => allowed rfl)
      (yields_imp fun leads => ?_)
    have any : ChildHolds Doc.Forces [(child, doc)] :=
      ⟨_, List.mem_singleton_self _, forced (List.mem_of_mem_head? leads)⟩
    exact upward_body Doc.upward_forces any (preformatted.only ▸ List.cons_ne_nil _ _) tagGroup
  unfold printElement
  refine Printing.yields_bind Printing.yields_true fun tagGroup _ => ?_
  have inside := body (seen ++ (page.head id ++ page.spellOpening id)) tagGroup
  refine Printing.yields_bind (Printing.yields_lift inside) fun body both => ?_
  obtain ⟨within, forces⟩ := both
  refine Printing.yields_bind (preformatted.triple_openingTag shaped declines kept printed seen) fun start opens => ?_
  have grouped := triple_groupWith opens trivial (.inl trivial) (some tagGroup) false
  refine Printing.yields_bind (Printing.yields_lift grouped) fun opening opens => ?_
  refine Printing.yields_bind Printing.yields_true fun last _ => ?_
  have parts : TriplesIn modes [opening, body, last] (.sees seen) (.shown _ (betweenTags value tag)) :=
    .cons (Doc.tripleIn_of_triple opens) (.cons within (Layout.triples_singleton (last.triple_shown _ _)))
  have breaks (leads : value.head? = some '\n') : AnyHolds Doc.Forces [opening, body, last] :=
    ⟨body, List.mem_cons_of_mem _ List.mem_cons_self, forces leads⟩
  have forces := yields_imp fun leads => upward_concat Doc.upward_forces (breaks leads)
  have whole := yields_and (triple_concat parts) forces
  refine Printing.yields_bind (Printing.yields_lift whole) fun whole both => ?_
  obtain ⟨shows, forces⟩ := both
  refine Printing.yields_lift (triple_groupWith shows inBroken ?_ _ _)
  by_cases leads : value.head? = some '\n'
  · exact .inr (forces leads)
  · exact .inl fun _ => leads

/-- The text begins behind the last character of the start tag. -/
theorem shows_printElement_text (closing : (page.closingStartText id).toList = tag) (flat : '\n' ∉ tag)
    (solid : EndsSolid tag) {doc : Doc} (adds : doc.Adds (value ++ (page.closingStartText id).toList))
    (forced : '\n' ∈ value → doc.Forces) :
    Printing.Yields (page.printElement id [(child, doc)])
      (Doc.Shows (betweenTags value tag) (page.head id ++ (page.spellOpening id).dropLast)) := by
  have some : page.spellOpening id ≠ [] := by
    rw [← preformatted.dropLast_spellOpening shaped kept]
    exact List.append_ne_nil_of_right_ne_nil _ (List.cons_ne_nil _ _)
  refine Printing.yields_forall fun seen => ?_
  rw [← List.dropLast_append_of_ne_nil some, ← List.dropLast_append_of_ne_nil (List.append_ne_nil_of_right_ne_nil _ some)]
  exact preformatted.triple_printElement shaped declines kept printed seen closing flat solid adds forced

/-- The element is printed with the text between its tags, as far as the source tells where it ends. -/
theorem shows_printNode (closing : (page.closingStartText id).toList = tag) (flat : '\n' ∉ tag)
    (solid : EndsSolid tag) {depth : Nat} (deep : page.tree.size ≤ depth + id) :
    Printing.Yields (page.printNode (page.tree.outlineTo depth id))
      (Doc.Shows (betweenTags value tag) (page.head id ++ (page.spellOpening id).dropLast)) := by
  obtain ⟨element, isElement⟩ := preformatted.element
  obtain ⟨above, prev, -⟩ := preformatted.linked shaped
  have member : child ∈ page.tree.children id := by
    rw [preformatted.only]
    exact List.mem_singleton_self child
  have around : (page.tree.kind id).canHaveChildren = true := by
    rw [isElement]
    rfl
  have keptChild : page.tree.isIgnored child = false := by
    unfold Tree.isIgnored
    rw [prev]
    rfl
  have own : page.tree.preservesContent child = false := by
    refine preservesContent_eq_false ?_
    rintro (⟨_, same⟩ | ⟨_, _, same⟩) <;> rw [preformatted.text] at same <;> cases same
  have alone : page.embedded? child = pure none := by
    unfold embedded?
    rw [preformatted.text, above]
    dsimp only
    rw [preformatted.notScript, isElement]
    rfl
  obtain ⟨later, inside⟩ := shaped.numbered.later member
  cases depth with
  | zero => exact absurd (later.trans inside) (Nat.not_lt_of_le (Nat.zero_add id ▸ deep))
  | succ depth =>
    have text : Printing.Yields (page.printNode (page.tree.outlineTo depth child))
        fun doc => doc.Adds (value ++ (page.closingStartText id).toList) ∧ ('\n' ∈ value → doc.Forces) := by
      rw [outlineTo_eq, printNode, alone, pure_bind]
      dsimp only
      rw [own, if_neg Bool.false_ne_true]
      refine Printing.yields_bind Printing.yields_true fun _ _ => ?_
      unfold assemble
      rw [preformatted.text]
      dsimp only
      rw [String.toList_ofList]
      have forces := yields_imp fun feeds => preformatted.forces_printText shaped feeds
      exact Printing.yields_lift (yields_and (preformatted.adds_printText shaped) forces)
    have texts : Printing.Yields (page.printNodes [page.tree.outlineTo depth child]) fun docs =>
        ∃ doc, docs = [(child, doc)] ∧ doc.Adds (value ++ (page.closingStartText id).toList) ∧
          ('\n' ∈ value → doc.Forces) := by
      rw [outlineTo_eq, printNodes, keptChild, if_neg Bool.false_ne_true, ← outlineTo_eq, printNodes]
      exact Printing.yields_bind text fun doc adds => Printing.yields_pure ⟨doc, rfl, adds⟩
    rw [Tree.outlineTo, printNode, embedded?_of_canHaveChildren around, pure_bind]
    dsimp only
    rw [printed, if_neg Bool.false_ne_true, preformatted.only]
    refine Printing.yields_bind texts fun docs found => ?_
    obtain ⟨doc, rfl, adds, forced⟩ := found
    unfold assemble
    rw [isElement]
    exact preformatted.shows_printElement_text shaped declines kept printed closing flat solid adds forced

end Preformatted

/-! ### Runs in texts -/

section Runs

variable {run : List Char} {wanted : Assertion}

variable (unbroken : ∀ c ∈ run, isMarkupSpace c = false) (nonempty : run ≠ []) (wants : ∀ ending, wanted ending run)

include unbroken nonempty wants

theorem showsAmong_words {before after : List (List Char)} {front back : List Char} :
    Yields ((before ++ (front ++ run ++ back) :: after).mapM fun word => Build.text (String.ofList word))
      (ShowsAmong wanted (visible (before.flatten ++ front))) := by
  obtain ⟨flat, solid⟩ := Text.ends_of_unbroken unbroken nonempty
  have written (ending : Text.LineEnding) := (Text.writtenChars_of_not_mem ending flat).symm ▸ wants ending
  induction before with
  | nil =>
    have word := yields_of_makes (lays_text (String.ofList (front ++ run ++ back)))
    rw [String.toList_ofList] at word
    rw [List.nil_append, List.mapM_cons]
    exact yields_bind word fun _ same => yields_bind yields_true fun _ _ =>
      yields_pure (.here (Doc.shows_of_adds (Doc.adds_of_verbatim? same) written solid))
  | cons word before ih =>
    have inks := inks_text (String.ofList word)
    rw [String.toList_ofList] at inks
    rw [List.cons_append, List.mapM_cons, List.flatten_cons, List.append_assoc word, visible_append]
    exact yields_bind inks fun _ inked => yields_bind ih fun _ among => yields_pure (.there inked among)

variable (inside : run <:+: value) {parent : NodeId} (above : page.tree.parent? id = some parent)
  (outside : (page.tree.kind parent).isInterpolation = false)
  (kept : (page.tree.node parent).flags.whitespaceSensitive = true →
    (page.tree.node parent).flags.indentationSensitive = true)

include inside above outside kept

/-- A text that flows is broken between its words only, and one that keeps its lines is written as it is. -/
theorem shows_printText : ∃ front back, page.textContent id value = front ++ run ++ back ∧
    Yields (page.printText id value)
      (Doc.Shows wanted (page.borrowedInk (page.tree.borrowedBefore? id) ++ visible front)) := by
  obtain ⟨flat, solid⟩ := Text.ends_of_unbroken unbroken nonempty
  have written (ending : Text.LineEnding) := (Text.writtenChars_of_not_mem ending flat).symm ▸ wants ending
  have expression : page.tree.isExpression id = false := by
    unfold Tree.isExpression
    rw [above, Option.any_some, outside]
  have begins : Yields (page.before id) fun doc => doc.Inked (page.borrowedInk (page.tree.borrowedBefore? id)) ∧
      ∃ front, doc.verbatim? = some front ∧ visible front = page.borrowedInk (page.tree.borrowedBefore? id) := by
    refine yields_and (inks_borrowed page _) ((yields_of_makes (lays_text _)).mono fun doc same => ⟨_, same, ?_⟩)
    unfold borrowedInk
    cases page.tree.borrowedBefore? id <;> rfl
  have ends : Yields (page.after id) fun doc => ∃ back, doc.verbatim? = some back :=
    (yields_of_makes (lays_text _)).mono fun doc same => ⟨_, same⟩
  unfold printText textContent
  rw [expression, above, Option.any_some, outside, if_neg Bool.false_ne_true, if_neg Bool.false_ne_true]
  simp only [Option.map_some, Option.getD_some]
  cases sensitive : (page.tree.node parent).flags.whitespaceSensitive with
  | true =>
    obtain ⟨front, back, rfl⟩ := inside
    rw [if_pos rfl, if_pos (kept sensitive)]
    refine ⟨front, back, rfl, ?_⟩
    refine yields_bind begins fun first ⟨_, lead, isLead, seen⟩ => yields_bind ends fun last ⟨tail, isTail⟩ => ?_
    refine yields_bind (lays_textParts above ⟨sensitive, kept sensitive⟩) fun parts all => ?_
    refine yields_bind (lays_wrapParts isLead isTail all) fun parts all => (adds_fill all).mono fun doc adds => ?_
    have split : lead ++ (front ++ run ++ back) ++ tail = (lead ++ front) ++ run ++ (back ++ tail) := by
      simp only [List.append_assoc]
    rw [← seen, ← visible_append]
    exact Doc.shows_of_adds (split ▸ adds) written solid
  | false =>
    obtain ⟨word, isWord, front, back, rfl⟩ := Text.exists_word_of_infix unbroken nonempty inside
    obtain ⟨before, after, split⟩ := List.append_of_mem isWord
    rw [if_neg Bool.false_ne_true, split]
    refine ⟨before.flatten ++ front, back ++ after.flatten, by simp, ?_⟩
    have words := @showsAmong_words run wanted unbroken nonempty wants before after front back
    have parts : Yields (page.textParts id value) (ShowsAmong wanted (visible (before.flatten ++ front))) := by
      unfold textParts
      rw [above]
      simp only [Option.map_some, Option.getD_some, sensitive, Bool.false_eq_true, if_false, split]
      exact yields_bind inks_line fun separator blank => yields_bind words fun docs among =>
        yields_pure (among.intersperse blank)
    refine yields_bind begins fun first ⟨inked, _⟩ => yields_bind ends fun last _ => yields_bind parts fun parts among => ?_
    exact yields_bind (showsAmong_wrapParts inked among) fun parts among => shows_fill among

theorem shows_printNode_text (text : page.tree.kind id = .text (String.ofList value))
    (unignored : page.tree.isIgnored id = false) (notScript : isScriptLike (page.tree.kind parent) = false) :
    ∃ front back, page.textContent id value = front ++ run ++ back ∧ ∀ depth,
      Printing.Yields (page.printNode (page.tree.outlineTo depth id))
        (Doc.Shows wanted (page.head id ++ visible front)) := by
  have bare : isBare (page.tree.kind id) = true := by
    rw [text]
    rfl
  have plain := plain_of_isBare unignored bare
  have speaks : page.tree.isMute id = false := by
    unfold Tree.isMute Tree.isExpression
    rw [text, above, Option.any_some]
    exact outside
  have alone : page.embedded? id = pure none := by
    unfold embedded?
    rw [text, above]
    dsimp only
    rw [notScript, outside]
    rfl
  obtain ⟨front, back, content, shows⟩ := shows_printText unbroken nonempty wants inside above outside kept
  refine ⟨front, back, content, fun depth => ?_⟩
  unfold head
  rw [spellBorrowed_once (timesBorrowed_eq_one plain.kept plain.printed speaks),
    spellOwn_of_noMarker (hasMarker_of_isBare bare _), List.append_nil, outlineTo_eq, printNode, alone, pure_bind]
  dsimp only
  rw [plain.printed, if_neg Bool.false_ne_true]
  refine Printing.yields_bind Printing.yields_true fun _ _ => ?_
  unfold assemble
  rw [text]
  dsimp only
  rw [String.toList_ofList]
  exact Printing.yields_lift shows

end Runs

end Page

end MarkupFormat.Print
