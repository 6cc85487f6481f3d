import MarkupFormat.Proofs.Print.Parts

/-!
# Printed nodes

What is seen of a node, given what is seen of its children. Every kind that has tags consults who borrows what in
the same way, through the parts of a page. Three kinds of nodes stand apart: one that is left as it is prints
what it borrows around its source; one whose content is copied prints that twice, around its tags and in them
(`inks_printCopied`); and a directive asks for nothing, and so prints nothing of its neighbours.
-/

namespace MarkupFormat.Print

open Layout (Build Doc GroupId)
open Layout.Build (Inks InksAll inks_concat inks_empty inks_group inks_groupWith inks_hardline inks_indent
  inks_line inks_pair inks_seq inks_softline inks_text inks_triple yields_bind yields_pure)
open Layout.Doc (Inked InkedAll inkedAll_cons inkedAll_nil inkedAll_singleton)
open Markup (NodeId OwnedMarker Tree)
open Text (visible visible_append)

namespace Page

variable {page : Page} {id : NodeId} {cs : List Char}

/-! ### Elements -/

theorem inks_lineBefore (first : Markup.Node) (tagGroup : GroupId) : Inks (page.lineBefore id first tagGroup) [] := by
  unfold lineBefore
  split
  · exact yields_bind inks_softline fun _ broken => yields_bind inks_empty fun _ flat =>
      Layout.Build.inks_ifBreakFor broken flat _
  · split
    · exact inks_line
    · split
      · exact yields_bind inks_softline fun _ inked => Layout.Build.inks_dedentToRoot inked
      · exact inks_softline

theorem inks_lineAfter (last : Markup.Node) (tagGroup : GroupId) : Inks (page.lineAfter id last tagGroup) [] := by
  unfold lineAfter
  split
  · split
    · exact inks_text " "
    · exact inks_empty
  · split
    · exact yields_bind inks_softline fun _ broken => yields_bind inks_empty fun _ flat =>
        Layout.Build.inks_ifBreakFor broken flat _
    · split
      · exact inks_line
      · split
        · exact inks_empty
        · exact inks_softline

theorem inks_emptyBody : Inks (page.emptyBody id) [] := by
  unfold emptyBody
  dsimp only
  split
  · exact inks_line
  · exact inks_empty

variable {ink : NodeId → List Char} {docs : List (NodeId × Doc)}

theorem inks_body (written : Written ink docs) (all : docs.map (·.1) = page.tree.children id) (tagGroup : GroupId) :
    Inks (page.body id docs tagGroup) (docs.flatMap fun pair => ink pair.1) := by
  unfold body
  split
  · next first last _ _ =>
    refine yields_bind (inks_lineBefore _ _) fun before blank => ?_
    refine yields_bind (inks_joinChildren written id) fun children inked => ?_
    refine yields_bind (inks_concat (inkedAll_cons blank (inkedAll_singleton inked))) fun content inkedContent => ?_
    have finish {breaks : Build Doc} (inksBreaks : Inks breaks []) {indented : Doc}
        (inkedIndent : Inked (docs.flatMap fun pair => ink pair.1) indented) :
        Inks (Build.seq [breaks, return indented, page.lineAfter id (page.tree.node last) tagGroup])
          (docs.flatMap fun pair => ink pair.1) := by
      rw [← List.append_nil (docs.flatMap _)]
      exact inks_triple inksBreaks (yields_pure inkedIndent) (inks_lineAfter _ tagGroup)
    split
    · split
      · exact yields_bind (Layout.Build.inks_indentIfBreak inkedContent tagGroup false) fun _ inked =>
          finish Layout.Build.inks_breakParent inked
      · exact yields_bind (inks_indent inkedContent) fun _ inked => finish Layout.Build.inks_breakParent inked
    · split
      · exact yields_bind (Layout.Build.inks_indentIfBreak inkedContent tagGroup false) fun _ inked =>
          finish inks_empty inked
      · exact yields_bind (inks_indent inkedContent) fun _ inked => finish inks_empty inked
  · next none =>
    have empty : docs = [] := by
      cases docs with
      | nil => rfl
      | cons pair rest =>
        have some : page.tree.children id ≠ [] := by
          rw [← all]
          exact List.cons_ne_nil _ _
        exact (none _ _ (List.head?_eq_some_head some) (List.getLast?_eq_some_getLast some)).elim
    rw [empty]
    exact inks_emptyBody

theorem inks_printElement (declines : page.Declines) (tagged : page.IsTagged id)
    (kept : page.tree.isIgnored id = false) (placed : Placed page.tree id) (written : Written ink docs)
    (all : docs.map (·.1) = page.tree.children id) :
    Printing.Inks (page.printElement id docs)
      (page.borrowedInk (page.tree.borrowedBefore? id) ++ page.spellOwn ⟨id, .openingStart⟩ ++
          visible (page.attributesText id) ++ page.spellOwn ⟨id, .openingEnd⟩ ++
        ((docs.flatMap fun pair => ink pair.1) ++ (page.closingInk id ++
          (page.spellOwn ⟨id, .closingEnd⟩ ++ page.borrowedInk (page.tree.borrowedAfter? id))))) := by
  unfold printElement
  refine Printing.yields_bind (Printing.yields_lift Layout.Build.yields_freshGroup) fun tagGroup _ => ?_
  refine Printing.yields_bind (Printing.yields_lift (inks_body written all tagGroup)) fun body inkedBody => ?_
  refine Printing.yields_bind (inks_openingTag declines tagged kept) fun opening inkedOpening => ?_
  refine Printing.yields_bind (Printing.yields_lift (inks_groupWith inkedOpening _ _)) fun start inkedStart => ?_
  refine Printing.yields_bind (Printing.yields_lift (inks_closingTag tagged kept placed)) fun closing inkedClosing => ?_
  refine Printing.yields_bind (Printing.yields_lift
    (inks_concat (inkedAll_cons inkedStart (inkedAll_cons inkedBody (inkedAll_singleton inkedClosing)))))
    fun whole inkedWhole => ?_
  exact Printing.yields_lift (inks_group inkedWhole)

/-- A node whose content is copied prints twice what it borrows. -/
theorem spellBorrowed_twice (kept : page.tree.isIgnored id = false) (copied : page.tree.preservesContent id = true)
    (tagged : page.IsTagged id) (owned : Option OwnedMarker) :
    page.spellBorrowed id owned = page.borrowedInk owned ++ page.borrowedInk owned := by
  unfold spellBorrowed Tree.timesBorrowed
  rw [kept, copied, tagged.isMute]
  simp

theorem inks_printCopied (declines : page.Declines) (kept : page.tree.isIgnored id = false)
    (copied : page.tree.preservesContent id = true) (tagged : page.IsTagged id) (placed : Placed page.tree id)
    (children : List Char) :
    Printing.Inks (page.printCopied id) (page.head id ++ page.spellInner id children ++ page.tail id) := by
  have same : page.head id ++ page.spellInner id children ++ page.tail id =
      page.borrowedInk (page.tree.borrowedBefore? id) ++
        ((page.borrowedInk (page.tree.borrowedBefore? id) ++ page.spellOwn ⟨id, .openingStart⟩ ++
          visible (page.attributesText id) ++ page.spellOwn ⟨id, .openingEnd⟩) ++
        (visible (page.innerSource id).toList ++ ((page.closingInk id ++
          (page.spellOwn ⟨id, .closingEnd⟩ ++ page.borrowedInk (page.tree.borrowedAfter? id))) ++
          page.borrowedInk (page.tree.borrowedAfter? id)))) := by
    have inside : (if (page.tree.lendsClosingStart id || page.isSelfClosing id) = true then []
        else page.borrowedInk (page.tree.borrowedInside? id)) =
        if page.isSelfClosing id = true then [] else page.spellInside id := by
      unfold spellInside
      cases page.isSelfClosing id <;> cases page.tree.lendsClosingStart id <;> rfl
    unfold head tail spellInner closingInk
    rw [kept, copied, spellBorrowed_twice kept copied tagged, spellBorrowed_twice kept copied tagged,
      if_neg Bool.false_ne_true, if_pos rfl, inside]
    simp only [List.append_assoc]
  rw [same]
  unfold printCopied
  refine Printing.yields_bind (Printing.yields_lift (inks_borrowed page _)) fun before inkedBefore => ?_
  refine Printing.yields_bind (inks_openingTag declines tagged kept) fun opening inkedOpening => ?_
  refine Printing.yields_bind (Printing.yields_lift (inks_group inkedOpening)) fun start inkedStart => ?_
  refine Printing.yields_bind (Printing.yields_lift (inks_literalText _)) fun content inkedContent => ?_
  refine Printing.yields_bind (Printing.yields_lift (inks_closingTag tagged kept placed)) fun closing inkedClosing => ?_
  refine Printing.yields_bind (Printing.yields_lift (inks_borrowed page _)) fun after inkedAfter => ?_
  exact Printing.yields_lift (inks_concat (inkedAll_cons inkedBefore (inkedAll_cons inkedStart
    (inkedAll_cons inkedContent (inkedAll_cons inkedClosing (inkedAll_singleton inkedAfter))))))

/-- A node that is left as it is prints once what it borrows, and none of its own markers. -/
theorem spell_ends_of_ignored (ignored : page.tree.isIgnored id = true) :
    page.head id = page.borrowedInk (page.tree.borrowedBefore? id) ∧
      page.tail id = page.borrowedInk (page.tree.borrowedAfter? id) := by
  have once (owned : Option OwnedMarker) : page.spellBorrowed id owned = page.borrowedInk owned := by
    unfold spellBorrowed Tree.timesBorrowed
    rw [ignored, if_pos rfl]
    exact List.append_nil _
  have nothing (marker : Markup.Marker) : page.spellOwn ⟨id, marker⟩ = [] := by
    unfold spellOwn
    rw [ignored, Bool.not_true, Bool.and_false]
    rfl
  unfold head tail
  rw [once, once, nothing .openingStart, nothing .closingEnd, List.append_nil, List.nil_append]
  exact ⟨rfl, rfl⟩

theorem inks_printIgnored (ignored : page.tree.isIgnored id = true) (children : List Char) :
    Inks (page.printIgnored id) (page.head id ++ page.spellInner id children ++ page.tail id) := by
  obtain ⟨head, tail⟩ := spell_ends_of_ignored ignored
  unfold spellInner
  rw [head, tail, if_pos ignored, List.append_assoc]
  exact inks_triple (inks_borrowed page _) (inks_literalText (page.ignoredSource id)) (inks_borrowed page _)

/-! ### Nodes without children -/

theorem spellBorrowed_once (once : page.tree.timesBorrowed id = 1) (owned : Option OwnedMarker) :
    page.spellBorrowed id owned = page.borrowedInk owned := by
  unfold spellBorrowed
  rw [once]
  exact List.append_nil _

theorem isTagged_of_preservesContent (copied : page.tree.preservesContent id = true) : page.IsTagged id := by
  have normal : "pre".toList.isPrefixOf "normal".toList = false := by decide
  unfold Tree.preservesContent at copied
  dsimp only at copied
  cases kind : (page.tree.node id).kind with
  | element element => exact Or.inl ⟨element, kind⟩
  | conditional condition complete => exact Or.inr ⟨condition, complete, kind⟩
  | _ =>
    rw [kind] at copied
    unfold Annotate.isPreLike Annotate.whiteSpaceOf at copied
    dsimp only at copied
    rw [normal] at copied
    cases copied

theorem preservesContent_eq_false (plain : ¬page.IsTagged id) : page.tree.preservesContent id = false :=
  Bool.eq_false_iff.mpr fun copied => plain (isTagged_of_preservesContent copied)

theorem timesBorrowed_eq_one (kept : page.tree.isIgnored id = false)
    (copies : page.tree.preservesContent id = false) (speaks : page.tree.isMute id = false) :
    page.tree.timesBorrowed id = 1 := by
  unfold Tree.timesBorrowed
  rw [kept, speaks, copies]
  rfl

theorem inksAll_joinLast {ds es : List Char} {last part : Doc} {parts : List Doc} (inkedLast : Inked es last)
    (inkedPart : Inked cs part) (all : InkedAll ds parts) : InksAll (joinLast last part parts) (cs ++ ds ++ es) := by
  induction parts generalizing cs ds part with
  | nil =>
    obtain ⟨_, rfl⟩ := all
    refine yields_bind (inks_concat (inkedAll_cons inkedPart (inkedAll_singleton inkedLast))) fun _ inked => ?_
    rw [show cs ++ Layout.Doc.inkAll [] = cs from List.append_nil _]
    exact yields_pure (inkedAll_singleton inked)
  | cons next parts ih =>
    have first : Inked next.ink next := ⟨all.steady next List.mem_cons_self, rfl⟩
    have others : InkedAll (Layout.Doc.inkAll parts) parts :=
      ⟨fun other member => all.steady other (List.mem_cons_of_mem _ member), rfl⟩
    have same : ds = next.ink ++ Layout.Doc.inkAll parts := all.ink.symm
    rw [same, List.append_assoc cs]
    exact yields_bind (ih first others) fun _ joined => yields_pure (inkedAll_cons inkedPart joined)

theorem inksAll_wrapParts {ds es : List Char} {first last : Doc} {parts : List Doc} (inkedFirst : Inked cs first)
    (inkedLast : Inked es last) (all : InkedAll ds parts) : InksAll (wrapParts first last parts) (cs ++ ds ++ es) := by
  cases parts with
  | nil =>
    have none : ds = [] := all.ink.symm
    subst none
    refine yields_bind inks_empty fun _ blank => ?_
    refine yields_bind (inks_concat (inkedAll_cons inkedFirst (inkedAll_singleton blank))) fun _ inked => ?_
    have joined := inksAll_joinLast inkedLast inked inkedAll_nil
    rwa [List.append_nil] at joined
  | cons part parts =>
    have firstPart : Inked part.ink part := ⟨all.steady part List.mem_cons_self, rfl⟩
    have others : InkedAll (Layout.Doc.inkAll parts) parts :=
      ⟨fun other member => all.steady other (List.mem_cons_of_mem _ member), rfl⟩
    have same : ds = part.ink ++ Layout.Doc.inkAll parts := all.ink.symm
    refine yields_bind (inks_concat (inkedAll_cons inkedFirst (inkedAll_singleton firstPart))) fun _ inked => ?_
    rw [same, ← List.append_assoc cs]
    exact inksAll_joinLast inkedLast inked others

theorem inksAll_words (words : List (List Char)) :
    InksAll (words.mapM fun word => Build.text (String.ofList word)) (visible words.flatten) := by
  induction words with
  | nil => exact yields_pure inkedAll_nil
  | cons word rest ih =>
    rw [List.mapM_cons, List.flatten_cons, visible_append]
    have written := inks_text (String.ofList word)
    rw [String.toList_ofList] at written
    exact yields_bind written fun _ first => yields_bind ih fun _ others => yields_pure (inkedAll_cons first others)

theorem inksAll_textParts {value : List Char}
    (outside : page.tree.isExpression id = false) :
    InksAll (page.textParts id value) (visible (page.textContent id value)) := by
  have lines (content : List Char) {separator : Doc} (blank : Inked [] separator) :
      InksAll (Build.splitLines (String.ofList content) separator) (visible content) := by
    have written := Layout.Build.inksAll_splitLines (String.ofList content) blank
    rwa [String.toList_ofList] at written
  unfold textParts textContent
  rw [outside, if_neg Bool.false_ne_true]
  dsimp only
  split
  · split
    · exact yields_bind Layout.Build.inks_literalline fun _ blank => lines _ blank
    · exact yields_bind inks_hardline fun _ blank => lines _ blank
  · refine yields_bind inks_line fun separator blank => ?_
    exact yields_bind (inksAll_words (Text.words value)) fun _ all =>
      yields_pure (Layout.Doc.inkedAll_intersperse all blank)

theorem inks_expressionText (value : List Char) : Inks (expressionText value) (visible (splitFinalLine value).1) := by
  unfold expressionText
  have written := inks_literalText (String.ofList (splitFinalLine value).1)
  rw [String.toList_ofList] at written
  have pair {breaks : Build Doc} (inksBreaks : Inks breaks []) :
      Inks (Build.seq [literalText (String.ofList (splitFinalLine value).1), breaks])
        (visible (splitFinalLine value).1) := by
    have parts := inks_pair written inksBreaks
    rwa [List.append_nil] at parts
  dsimp only
  split
  · exact pair inks_hardline
  · exact pair inks_empty

theorem printText_of_isExpression {value : List Char} (expression : page.tree.isExpression id = true) :
    page.printText id value = expressionText value :=
  if_pos expression

theorem inks_printText {value : List Char}
    (outside : page.tree.isExpression id = false) :
    Inks (page.printText id value)
      (page.borrowedInk (page.tree.borrowedBefore? id) ++ visible (page.textContent id value) ++
        page.borrowedInk (page.tree.borrowedAfter? id)) := by
  have flows : page.printText id value = (do
      Build.fill (← wrapParts (← page.before id) (← page.after id) (← page.textParts id value))) :=
    if_neg (Bool.eq_false_iff.mp outside)
  rw [flows]
  refine yields_bind (inks_borrowed page _) fun first inkedFirst => ?_
  refine yields_bind (inks_borrowed page _) fun last inkedLast => ?_
  refine yields_bind (inksAll_textParts outside) fun parts all => ?_
  exact yields_bind (inksAll_wrapParts inkedFirst inkedLast all) fun _ wrapped =>
    Layout.Build.inks_fill wrapped

theorem inks_printDoctype {value : String} (kept : page.tree.isIgnored id = false)
    (doctype : page.tree.kind id = .doctype value) (placed : Placed page.tree id) :
    Inks (page.printDoctype id value)
      (page.borrowedInk (page.tree.borrowedBefore? id) ++ page.spellOwn ⟨id, .openingStart⟩ ++
          visible (normalizeDoctype value.toList) ++
        (page.spellOwn ⟨id, .closingEnd⟩ ++ page.borrowedInk (page.tree.borrowedAfter? id))) := by
  have marked : page.tree.hasMarker ⟨id, .openingStart⟩ = true ∧ page.tree.hasMarker ⟨id, .closingEnd⟩ = true := by
    unfold Tree.hasMarker
    simp only [doctype]
    exact ⟨trivial, trivial⟩
  have said := inks_text (String.ofList (normalizeDoctype value.toList))
  rw [String.toList_ofList] at said
  unfold printDoctype
  refine yields_bind (inks_triple (inks_openingStart ⟨kept, marked.1⟩) (inks_text " ") said) fun _ inked => ?_
  exact inks_pair (inks_group inked) (inks_closingEnd ⟨kept, marked.2⟩ placed)

theorem inks_printComment :
    Inks (page.printComment id)
      (page.borrowedInk (page.tree.borrowedBefore? id) ++
        (visible (page.sourceText (page.tree.node id).span).toList ++
          page.borrowedInk (page.tree.borrowedAfter? id))) :=
  inks_triple (inks_borrowed page _) (inks_literalText _) (inks_borrowed page _)

/-! ### Parts in other languages -/

/-- Empty front matter is printed as its delimiters, and other front matter is left to what prints it as it is. -/
theorem inks_embeddedFrontMatter? (declines : page.Declines) (block : Markup.FrontMatter) :
    Printing.Yields (page.embeddedFrontMatter? block) fun answer =>
      match answer with
      | none => frontMatterText block = block.raw
      | some doc => Inked (visible (frontMatterText block).toList) doc := by
  unfold embeddedFrontMatter?
  split
  · next other => exact Printing.yields_pure (if_neg fun yaml => other yaml.1)
  · next yaml =>
    dsimp only
    split
    · next empty =>
      have blank : Printing.Yields (some <$> (liftM Build.empty : Printing Doc)) fun answer =>
          ∃ doc, answer = some doc ∧ Inked [] doc :=
        Printing.yields_map (Printing.yields_lift inks_empty) fun doc inked => ⟨doc, rfl, inked⟩
      refine Printing.yields_bind blank fun answer ⟨doc, same, inked⟩ => ?_
      subst same
      have delimiters := inks_seq (.cons (inks_text block.startDelimiter)
        (.cons (inks_text block.explicitLanguage) (.cons inks_hardline
          (.cons (yields_pure inked) (.cons inks_empty (.cons (inks_text block.endDelimiter) .nil))))))
      have same : [visible block.startDelimiter.toList, visible block.explicitLanguage.toList, [], [], [],
          visible block.endDelimiter.toList].flatten = visible (frontMatterText block).toList := by
        unfold frontMatterText
        rw [if_pos ⟨not_not.mp yaml, empty⟩]
        simp [visible_append, String.toList_append]
      rw [same] at delimiters
      refine Printing.yields_bind (Printing.yields_lift delimiters) fun body inkedBody => ?_
      refine Printing.yields_bind (Printing.yields_lift (Layout.Build.inks_markAsRoot inkedBody))
        fun _ whole => Printing.yields_pure whole
    · next some =>
      refine Printing.yields_bind (yields_embed declines _) fun answer none => ?_
      subst none
      exact Printing.yields_pure (if_neg fun both => some both.2)

/-- Without an embedder, nothing but front matter without content is taken from it. -/
theorem yields_embedded? (declines : page.Declines) :
    Printing.Yields (page.embedded? id) fun answer =>
      match answer with
      | none => ∀ block, page.tree.kind id = .frontMatter block → frontMatterText block = block.raw
      | some doc => ∃ block, page.tree.kind id = .frontMatter block ∧
          Inked (visible (frontMatterText block).toList) doc := by
  unfold embedded?
  split
  · next value parent isText _ =>
    have other : ∀ block, page.tree.kind id = .frontMatter block → frontMatterText block = block.raw := by
      intro block isFrontMatter
      rw [isText] at isFrontMatter
      cases isFrontMatter
    dsimp only
    split
    · unfold embeddedBody?
      split
      · exact Printing.yields_pure other
      · refine Printing.yields_bind (yields_embed declines _) fun answer none => ?_
        subst none
        exact Printing.yields_pure other
    · split
      · unfold embeddedExpression?
        refine Printing.yields_bind (yields_embed declines _) fun answer none => ?_
        subst none
        exact Printing.yields_pure other
      · exact Printing.yields_pure other
  · next block isFrontMatter =>
    intro requests
    refine (inks_embeddedFrontMatter? declines block requests).mono fun result answered => ?_
    revert answered
    cases result.1 with
    | none =>
      intro raw found same
      cases isFrontMatter.symm.trans same
      exact raw
    | some doc => exact fun inked => ⟨block, isFrontMatter, inked⟩
  · next noFrontMatter _ =>
    exact Printing.yields_pure fun block isFrontMatter => absurd isFrontMatter (noFrontMatter block)

end Page

end MarkupFormat.Print
