import MarkupFormat.Proofs.Print.Legible

/-!
# Legible pages are printed

No page that is legible fails to be printed (`spells_print`). There are two ways in which printing could fail. One is
a node without a layout, and character data is the only kind of these. The other is a fill whose parts do not
alternate: the parts of a text do, words and lines alike, and joining the markers of the neighbours to the first and
the last part leaves the lines between them where they are (`makes_wrapParts`).
-/

namespace MarkupFormat.Print

open Layout (Build Doc GroupId)
open Layout.Build (Makes Spells SpellsAll makes_bind makes_freshGroup makes_mapM makes_pure separates_hardline
  separates_line separates_literalline spells_align spells_breakParent spells_concat spells_empty spells_fill
  spells_group spells_groupWith spells_ifBreakFor spells_indent spells_indentIfBreak spells_pair spells_seq
  spells_softline spells_text spells_triple)
open Layout.Doc (AllTextsIn Alternating TextsIn allTextsIn_append allTextsIn_intersperse alternating_intersperse)
open Markup (FrontMatter NodeId NodeKind Outline Tree)
open Text (Within)

variable {p : Char → Prop}

/-! ### Parts of texts -/

/-- Parts that a text is filled with, if there are any. -/
structure Fills (p : Char → Prop) (parts : List Doc) : Prop where
  alternate : parts = [] ∨ Alternating parts
  texts : AllTextsIn p parts

theorem makes_joinLast {last : Doc} (after : last.TextsIn p) : ∀ (part : Doc) (parts : List Doc),
    Alternating (part :: parts) → AllTextsIn p (part :: parts) →
    Makes (joinLast last part parts) fun joined => Alternating joined ∧ AllTextsIn p joined
  | part, [], _, texts =>
    makes_bind (spells_concat ⟨texts.1, after, trivial⟩) fun _ whole => makes_pure ⟨trivial, whole, trivial⟩
  | part, [_], alternate, _ => absurd alternate.2 id
  | part, separator :: next :: parts, alternate, texts => by
    -- The line after a part is handed on as it is, and the join goes on with the part after it.
    rw [joinLast, joinLast, bind_assoc]
    refine makes_bind (makes_joinLast after next parts alternate.2 texts.2.2) fun joined both => ?_
    rw [pure_bind]
    exact makes_pure ⟨⟨alternate.1, both.1⟩, texts.1, texts.2.1, both.2⟩

theorem alternating_cons {first : Doc} {part : Doc} {parts : List Doc} (alternate : Alternating (part :: parts)) :
    Alternating (first :: parts) := by
  match parts, alternate with
  | [], _ => exact trivial
  | _ :: _, alternate => exact alternate

theorem makes_wrapParts {first last : Doc} {parts : List Doc} (before : first.TextsIn p) (after : last.TextsIn p)
    (fills : Fills p parts) :
    Makes (wrapParts first last parts) fun joined => Alternating joined ∧ AllTextsIn p joined := by
  obtain ⟨alternate, texts⟩ := fills
  cases parts with
  | nil =>
    have blank : Spells p Build.empty := spells_empty
    refine makes_bind blank fun _ nothing => ?_
    refine makes_bind (spells_concat ⟨before, nothing, trivial⟩) fun whole here => ?_
    exact makes_joinLast after whole [] trivial ⟨here, trivial⟩
  | cons part parts =>
    refine makes_bind (spells_concat ⟨before, texts.1, trivial⟩) fun whole here => ?_
    have alternate := alternate.resolve_left (List.cons_ne_nil _ _)
    exact makes_joinLast after whole parts (alternating_cons alternate) ⟨here, texts.2⟩

theorem subset_splitFinalLine (value : List Char) : (splitFinalLine value).1 ⊆ value := by
  unfold splitFinalLine
  split
  · next before same =>
    intro c member
    have inside : c ∈ (Text.dropEnd (fun c => Text.isWhiteSpace c && c ≠ '\n') value).reverse := by
      rw [same]
      exact List.mem_cons_of_mem _ (List.mem_reverse.mp member)
    exact Text.dropEnd_subset _ value (List.mem_reverse.mp inside)
  · exact List.Subset.refl _

theorem spells_expressionText {value : List Char} (within : Within p value) : Spells p (expressionText value) := by
  unfold expressionText
  dsimp only
  refine spells_pair (spells_literalText (Text.within_ofList (within.subset (subset_splitFinalLine value)))) ?_
  split
  · exact separates_hardline.spells
  · exact spells_empty

namespace Page

variable {page : Page} (legible : page.Legible p) {id : NodeId}

include legible

theorem makes_textParts {value : List Char} (within : Within p value) :
    Makes (page.textParts id value) (Fills p) := by
  have lines {content : List Char} {separator : Doc} (within : Within p content)
      (line : separator.isLineSeparator = true ∧ separator.TextsIn p) :
      Makes (Build.splitLines (String.ofList content) separator) (Fills p) :=
    (Layout.Build.makes_splitLines (Text.within_ofList within) line.1 line.2).mono fun _ parts =>
      ⟨Or.inr parts.1, parts.2⟩
  unfold textParts
  dsimp only
  split
  · split
    · exact makes_bind separates_literalline fun _ line => lines within line
    · have kept := within.subset (Text.trimKeepingIndentation_subset value)
      exact makes_bind separates_hardline fun _ line =>
        lines (Text.within_dedent (legible.admits _ (by decide)) kept) line
  · have between : Layout.Build.Separates p Build.line := separates_line
    refine makes_bind between fun separator line => ?_
    have each : Makes ((Text.words value).mapM fun word => Build.text (String.ofList word))
        (List.Forall₂ (fun _ => TextsIn p) (Text.words value)) :=
      makes_mapM fun word member => spells_text (Text.within_ofList
        (Text.within_words (legible.admits _ (by decide)) within word member))
    refine makes_bind each fun docs written => makes_pure ⟨?_, ?_⟩
    · cases docs with
      | nil => exact Or.inl rfl
      | cons doc docs => exact Or.inr (alternating_intersperse line.1 doc docs)
    · exact allTextsIn_intersperse (Layout.Build.allTextsIn_of_forall₂ written) line.2

theorem spells_printText {value : List Char} (within : Within p value) : Spells p (page.printText id value) := by
  unfold printText
  split
  · exact spells_expressionText within
  · refine makes_bind (spells_borrowed legible _) fun first before => ?_
    refine makes_bind (spells_borrowed legible _) fun last after => ?_
    refine makes_bind (makes_textParts legible within) fun parts fills => ?_
    exact makes_bind (makes_wrapParts before after fills) fun _ joined => spells_fill joined.1 joined.2

/-! ### Elements -/

theorem within_copy (start stop : Nat) : Within p (page.copy start stop).toList :=
  legible.source.subset (Text.slice_subset page.source _ _)

theorem spells_printIgnored (id : NodeId) : Spells p (page.printIgnored id) :=
  spells_triple (spells_borrowed legible _) (spells_literalText (within_copy legible _ _)) (spells_borrowed legible _)

theorem spells_printCopied (id : NodeId) : Printing.Spells p (page.printCopied id) := by
  have inner : Within p (page.innerSource id).toList := within_copy legible _ _
  refine Printing.makes_bind (Printing.makes_lift (spells_borrowed legible _)) fun before first => ?_
  refine Printing.makes_bind (spells_openingTag legible id) fun tag opening => ?_
  refine Printing.makes_bind (Printing.makes_lift (spells_group opening)) fun group start => ?_
  refine Printing.makes_bind (Printing.makes_lift (spells_literalText inner)) fun content middle => ?_
  refine Printing.makes_bind (Printing.makes_lift (spells_closingTag legible id)) fun closing stop => ?_
  refine Printing.makes_bind (Printing.makes_lift (spells_borrowed legible _)) fun after last => ?_
  exact Printing.makes_lift (spells_concat ⟨first, start, middle, stop, last, trivial⟩)

omit legible in
theorem spells_hug (tagGroup : GroupId) :
    Spells p (do Build.ifBreakFor (← Build.softline) (← Build.empty) (some tagGroup)) :=
  makes_bind spells_softline fun _ broken => makes_bind spells_empty fun _ flat =>
    spells_ifBreakFor (some tagGroup) broken flat

omit legible in
theorem spells_lineBefore (first : Markup.Node) (tagGroup : GroupId) :
    Spells p (page.lineBefore id first tagGroup) := by
  unfold lineBefore
  split
  · exact spells_hug tagGroup
  · split
    · exact separates_line.spells
    · split
      · exact makes_bind spells_softline fun _ line => spells_align .dedentToRoot line
      · exact spells_softline

theorem spells_lineAfter (last : Markup.Node) (tagGroup : GroupId) : Spells p (page.lineAfter id last tagGroup) := by
  unfold lineAfter
  split
  · split
    · exact spells_text (within_constant legible (by decide))
    · exact spells_empty
  · split
    · exact spells_hug tagGroup
    · split
      · exact separates_line.spells
      · split
        · exact spells_empty
        · exact spells_softline

variable {children : List (NodeId × Doc)}

theorem spells_body (printed : AllPrinted p children) (tagGroup : GroupId) :
    Spells p (page.body id children tagGroup) := by
  unfold body
  split
  · next first last _ _ =>
    have finish {breaks : Build Doc} (line : Spells p breaks) {indented : Doc} (inside : indented.TextsIn p) :
        Spells p (Build.seq [breaks, return indented, page.lineAfter id (page.tree.node last) tagGroup]) :=
      spells_triple line (makes_pure inside) (spells_lineAfter legible _ tagGroup)
    have start : Spells p (page.lineBefore id (page.tree.node first) tagGroup) := spells_lineBefore _ tagGroup
    refine makes_bind start fun before line => ?_
    refine makes_bind (spells_joinChildren printed id) fun joined inside => ?_
    refine makes_bind (spells_concat ⟨line, inside, trivial⟩) fun content here => ?_
    split
    · split
      · exact makes_bind (spells_indentIfBreak tagGroup false here) fun _ => finish spells_breakParent
      · exact makes_bind (spells_indent here) fun _ => finish spells_breakParent
    · split
      · exact makes_bind (spells_indentIfBreak tagGroup false here) fun _ => finish spells_empty
      · exact makes_bind (spells_indent here) fun _ => finish spells_empty
  · unfold emptyBody
    dsimp only
    split
    · exact separates_line.spells
    · exact spells_empty

theorem spells_printElement (printed : AllPrinted p children) : Printing.Spells p (page.printElement id children) := by
  refine Printing.makes_bind (Printing.makes_lift makes_freshGroup) fun tagGroup _ => ?_
  refine Printing.makes_bind (Printing.makes_lift (spells_body legible printed tagGroup)) fun body inside => ?_
  refine Printing.makes_bind (spells_openingTag legible id) fun tag opening => ?_
  have grouped := Printing.makes_lift (spells_groupWith (some tagGroup) false opening)
  refine Printing.makes_bind grouped fun start first => ?_
  refine Printing.makes_bind (Printing.makes_lift (spells_closingTag legible id)) fun closing last => ?_
  refine Printing.makes_bind (Printing.makes_lift (spells_concat ⟨first, inside, last, trivial⟩)) fun whole here => ?_
  exact Printing.makes_lift (spells_group here)

/-! ### What embedders lay out -/

theorem makes_embeddedBody? (id parent : NodeId) (value : String) :
    Printing.Makes (page.embeddedBody? id parent value) (AnswerIn p) := by
  unfold embeddedBody?
  split
  · exact Printing.makes_pure answerIn_none
  · refine Printing.makes_bind (makes_embed legible _) fun answer texts => ?_
    cases answer with
    | none => exact Printing.makes_pure answerIn_none
    | some doc =>
      have parts : Spells p (Build.seq [Build.breakParent, page.before id, return doc, page.after id]) := by
        refine spells_seq (List.forall_mem_cons.mpr ⟨spells_breakParent, ?_⟩)
        refine List.forall_mem_cons.mpr ⟨spells_borrowed legible _, ?_⟩
        exact List.forall_mem_cons.mpr ⟨makes_pure (texts doc rfl),
          List.forall_mem_singleton.mpr (spells_borrowed legible _)⟩
      exact Printing.makes_bind (Printing.makes_lift parts) fun _ here => Printing.makes_pure (answerIn_some here)

theorem makes_embeddedExpression? (parent : NodeId) (value : String) :
    Printing.Makes (page.embeddedExpression? parent value) (AnswerIn p) := by
  refine Printing.makes_bind (makes_embed legible _) fun answer texts => ?_
  cases answer with
  | none => exact Printing.makes_pure answerIn_none
  | some doc =>
    have body := spells_pair separates_line.spells (makes_pure (texts doc rfl))
    refine Printing.makes_bind (Printing.makes_lift body) fun _ inside => ?_
    refine Printing.makes_bind (Printing.makes_lift (spells_pair (spells_indent inside) ?_)) fun _ here =>
      Printing.makes_pure (answerIn_some here)
    split
    · exact spells_text (within_constant legible (by decide))
    · exact separates_line.spells

omit legible in
theorem makes_fencedAnswer {block : FrontMatter} {last : Build Doc} (texts : block.TextsIn p) (line : Spells p last)
    (answer : Option Doc) :
    AnswerIn p answer → Printing.Makes (match answer with
      | none => pure none
      | some doc => do
        let body ← Build.seq [Build.text block.startDelimiter, Build.text block.explicitLanguage,
          Build.hardline, return doc, last, Build.text block.endDelimiter]
        return some (← Build.markAsRoot body) : Printing (Option Doc)) (AnswerIn p) := by
  intro answered
  simp only [FrontMatter.TextsIn, FrontMatter.texts, List.forall_mem_cons] at texts
  obtain ⟨_, _, start, stop, language, _⟩ := texts
  cases answer with
  | none => exact Printing.makes_pure answerIn_none
  | some doc =>
    have parts : ∀ part ∈ [Build.text block.startDelimiter, Build.text block.explicitLanguage, Build.hardline,
        return doc, last, Build.text block.endDelimiter], Spells p part := by
      simp only [List.forall_mem_cons]
      exact ⟨spells_text start, spells_text language, separates_hardline.spells, makes_pure (answered doc rfl),
        line, spells_text stop, fun _ member => absurd member List.not_mem_nil⟩
    refine Printing.makes_bind (Printing.makes_lift (spells_seq parts)) fun body inside => ?_
    exact Printing.makes_bind (Printing.makes_lift (spells_align .markAsRoot inside)) fun _ here =>
      Printing.makes_pure (answerIn_some here)

theorem makes_embeddedFrontMatter? {block : FrontMatter} (texts : block.TextsIn p) :
    Printing.Makes (page.embeddedFrontMatter? block) (AnswerIn p) := by
  unfold embeddedFrontMatter?
  split
  · exact Printing.makes_pure answerIn_none
  · dsimp only
    generalize Text.trim Text.isWhiteSpace block.value = value
    split
    · have nothing : Printing.Makes (some <$> (liftM Build.empty : Printing Doc)) (AnswerIn p) := by
        rw [map_eq_pure_bind]
        exact Printing.makes_bind (Printing.makes_lift spells_empty) fun _ here =>
          Printing.makes_pure (answerIn_some here)
      exact Printing.makes_bind nothing (makes_fencedAnswer texts spells_empty)
    · exact Printing.makes_bind (makes_embed legible _) (makes_fencedAnswer texts separates_hardline.spells)

theorem makes_embedded? (id : NodeId) : Printing.Makes (page.embedded? id) (AnswerIn p) := by
  unfold embedded?
  split
  · dsimp only
    split
    · exact makes_embeddedBody? legible id _ _
    · split
      · exact makes_embeddedExpression? legible _ _
      · exact Printing.makes_pure answerIn_none
  · next block same => exact makes_embeddedFrontMatter? legible (texts_of_kind legible same)
  · exact Printing.makes_pure answerIn_none

/-! ### Nodes -/

theorem spells_printDoctype {value : String} (within : Within p value.toList) :
    Spells p (page.printDoctype id value) := by
  have normal : Within p (normalizeDoctype value.toList) := by
    intro c member
    rcases mem_normalizeDoctype member with ordinary | inside
    · exact within_constant legible (by decide) c ordinary
    · exact within c inside
  have space : Spells p (Build.text " ") := spells_text (within_constant legible (by decide))
  have body := spells_triple (spells_openingStart legible id) space (spells_text (Text.within_ofList normal))
  exact makes_bind body fun _ here => spells_pair (spells_group here) (spells_closingEnd legible id)

theorem spells_assemble (printed : AllPrinted p children) : Printing.Spells p (page.assemble id children) := by
  unfold assemble
  split
  · split
    · exact Printing.makes_lift spells_empty
    · refine Printing.makes_bind (Printing.makes_lift (spells_joinChildren printed id)) fun joined inside => ?_
      refine Printing.makes_bind (Printing.makes_lift (spells_group inside)) fun group here => ?_
      exact Printing.makes_bind (Printing.makes_lift separates_hardline.spells) fun _ last =>
        Printing.makes_lift (spells_concat ⟨here, last, trivial⟩)
  · exact spells_printElement legible printed
  · exact spells_printElement legible printed
  · refine Printing.makes_bind (Printing.makes_lift (spells_openingStart legible id)) fun opening first => ?_
    refine Printing.makes_bind (Printing.makes_lift (spells_closingEnd legible id)) fun closing last => ?_
    have inside : AllTextsIn p (children.map (·.2)) := by
      refine Layout.Doc.allTextsIn_iff.mpr fun doc member => ?_
      obtain ⟨pair, isPair, rfl⟩ := List.mem_map.mp member
      exact printed pair isPair
    have whole : AllTextsIn p (opening :: children.map (·.2) ++ [closing]) :=
      ⟨first, allTextsIn_append inside ⟨last, trivial⟩⟩
    exact Printing.makes_lift (spells_concat whole)
  · exact Printing.makes_lift (spells_pair (spells_openingStart legible id) (spells_closingEnd legible id))
  · exact Printing.makes_lift (spells_pair (spells_openingStart legible id) (spells_closingEnd legible id))
  · next value same =>
    exact Printing.makes_lift (spells_printText legible (texts_of_kind legible same value List.mem_cons_self))
  · next value same =>
    exact Printing.makes_lift (spells_printDoctype legible (texts_of_kind legible same value List.mem_cons_self))
  · have written := spells_literalText (within_sourceText legible (page.tree.node id).span)
    exact Printing.makes_lift (spells_triple (spells_borrowed legible _) written (spells_borrowed legible _))
  · next value same =>
    have inside := texts_of_kind legible same value List.mem_cons_self
    have opened := Text.within_string_append (within_constant legible (by decide : '\r' ∉ "<?".toList)) inside
    have closed := Text.within_string_append opened (within_constant legible (by decide : '\r' ∉ "?>".toList))
    exact Printing.makes_lift (spells_literalText closed)
  · next block same =>
    have raw := texts_of_kind legible same block.raw (List.mem_cons_of_mem _ List.mem_cons_self)
    exact Printing.makes_lift (spells_literalText raw)
  · next value same => exact absurd same (legible.noCdata id value)

mutual

theorem spells_printNode : ∀ outline : Outline, Printing.Spells p (page.printNode outline)
  | .node id inner => by
    rw [printNode]
    refine Printing.makes_bind (makes_embedded? legible id) fun answer texts => ?_
    cases answer with
    | some doc => exact Printing.makes_pure (texts doc rfl)
    | none =>
      dsimp only
      split
      · exact spells_printCopied legible id
      · exact Printing.makes_bind (makes_printNodes inner) fun _ printed => spells_assemble legible printed

theorem makes_printNodes : ∀ outlines : List Outline, Printing.Makes (page.printNodes outlines) (AllPrinted p)
  | [] => by
    rw [printNodes]
    exact Printing.makes_pure fun _ member => absurd member List.not_mem_nil
  | .node id inner :: rest => by
    have finish {doc : Doc} (texts : doc.TextsIn p) :
        Printing.Makes (do return (id, doc) :: (← page.printNodes rest)) (AllPrinted p) :=
      Printing.makes_bind (makes_printNodes rest) fun _ others =>
        Printing.makes_pure (List.forall_mem_cons.mpr ⟨texts, others⟩)
    rw [printNodes]
    split
    · exact Printing.makes_bind (Printing.makes_lift (spells_printIgnored legible id)) fun _ => finish
    · exact Printing.makes_bind (spells_printNode (.node id inner)) fun _ => finish

end

theorem spells_print : Printing.Spells p page.print :=
  spells_printNode legible _

end Page

end MarkupFormat.Print
