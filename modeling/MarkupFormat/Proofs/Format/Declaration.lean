import MarkupFormat.Format.Formatted
import MarkupFormat.Proofs.Annotate.Declaration
import MarkupFormat.Proofs.Layout.Unbroken
import MarkupFormat.Proofs.Print.Doctype

/-!
# Formatting a declaration

A source that holds a declaration is formatted as one line, whatever the options. It begins with the
first bytes of the source, as if these were the keyword of a document type (`format_of_declares`).
-/

namespace MarkupFormat.Format

open Annotate (declarationTree)
open Embed (Embedder Request)
open Layout (Build Doc)
open Markup (Declares DeclaresFirst declarationText doctypeValue NodeKind Tree)
open Print (Page normalizeDoctype)
open Text (Cut byteLength)

/-- How a printed declaration begins: with the keyword of an ordinary page, or as it is written. -/
def declarationFront (options : Options) (content : List Char) : List Char :=
  if doctypeValue content = "html".toList ∧ options.isHtmlFile then "<!doctype".toList
  else
    match Text.splitBytes Page.declarationBytes (declarationText content) with
    | some (start, _) => start
    | none => declarationText content

/-- A declaration as it is printed. -/
def printedDeclaration (options : Options) (content : List Char) : List Char :=
  declarationFront options content ++ [' '] ++ normalizeDoctype (doctypeValue content) ++ ['>']

/-! ### Printing -/

variable {source : String} {before content after : List Char} (options : Options) (embedder : Embedder)

/-- The page of a declaration. -/
def declarationPage (source : String) (before content after : List Char) : Page :=
  ⟨declarationTree source options.sensitivity before content after, options, embedder⟩

theorem preservesContent_eq_false {tree : Tree} {id : Markup.NodeId}
    (noSection : ∀ condition complete, tree.kind id ≠ .conditional condition complete)
    (normal : Annotate.isPreLike (tree.kind id) = false) : tree.preservesContent id = false := by
  have same : Annotate.isPreLike (tree.node id).kind = false := normal
  unfold Tree.preservesContent
  dsimp only
  rw [same, Bool.false_and, Bool.or_false]
  split
  · next found => exact absurd found (noSection _ _)
  · rfl

theorem printNode_declaration :
    (declarationPage options embedder source before content after).printNode (.node 1 []) =
      (do return (← (declarationPage options embedder source before content after).printDoctype 1
        (String.ofList (doctypeValue content)))) := by
  have declined : (declarationPage options embedder source before content after).embedded? 1 =
      (do return none) := rfl
  have flows : (declarationPage options embedder source before content after).tree.preservesContent 1 =
      false :=
    preservesContent_eq_false nofun (by decide : "pre".toList.isPrefixOf "normal".toList = false)
  unfold Page.printNode
  rw [declined, flows]
  rfl

theorem print_declaration (requests : List Request) :
    (declarationPage options embedder source before content after).print.run requests = (do
      let page := declarationPage options embedder source before content after
      let doc ← page.printDoctype 1 (String.ofList (doctypeValue content))
      let body ← Build.group (← Print.joinChildren page.tree 0 [(1, doc)])
      let line ← Build.hardline
      return (← Build.concat [body, line], requests)) := by
  have declined : (declarationPage options embedder source before content after).embedded? 0 =
      (do return none) := rfl
  have flows : (declarationPage options embedder source before content after).tree.preservesContent 0 =
      false :=
    preservesContent_eq_false nofun (by decide : Annotate.isPreLike NodeKind.root = false)
  have outline : (declarationPage options embedder source before content after).tree.outline Tree.rootId =
      .node 0 [.node 1 []] := rfl
  unfold Page.print
  rw [outline]
  unfold Page.printNode
  rw [declined, flows]
  unfold Page.printNodes
  rw [printNode_declaration]
  rfl

theorem cut_declaration {source before content after : List Char}
    (declares : DeclaresFirst source before content after) :
    Cut source (byteLength before) (byteLength before + byteLength (declarationText content))
      (declarationText content) :=
  ⟨before, after, declares.whole.trans (List.append_assoc ..).symm, rfl, rfl⟩

theorem openingStartText_of_written {page : Page} {id : Markup.NodeId}
    (kind : page.tree.kind id = .doctype (String.ofList (doctypeValue content)))
    (written : page.sourceText (page.tree.node id).span = String.ofList (declarationText content)) :
    (page.openingStartText id).toList = declarationFront page.options content := by
  have kind : (page.tree.node id).kind = .doctype (String.ofList (doctypeValue content)) := kind
  have html : String.ofList (doctypeValue content) = "html" ↔ doctypeValue content = "html".toList := by
    rw [← String.toList_inj, String.toList_ofList]
  unfold Page.openingStartText
  dsimp only
  rw [kind]
  dsimp only
  unfold Page.declarationStart declarationFront
  by_cases ordinary : String.ofList (doctypeValue content) = "html" ∧ page.options.isHtmlFile = true
  · rw [if_pos ordinary, if_pos ⟨html.mp ordinary.1, ordinary.2⟩]
  · rw [if_neg ordinary, if_neg fun other => ordinary ⟨html.mpr other.1, other.2⟩, written]
    dsimp only
    rw [String.toList_ofList]
    cases Text.splitBytes Page.declarationBytes (declarationText content) with
    | none => exact String.toList_ofList
    | some _ => exact String.toList_ofList

theorem openingStartText_declaration (declares : Declares source.toList before content after) :
    ((declarationPage options embedder source before content after).openingStartText 1).toList =
      declarationFront options content := by
  let page := declarationPage options embedder source before content after
  have kind : page.tree.kind 1 = .doctype (String.ofList (doctypeValue content)) := rfl
  have written : page.sourceText (page.tree.node 1).span = String.ofList (declarationText content) :=
    (cut_declaration declares.first).slice_eq
  exact openingStartText_of_written kind written

theorem document_declaration (declares : Declares source.toList before content after) :
    ∃ body mark lineMark innerMark breakMark,
      Build.run' ((declarationPage options embedder source before content after).print.run []) =
        .ok (.concat mark [body, .concat innerMark [.line lineMark .hard, .breakParent breakMark]], []) ∧
      body.isUnbroken = true ∧ body.content = printedDeclaration options content := by
  have front := openingStartText_declaration options embedder declares
  have nothingBefore : (declarationPage options embedder source before content after).tree.borrowedBefore? 1 =
      none := rfl
  have nothingAfter : (declarationPage options embedder source before content after).tree.borrowedAfter? 1 =
      none := rfl
  have start : (declarationPage options embedder source before content after).markerText ⟨1, .openingStart⟩ =
      (declarationPage options embedder source before content after).openingStartText 1 := rfl
  have stop : (declarationPage options embedder source before content after).markerText ⟨1, .closingEnd⟩ =
      ">" := rfl
  rw [print_declaration]
  refine ⟨?_, ?_, ?_, ?_, ?_, ?_, ?_⟩
  rotate_left 5
  · rfl
  · refine ⟨rfl, ?_⟩
    simp [Doc.content, Doc.contents, nothingBefore, nothingAfter, start, stop, front, printedDeclaration]

/-! ### Formatting -/

variable {options}

theorem annotate_of_declares (declares : Declares (Text.normalizeLineEndings source).toList before content after)
    (small : byteLength (Text.normalizeLineEndings source).toList ≤ Markup.maxSourceBytes) :
    ∃ annotated, Annotate.annotate source options = .ok annotated ∧
      annotated.tree =
        declarationTree (Text.normalizeLineEndings source) options.sensitivity before content after := by
  have parsed := Markup.parse_of_declares declares small
  refine ⟨_, ?_, Annotate.ofContent_declaration options declares.blankBefore declares.blankAfter⟩
  unfold Annotate.annotate
  dsimp only
  rw [parsed]
  rfl

theorem isWhiteSpace_of_isMarkupSpace {c : Char} (space : Text.isMarkupSpace c = true) :
    Text.isWhiteSpace c = true := by
  unfold Text.isMarkupSpace at space
  simp only [Bool.or_eq_true, decide_eq_true_eq] at space
  rcases space with (((rfl | rfl) | rfl) | rfl) | rfl
  all_goals decide

theorem dropWhile_of_declares {source : List Char} (declares : DeclaresFirst source before content after) :
    source.dropWhile Text.isWhiteSpace = declarationText content ++ after := by
  have blank : ∀ c ∈ before, Text.isWhiteSpace c = true := fun c member =>
    isWhiteSpace_of_isMarkupSpace (List.all_eq_true.mp declares.blankBefore c member)
  rw [declares.whole, List.dropWhile_append_of_pos blank]
  rfl

theorem opensComment_of_declares {source : List Char} (word : List Char)
    (declares : DeclaresFirst (Text.normalizeChars source) before content after) :
    Pragma.opensComment source word = false := by
  have noComment : Text.dropPrefix? "<!--".toList (source.dropWhile Text.isWhiteSpace) = none := by
    unfold Text.dropPrefix?
    rw [if_neg]
    intro opens
    have front := Text.isPrefixOf_append_drop opens
    have normal := Text.dropWhile_normalizeChars source
    rw [dropWhile_of_declares declares, front, Text.normalizeChars_append (by decide)] at normal
    -- The opening of a comment would stand where the declaration does, whose content has no dashes there.
    have dashes : "--".toList.isPrefixOf (content ++ ['>'] ++ after) = true := by
      obtain ⟨-, -, rest⟩ : '<' = '<' ∧ '!' = '!' ∧ content ++ ['>'] ++ after = '-' :: '-' :: _ := by
        simpa [declarationText] using normal
      rw [rest]
      rfl
    rw [Markup.isPrefixOf_append_of_not_mem (by decide), declares.noComment] at dashes
    cases dashes
  unfold Pragma.opensComment
  rw [noComment]
  rfl

theorem isIn_of_declares (pragma : Pragma)
    (declares : DeclaresFirst (Text.normalizeLineEndings source).toList before content after) :
    pragma.isIn source = false := by
  unfold Text.normalizeLineEndings at declares
  rw [String.toList_ofList] at declares
  unfold Pragma.isIn
  rw [List.any_eq_false]
  intro word _
  exact ne_true_of_eq_false (opensComment_of_declares word.toList declares)

/-- A declaration has no pragma, so it is left as it is where one is required. -/
theorem format_of_requirePragma
    (declares : DeclaresFirst (Text.normalizeLineEndings source).toList before content after)
    (required : options.requirePragma = true) : format source options = .ok source := by
  have skipped : isSkipped source options = true := by
    unfold isSkipped
    rw [isIn_of_declares .format declares, required]
    exact Bool.or_true _
  unfold format formatWith
  rw [skipped]
  rfl

/-- The document of a source is what its page is printed as. -/
theorem document_of_annotate {embedder : Embedder} {annotated : Annotate.Annotated} {doc : Doc}
    {requests : List Request} (annotates : Annotate.annotate source options = .ok annotated)
    (built : Build.run' ((Page.mk annotated.tree options embedder).print.run []) = .ok (doc, requests)) :
    document source options (return embedder) = .ok (doc, requests.reverse) := by
  unfold document
  rw [annotates]
  exact congrArg (fun result : Except FormatError (Doc × List Request) =>
    result.bind fun made => .ok (made.1, made.2.reverse)) built

/-- A declaration between white space is formatted as a line. -/
theorem format_of_declares (declares : Declares (Text.normalizeLineEndings source).toList before content after)
    (small : byteLength (Text.normalizeLineEndings source).toList ≤ Markup.maxSourceBytes)
    (noRequirement : options.requirePragma = false) (noInsertion : options.insertPragma = false) :
    format source options = .ok (Text.writeLineEndings (options.config.lineEnding.resolve source)
      (String.ofList (printedDeclaration options content ++ ['\n']))) := by
  have notSkipped : isSkipped source options = false := by
    unfold isSkipped
    rw [isIn_of_declares .ignore declares.first, noRequirement]
    rfl
  obtain ⟨annotated, annotates, tree⟩ : ∃ annotated, Annotate.annotate source options = .ok annotated ∧ _ :=
    annotate_of_declares declares small
  obtain ⟨body, mark, lineMark, innerMark, breakMark, built, unbroken, texts⟩ :=
    document_declaration options Embed.decline declares
  have built : Build.run' ((Page.mk annotated.tree options Embed.decline).print.run []) =
      .ok (.concat mark [body, .concat innerMark [.line lineMark .hard, .breakParent breakMark]], []) := by
    rw [tree]
    exact built
  unfold format formatWith
  rw [notSkipped, document_of_annotate annotates built]
  dsimp only [bind, Except.bind, pure, Except.pure]
  rw [noInsertion]
  refine congrArg Except.ok ((Layout.render_line unbroken texts (by decide) (by decide)).trans ?_)
  rw [texts]

end MarkupFormat.Format
