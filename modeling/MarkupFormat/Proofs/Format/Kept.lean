import MarkupFormat.Proofs.Annotate.FirstNode
import MarkupFormat.Proofs.Format.Failure
import MarkupFormat.Proofs.Format.Markers
import MarkupFormat.Proofs.Markup.FrontMatter
import MarkupFormat.Proofs.Print.Comments
import MarkupFormat.Proofs.Print.FirstNode
import MarkupFormat.Proofs.Print.Issued

/-!
# What formatting keeps

Front matter and comments stand in the output as they are written.

Front matter is printed first and as it is written, and a line break ends it. The renderer takes back no more than
blanks at the end of its closing line, so the block is found again in what is formatted
(`parse?_frontMatter_of_format`).

A comment keeps its text, with its lines, their indentation and the blanks at their ends, however deep it stands and
wherever lines are broken around it. The comments of a source stand in the output in the order in which they are
written, and none overlaps another one (`commentsInOrder_of_format`). The exceptions are comments in what is copied from the
source as a whole.
-/

namespace MarkupFormat.Format

open Layout (Doc InOrder)
open Markup (Fragment FrontMatter NodeId Tree)
open Print (Page)
open Text (dropEnd isLineBlank isWhiteSpace normalizeLineEndings)

variable {source : String} {options : Options} {front : Fragment} {rest : List Fragment} {block : FrontMatter}

theorem beginsLine_document {doc : Doc} {requests : List Embed.Request}
    (made : document source options (return Embed.decline) = .ok (doc, requests))
    (read : Markup.parse (normalizeLineEndings source) {} = .ok (front :: rest))
    (isBlock : front.kind = .frontMatter block) (said : block.value.toList.all isWhiteSpace = false) :
    Layout.BeginsLine [doc] block.raw.toList := by
  obtain ⟨annotated, annotates, printed⟩ := exists_printed made
  have alone : Annotate.StandsAlone front.kind := by
    rw [isBlock]
    exact ⟨rfl, nofun⟩
  have read : Markup.parse (normalizeLineEndings source) {} = .ok ([] ++ front :: rest) := read
  obtain ⟨first, later, children, kind, -⟩ := Annotate.exists_first_of_annotate annotates read
    (fun _ member => absurd member List.not_mem_nil) alone
  refine printed (fun doc => Layout.BeginsLine [doc] block.raw.toList) ?_
  exact Print.Page.yields_print_frontMatter (Annotate.shaped_of_annotate annotates) rfl children (kind.trans isBlock) said

/-- A source that is read with front matter in which something is said keeps it: what is formatted begins with a block
of the same language, value and delimiters, whatever follows the block. -/
theorem parse?_frontMatter_of_format (clean : '\r' ∉ source.toList)
    (read : Markup.parse source {} = .ok (front :: rest)) (isBlock : front.kind = .frontMatter block)
    (said : block.value.toList.all isWhiteSpace = false) (feeds : options.config.lineEnding = .lf)
    (noInsertion : options.insertPragma = false) :
    ∃ output again, format source options = .ok output ∧ FrontMatter.parse? output.toList = some again ∧
      again.language = block.language ∧ again.value = block.value ∧ again.startDelimiter = block.startDelimiter ∧
      again.endDelimiter = block.endDelimiter ∧ again.explicitLanguage = block.explicitLanguage := by
  have found := Markup.parse?_of_parse read isBlock
  have normal : normalizeLineEndings source = source := by
    unfold normalizeLineEndings
    rw [Text.normalizeChars_of_clean clean, String.ofList_toList]
  have lines : options.config.lineEnding.resolve source = .lf := by
    rw [feeds]
    rfl
  by_cases skipped : isSkipped source options = true
  · refine ⟨source, block, ?_, found, rfl, rfl, rfl, rfl, rfl⟩
    unfold format formatWith
    rw [skipped]
    rfl
  · obtain ⟨doc, requests, made⟩ : ∃ doc requests, document source options _ = .ok (doc, requests) :=
      exists_document_of_parse (normal.symm ▸ read)
    have begins : Layout.BeginsLine [doc] block.raw.toList := beginsLine_document made (normal.symm ▸ read) isBlock said
    let config : Layout.Config := { options.config with lineEnding := .lf }
    obtain ⟨more, written⟩ := Layout.toList_render_of_beginsLine begins config
    rw [show config.lineEnding = .lf from rfl, Text.writtenChars_lf] at written
    refine ⟨doc.render config, { block with raw := String.ofList (dropEnd isLineBlank block.raw.toList) }, ?_, ?_,
      rfl, rfl, rfl, rfl, rfl⟩
    · unfold format formatWith
      rw [Bool.eq_false_iff.mpr skipped, made]
      dsimp only [bind, Except.bind, pure, Except.pure]
      rw [noInsertion, lines]
      rfl
    · rw [written]
      exact FrontMatter.parse?_dropEnd found more

/-- A block with its language, a line that is no closing one and a blank after the closing one, before a text. -/
def datedSource : String :=
  "---  yaml\na: 1\n--- b\n... \n\ttext  \n"

/-- The block that `datedSource` begins with. -/
def datedBlock : FrontMatter :=
  { language := "yaml"
    value := "a: 1\n--- b"
    raw := "---  yaml\na: 1\n--- b\n... "
    startDelimiter := "---"
    endDelimiter := "..."
    explicitLanguage := "  yaml" }

theorem parse?_frontMatter_of_format_datedSource : ∃ front rest,
    '\r' ∉ datedSource.toList ∧ Markup.parse datedSource {} = .ok (front :: rest) ∧
      front.kind = .frontMatter datedBlock ∧ datedBlock.value.toList.all isWhiteSpace = false ∧
      ∃ output again, format datedSource {} = .ok output ∧ FrontMatter.parse? output.toList = some again ∧
        again.language = datedBlock.language ∧ again.value = datedBlock.value ∧
        again.startDelimiter = datedBlock.startDelimiter ∧ again.endDelimiter = datedBlock.endDelimiter ∧
        again.explicitLanguage = datedBlock.explicitLanguage := by
  have clean : '\r' ∉ datedSource.toList := by decide +kernel
  have said : datedBlock.value.toList.all isWhiteSpace = false := by decide +kernel
  have begins : ((Markup.parse datedSource {}).toOption.bind List.head?).map Fragment.kind =
      some (.frontMatter datedBlock) := by decide +kernel
  obtain ⟨front, head, kind⟩ := Option.map_eq_some_iff.mp begins
  obtain ⟨content, parsed, head⟩ := Option.bind_eq_some_iff.mp head
  obtain ⟨rest, rfl⟩ := List.head?_eq_some_iff.mp head
  cases read : Markup.parse datedSource {} with
  | error failure =>
    rw [read] at parsed
    cases parsed
  | ok nodes =>
    rw [read] at parsed
    cases parsed
    exact ⟨front, rest, clean, rfl, kind, said, parse?_frontMatter_of_format clean read kind said rfl rfl⟩

/-! ### Comments of formatted sources -/

variable {output : String}

/-- Any selection of the comments of an annotated tree, in document order, stands in the output as it is written. -/
theorem commentsInOrder_of_format (formatted : format source options = .ok output)
    (printed : isSkipped source options = false) (feeds : options.config.lineEnding = .lf)
    (bare : options.insertPragma = false) :
    ∃ annotated, Annotate.annotate source options = .ok annotated ∧
      annotated.tree.source = normalizeLineEndings source ∧
      ∀ ids : List NodeId, ids.Sublist (annotated.tree.descendants Tree.rootId) →
        (∀ id ∈ ids, annotated.tree.PrintsComment id) → InOrder (ids.map annotated.tree.writtenText) output.toList := by
  obtain ⟨annotated, doc, annotates, yields, rfl⟩ := exists_rendered formatted printed
  obtain ⟨_, _, same⟩ := Annotate.exists_parsed annotates
  refine ⟨annotated, annotates, congrArg Tree.source same, fun ids sub comments => ?_⟩
  have covers : Annotate.Covers (plainPage options annotated.tree).tree := Annotate.covers_of_annotate annotates
  have shows := yields _ (Page.showsComments_print covers sub comments)
  have apart : doc.MarksTellApart := yields _ (Page.marksTellApart_print rfl)
  have ordered := Doc.inOrder_render shows apart
    { options.config with lineEnding := options.config.lineEnding.resolve source }
  have kept : Text.writtenChars (options.config.lineEnding.resolve source) = id :=
    funext fun cs => by
      rw [feeds]
      exact Text.writtenChars_lf cs
  dsimp only
  rw [bare, Bool.false_and, if_neg Bool.false_ne_true]
  rwa [show Text.writtenChars _ = _ from kept, List.map_id] at ordered

/-- Comments in a list, one of them with lines of its own and glued to a word, and one that a comment asks to leave. -/
def listSource : String :=
  "<ul><li>a<!-- b  \n\t c--></li><li><!-- quill-ignore --><!--  d--></li></ul>"

theorem printsComment_listSource {annotated : Annotate.Annotated}
    (annotates : Annotate.annotate listSource {} = .ok annotated) :
    [4, 6, 7].Sublist (annotated.tree.descendants Tree.rootId) ∧
      (∀ id ∈ [4, 6, 7], annotated.tree.PrintsComment id) ∧ [4, 6, 7].map annotated.tree.writtenText =
        ["<!-- b  \n\t c-->".toList, "<!-- quill-ignore -->".toList, "<!--  d-->".toList] := by
  have facts : ∀ annotated ∈ (Annotate.annotate listSource {}).toOption,
      [4, 6, 7].isSublist (annotated.tree.descendants Tree.rootId) = true ∧
      [4, 6, 7].map annotated.tree.writtenText =
        ["<!-- b  \n\t c-->".toList, "<!-- quill-ignore -->".toList, "<!--  d-->".toList] ∧
      (∀ edge ∈ [(0, 1), (1, 2), (2, 4), (1, 5), (5, 6), (5, 7)], edge.2 ∈ annotated.tree.children edge.1 ∧
        annotated.tree.isIgnored edge.1 = false ∧ annotated.tree.preservesContent edge.1 = false) ∧
      [4, 6, 7].map annotated.tree.kind =
        [.comment " b  \n\t c", .comment " quill-ignore ", .comment "  d"] := by decide +kernel
  rw [annotates] at facts
  obtain ⟨sub, texts, edges, kinds⟩ := facts annotated rfl
  have step {parent id : NodeId} (edge : (parent, id) ∈ [(0, 1), (1, 2), (2, 4), (1, 5), (5, 6), (5, 7)])
      (around : annotated.tree.Uncopied parent) : annotated.tree.Uncopied id :=
    .child around (edges _ edge).2.1 (edges _ edge).2.2 (edges _ edge).1
  have list : annotated.tree.Uncopied 1 := step (by decide) .root
  have first : annotated.tree.Uncopied 2 := step (by decide) list
  have second : annotated.tree.Uncopied 5 := step (by decide) list
  simp only [List.map_cons, List.map_nil, List.cons.injEq, and_true] at kinds
  refine ⟨List.isSublist_iff_sublist.mp sub, ?_, texts⟩
  simp only [List.forall_mem_cons, List.not_mem_nil, false_imp_iff, implies_true]
  exact ⟨⟨⟨_, kinds.1⟩, step (by decide) first⟩, ⟨⟨_, kinds.2.1⟩, step (by decide) second⟩,
    ⟨⟨_, kinds.2.2⟩, step (by decide) second⟩, trivial⟩

theorem commentsInOrder_of_format_listSource : ∃ output, format listSource {} = .ok output ∧
    InOrder ["<!-- b  \n\t c-->".toList, "<!-- quill-ignore -->".toList, "<!--  d-->".toList] output.toList := by
  cases read : Markup.parse (normalizeLineEndings listSource) {} with
  | error failure =>
    have readable : (Markup.parse (normalizeLineEndings listSource) {}).isOk = true := by decide +kernel
    rw [read] at readable
    cases readable
  | ok content =>
    obtain ⟨output, formatted⟩ := @exists_format_of_parse _ {} _ read
    obtain ⟨annotated, annotates, -, ordered⟩ := commentsInOrder_of_format formatted (by decide +kernel) rfl rfl
    obtain ⟨sub, comments, texts⟩ := printsComment_listSource annotates
    rw [← texts]
    exact ⟨output, formatted, ordered [4, 6, 7] sub comments⟩

end MarkupFormat.Format
