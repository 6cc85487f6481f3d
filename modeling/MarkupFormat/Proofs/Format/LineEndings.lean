import MarkupFormat.Proofs.Format.Failure
import MarkupFormat.Proofs.Format.Markers
import MarkupFormat.Proofs.Layout.Relabelled
import MarkupFormat.Proofs.Text.LineEndings

/-!
# Line endings of formatted sources

Sources that are the same but for their line endings are formatted the same but for these (`format_endingWith`).
Neither pragmas nor documents depend on line endings, which only the renderer writes.
-/

namespace MarkupFormat.Format

/-- The options under which lines end in a given way. -/
def Options.endingWith (ending : Text.LineEnding) (options : Options) : Options :=
  { options with config := options.config.endingWith ending }

/-- The options that printing depends on: not how lines end, nor whether a pragma is inserted. -/
def Options.printing (options : Options) : Options :=
  { options.endingWith .lf with insertPragma := false }

end MarkupFormat.Format

namespace MarkupFormat.Print.Page

open Markup (NodeId Outline)

/-! ### Pages -/

/-- The page as it is printed under the options that printing depends on. -/
def printing (page : Page) : Page :=
  { page with options := page.options.printing }

variable (page : Page)

theorem sourceEnd_printing (depth : Nat) (id : NodeId) :
    page.printing.sourceEnd depth id = page.sourceEnd depth id := by
  induction depth generalizing id with
  | zero => rfl
  | succ depth ih =>
    -- Only the recursion stands in the way: nothing else of the page is read through its options.
    simp only [sourceEnd, ih]
    rfl

theorem printIgnored_printing (id : NodeId) : page.printing.printIgnored id = page.printIgnored id := by
  unfold printIgnored
  dsimp only
  rw [sourceEnd_printing]
  rfl

mutual

theorem printNode_printing : ∀ outline : Outline, page.printing.printNode outline = page.printNode outline
  | .node id inner => by
    rw [printNode, printNode, printNodes_printing inner]
    rfl

theorem printNodes_printing : ∀ outlines : List Outline, page.printing.printNodes outlines = page.printNodes outlines
  | [] => rfl
  | .node id inner :: rest => by
    rw [printNodes, printNodes, printNode_printing (.node id inner), printNodes_printing rest, printIgnored_printing]
    rfl

end

/-- What is printed depends neither on how lines end nor on whether a pragma is inserted. -/
theorem print_printing : page.printing.print = page.print :=
  printNode_printing page _

end MarkupFormat.Print.Page

namespace MarkupFormat.Format

open Embed (Embedder)
open Layout (Build Doc)
open Print (Page)
open Text (LineEnding normalizeChars normalizeLineEndings writeLineEndings)

/-! ### Pragmas -/

namespace Pragma

theorem opensComment_normalizeChars {word : List Char} (noReturn : '\r' ∉ word) (noFeed : '\n' ∉ word)
    (cs : List Char) : opensComment (normalizeChars cs) word = opensComment cs word := by
  have noReturn : '\r' ∉ '@' :: word := by simp [noReturn]
  have noFeed : '\n' ∉ '@' :: word := by simp [noFeed]
  unfold opensComment
  rw [Text.dropWhile_normalizeChars, Text.dropPrefix?_normalizeChars (by decide) (by decide)]
  cases Text.dropPrefix? "<!--".toList (cs.dropWhile Text.isWhiteSpace) with
  | none => rfl
  | some inner =>
    dsimp only [Option.map_some, bind, Option.bind]
    rw [Text.dropWhile_normalizeChars, Text.dropPrefix?_normalizeChars noReturn noFeed]
    cases Text.dropPrefix? ('@' :: word) (inner.dropWhile Text.isWhiteSpace) with
    | none => rfl
    | some rest =>
      dsimp only [Option.map_some]
      rw [Text.dropWhile_normalizeChars, Text.dropPrefix?_normalizeChars (by decide) (by decide), Option.isSome_map]

theorem isIn_normalizeLineEndings (pragma : Pragma) (source : String) :
    pragma.isIn (normalizeLineEndings source) = pragma.isIn source := by
  have noEnds : ∀ word ∈ pragma.words, '\r' ∉ word.toList ∧ '\n' ∉ word.toList := by
    cases pragma <;> decide
  unfold isIn normalizeLineEndings
  rw [String.toList_ofList, Bool.eq_iff_iff, List.any_eq_true, List.any_eq_true]
  refine exists_congr fun word => and_congr_right fun member => ?_
  rw [opensComment_normalizeChars (noEnds word member).1 (noEnds word member).2]

end Pragma

theorem isSkipped_normalizeLineEndings (source : String) (options : Options) :
    isSkipped (normalizeLineEndings source) options = isSkipped source options := by
  unfold isSkipped
  rw [Pragma.isIn_normalizeLineEndings, Pragma.isIn_normalizeLineEndings]

/-! ### Documents -/

variable {source : String} {options : Options} {ending : LineEnding}

theorem document_printing (source : String) (options : Options) (embedder : Build Embedder) :
    document source options.printing embedder = document source options embedder := by
  have annotates : Annotate.annotate source options.printing = Annotate.annotate source options := rfl
  have prints (tree : Markup.Tree) (made : Embedder) :
      (Page.mk tree options.printing made).print = (Page.mk tree options made).print :=
    Page.print_printing ⟨tree, options, made⟩
  unfold document
  simp only [annotates, prints]

theorem document_endingWith (embedder : Build Embedder) :
    document source (options.endingWith ending) embedder = document source options embedder := by
  rw [← document_printing source (options.endingWith ending), ← document_printing source options]
  rfl

theorem document_normalizeLineEndings (source : String) (embedder : Build Embedder) :
    document (normalizeLineEndings source) options embedder = document source options embedder := by
  have annotates : Annotate.annotate (normalizeLineEndings source) options = Annotate.annotate source options := by
    unfold Annotate.annotate
    rw [Text.normalizeLineEndings_idem]
  unfold document
  rw [annotates]

variable {doc : Doc} {requests : List Embed.Request}

theorem steady_of_document (made : document source options (return Embed.decline) = .ok (doc, requests)) :
    doc.Steady := by
  obtain ⟨_, _, inked⟩ := inked_document made
  exact inked.steady

/-- The document of a source has no carriage returns in its texts, as they are read from the normal source. -/
theorem textsIn_of_document (made : document source options (return Embed.decline) = .ok (doc, requests)) :
    doc.TextsIn (· ≠ '\r') := by
  obtain ⟨annotated, annotates, _⟩ := inked_document made
  have clean : Text.Within (· ≠ '\r') (normalizeLineEndings source).toList := by
    intro c member same
    unfold normalizeLineEndings at member
    rw [String.toList_ofList, same] at member
    exact Text.return_not_mem_normalizeChars _ member
  have legible : (plainPage options annotated.tree).Legible (· ≠ '\r') :=
    legible_of_annotate (fun _ other => other) clean annotates fun _ => Build.makes_pure Print.answerIn_none
  obtain ⟨other, _, built, texts⟩ := exists_document annotates (Build.makes_pure legible)
  rw [made] at built
  cases built
  exact texts

/-! ### Formatting -/

/-- A source that is not skipped is formatted as its document is rendered, if no pragma is put before it. -/
theorem format_eq_map_render (kept : isSkipped source options = false) (plain : options.insertPragma = false)
    (ending : LineEnding) :
    format source (options.endingWith ending) =
      (document source options (return Embed.decline)).map fun result =>
        result.1.render (options.config.endingWith (ending.resolve source)) := by
  have keptToo : isSkipped source (options.endingWith ending) = false := kept
  have plainToo : (options.endingWith ending).insertPragma = false := plain
  unfold format formatWith
  rw [keptToo, plainToo, document_endingWith]
  cases document source options (return Embed.decline) <;> rfl

theorem format_eq_map_writeLineEndings (kept : isSkipped source options = false)
    (plain : options.insertPragma = false) (ending : LineEnding) :
    format source (options.endingWith ending) =
      (format (normalizeLineEndings source) (options.endingWith .lf)).map
        (writeLineEndings (ending.resolve source)) := by
  have keptToo := (isSkipped_normalizeLineEndings source options).trans kept
  rw [format_eq_map_render kept plain, format_eq_map_render keptToo plain, document_normalizeLineEndings]
  cases made : document source options (return Embed.decline) with
  | error failure => rfl
  | ok result =>
    have steady := steady_of_document made
    exact congrArg Except.ok (Doc.render_endingWith steady options.config (ending.resolve source))

theorem return_not_mem_format {text : String} (kept : isSkipped source options = false)
    (plain : options.insertPragma = false) (formatted : format source (options.endingWith .lf) = .ok text) :
    '\r' ∉ text.toList := by
  rw [format_eq_map_render kept plain] at formatted
  cases made : document source options (return Embed.decline) with
  | error failure =>
    rw [made] at formatted
    cases formatted
  | ok result =>
    rw [made] at formatted
    cases formatted
    exact Doc.clean_render (steady_of_document made) (textsIn_of_document made) options.config

/-- What is formatted can be read back as what is formatted with line feeds. -/
theorem map_normalizeLineEndings_format (kept : isSkipped source options = false)
    (plain : options.insertPragma = false) (ending : LineEnding) :
    (format source (options.endingWith ending)).map normalizeLineEndings =
      format (normalizeLineEndings source) (options.endingWith .lf) := by
  have keptToo := (isSkipped_normalizeLineEndings source options).trans kept
  rw [format_eq_map_writeLineEndings kept plain]
  cases formatted : format (normalizeLineEndings source) (options.endingWith .lf) with
  | error failure => rfl
  | ok text =>
    have clean := return_not_mem_format keptToo plain formatted
    exact congrArg Except.ok (Text.normalizeLineEndings_writeLineEndings clean)

/-- Formatting with any line ending is formatting with line feeds and then writing the line ending for each of them,
however the lines of the source end. No line ends in another way then, and sources that are the same but for their
line endings are formatted the same but for these. -/
theorem format_endingWith (kept : isSkipped source options = false) (plain : options.insertPragma = false)
    (ending : LineEnding) :
    format source (options.endingWith ending) =
        (format (normalizeLineEndings source) (options.endingWith .lf)).map
          (writeLineEndings (ending.resolve source)) ∧
      (∀ text, format source (options.endingWith ending) = .ok text →
        writeLineEndings (ending.resolve source) (normalizeLineEndings text) = text) ∧
      ∀ other otherEnding, normalizeLineEndings other = normalizeLineEndings source →
        (format other (options.endingWith otherEnding)).map normalizeLineEndings =
          (format source (options.endingWith ending)).map normalizeLineEndings := by
  have written := format_eq_map_writeLineEndings kept plain ending
  have read := map_normalizeLineEndings_format kept plain ending
  refine ⟨written, fun text formatted => ?_, fun other otherEnding same => ?_⟩
  · rw [formatted] at written read
    rw [← read] at written
    exact (Except.ok.inj written).symm
  · have keptToo : isSkipped other options = false := by
      rw [← isSkipped_normalizeLineEndings, same, isSkipped_normalizeLineEndings, kept]
    rw [read, map_normalizeLineEndings_format keptToo plain, same]

/-- Lines that end in three ways, in a text that stays as it is, between elements and after the last one. -/
def mixedSource : String :=
  "<pre>\r\n a\r b\n</pre>\r\n<p>c</p>\r"

theorem format_endingWith_mixedSource :
    isSkipped mixedSource {} = false ∧ ({} : Options).insertPragma = false ∧
      (format mixedSource (Options.endingWith .auto {})).isOk = true ∧
      format mixedSource (Options.endingWith .auto {}) =
        (format (normalizeLineEndings mixedSource) (Options.endingWith .lf {})).map (writeLineEndings .crlf) := by
  have kept : isSkipped mixedSource {} = false := by decide +kernel
  have guessed : LineEnding.auto.resolve mixedSource = .crlf := by decide +kernel
  have formattable : (format mixedSource (Options.endingWith .auto {})).isOk = true := by decide +kernel
  refine ⟨kept, rfl, formattable, ?_⟩
  rw [← guessed]
  exact (format_endingWith kept rfl .auto).1

end MarkupFormat.Format
