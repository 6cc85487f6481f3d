import MarkupFormat.Proofs.Format.LineEndings
import MarkupFormat.Proofs.Markup.Surroundings

/-!
# The pragma that is inserted

The pragma is put before what is formatted, with line feeds after it. It is found there and not put there again, and
what stands behind it is read as without it. But it takes the front from front matter, and its line feeds are the
line ends of the output only where lines end with line feeds (`pragmaInserted_of_format`).
-/

namespace MarkupFormat.Format

open Markup (FrontMatter Fragment Html SameButLines endsLine)
open Text (LineEnding byteLength normalizeChars normalizeLineEndings writeLineEndings writtenChars)

/-- The options under which no pragma is inserted. -/
def Options.withoutPragma (options : Options) : Options :=
  { options with insertPragma := false }

namespace Pragma

/-- The comment that is inserted. -/
def comment : Html :=
  .comment " @format "

theorem valid_comment : comment.Valid :=
  ⟨by decide, by decide⟩

theorem toList_insert (text : String) :
    (insert text).toList = comment.write ++ (['\n', '\n'] ++ text.toList.dropWhile endsLine) := by
  unfold insert Text.trimStart
  rw [String.toList_append, String.toList_ofList, String.toList_ofList]
  rfl

theorem isIn_insert (text : String) : Pragma.format.isIn (insert text) = true := by
  unfold isIn
  rw [toList_insert]
  rfl

theorem isIn_ignore_insert (text : String) : Pragma.ignore.isIn (insert text) = false := by
  unfold isIn
  rw [toList_insert]
  rfl

end Pragma

variable {source body : String} {options : Options}

theorem parse?_insert (body : String) : FrontMatter.parse? (Pragma.insert body).toList = none := by
  rw [Pragma.toList_insert]
  unfold FrontMatter.parse?
  rw [show Pragma.comment.write ++ _ = '<' :: _ from rfl, Markup.opener?_eq_none (by decide) (by decide)]
  rfl

theorem isSkipped_insert (body : String) (options : Options) : isSkipped (Pragma.insert body) options = false := by
  unfold isSkipped
  rw [Pragma.isIn_ignore_insert, Pragma.isIn_insert, Bool.not_true, Bool.and_false]
  rfl

/-! ### Formatting -/

theorem document_withoutPragma (source : String) (options : Options) (embedder : Layout.Build Embed.Embedder) :
    document source options.withoutPragma embedder = document source options embedder := by
  rw [← document_printing source options.withoutPragma, ← document_printing source options]
  rfl

theorem format_eq_map_insert (kept : isSkipped source options = false) (absent : Pragma.format.isIn source = false)
    (inserts : options.insertPragma = true) :
    format source options = (format source options.withoutPragma).map Pragma.insert := by
  have keptToo : isSkipped source options.withoutPragma = false := kept
  have noInsertion : options.withoutPragma.insertPragma = false := rfl
  unfold format formatWith
  rw [kept, keptToo, document_withoutPragma, inserts, noInsertion, absent]
  cases document source options (return Embed.decline) <;> rfl

theorem format_withoutPragma (found : Pragma.format.isIn source = true) :
    format source options.withoutPragma = format source options := by
  have same : isSkipped source options.withoutPragma = isSkipped source options := rfl
  have noInsertion : options.withoutPragma.insertPragma = false := rfl
  unfold format formatWith
  rw [same, document_withoutPragma, noInsertion, found, Bool.not_true, Bool.and_false, Bool.and_false]
  rfl

/-! ### Line ends -/

/-- What is formatted without a pragma is written with the line ending of the options, and with no other. -/
theorem writeLineEndings_of_format {text : String} (kept : isSkipped source options = false)
    (plain : options.insertPragma = false) (formatted : format source options = .ok text) :
    writeLineEndings (options.config.lineEnding.resolve source) (normalizeLineEndings text) = text := by
  have same : options.endingWith options.config.lineEnding = options := rfl
  have written := format_eq_map_writeLineEndings kept plain options.config.lineEnding
  have read := map_normalizeLineEndings_format kept plain options.config.lineEnding
  rw [same, formatted] at written read
  rw [← read] at written
  exact (Except.ok.inj written).symm

theorem return_not_mem_of_format {text : String} (kept : isSkipped source options = false)
    (plain : options.insertPragma = false) (formatted : format source options = .ok text)
    (feeds : (options.config.lineEnding.resolve source).text = "\n") : '\r' ∉ text.toList := by
  have written := writeLineEndings_of_format kept plain formatted
  unfold writeLineEndings normalizeLineEndings at written
  rw [if_pos feeds] at written
  rw [← written, String.toList_ofList]
  exact Text.return_not_mem_normalizeChars _

/-- Behind the inserted pragma stand line feeds, whatever ends the other lines. -/
theorem feeds_of_writeLineEndings_insert {ending : LineEnding}
    (same : writeLineEndings ending (normalizeLineEndings (Pragma.insert body)) = Pragma.insert body) :
    ending.text = "\n" := by
  have noReturn : '\r' ∉ Pragma.comment.write ++ ['\n', '\n'] := by decide
  have noFeed : '\n' ∉ Pragma.comment.write := by decide
  have chars := congrArg String.toList same
  rw [Text.toList_writeLineEndings, normalizeLineEndings, String.toList_ofList, Pragma.toList_insert,
    ← List.append_assoc, Text.normalizeChars_append noReturn, List.append_assoc, List.append_assoc,
    Text.writtenChars_append, Text.writtenChars_of_not_mem ending noFeed] at chars
  have behind := List.append_cancel_left chars
  cases ending with
  | lf | auto => rfl
  | crlf | cr => cases (List.cons.inj behind).1

theorem return_not_mem_insert (clean : '\r' ∉ body.toList) : '\r' ∉ (Pragma.insert body).toList := by
  have noReturn : '\r' ∉ Pragma.comment.write ++ ['\n', '\n'] := by decide
  rw [Pragma.toList_insert, ← List.append_assoc, List.mem_append, not_or]
  exact ⟨noReturn, fun member => clean ((List.dropWhile_suffix endsLine).subset member)⟩

theorem feeds_of_format_insert (settled : format (Pragma.insert body) options = .ok (Pragma.insert body)) :
    (options.config.lineEnding.resolve (Pragma.insert body)).text = "\n" := by
  have kept : isSkipped (Pragma.insert body) options.withoutPragma = false := isSkipped_insert body _
  rw [← format_withoutPragma (Pragma.isIn_insert body)] at settled
  have plain : options.withoutPragma.insertPragma = false := rfl
  have written := writeLineEndings_of_format kept plain settled
  exact feeds_of_writeLineEndings_insert written

/-! ### The output -/

/-- What an inserted pragma does to `body`, which is what is formatted without it. -/
structure PragmaInserted (source : String) (options : Options) (body output : String) : Prop where
  /-- The pragma is found in the output. -/
  found : Pragma.format.isIn output = true
  /-- No other pragma is inserted when the output is formatted. -/
  once : format output options = format output options.withoutPragma
  /-- Formatting leaves the output alone only if lines end with line feeds. -/
  settled : format output options = .ok output → (options.config.lineEnding.resolve output).text = "\n"
  /-- The line ending of the options ends all lines of the output exactly if it is a line feed. -/
  ending : writeLineEndings (options.config.lineEnding.resolve source) (normalizeLineEndings output) = output ↔
    (options.config.lineEnding.resolve source).text = "\n"
  /-- The output has no front matter. -/
  front : FrontMatter.parse? output.toList = none
  /-- The output is read as the pragma and what is read without it, but for the lines between them, exactly if that
  does not begin with front matter. -/
  nodes : ∀ nodes, Markup.parse body {} = .ok nodes → byteLength output.toList ≤ Markup.maxSourceBytes →
    ((∃ others, Markup.parse output {} = .ok (Pragma.comment.placed 0 :: others) ∧ SameButLines nodes others) ↔
      FrontMatter.parse? body.toList = none)

/-- A source without a pragma is formatted with one as it is formatted without it, behind the pragma. -/
theorem pragmaInserted_of_format (kept : isSkipped source options = false)
    (absent : Pragma.format.isIn source = false) (inserts : options.insertPragma = true) :
    format source options = (format source options.withoutPragma).map Pragma.insert ∧
      ∀ body, format source options.withoutPragma = .ok body →
        PragmaInserted source options body (Pragma.insert body) := by
  refine ⟨format_eq_map_insert kept absent inserts, fun body formatted => ?_⟩
  have keptToo : isSkipped source options.withoutPragma = false := kept
  constructor
  · exact Pragma.isIn_insert body
  · exact (format_withoutPragma (Pragma.isIn_insert body)).symm
  · exact feeds_of_format_insert
  · constructor
    · exact feeds_of_writeLineEndings_insert
    · intro feeds
      have clean := return_not_mem_insert (return_not_mem_of_format keptToo rfl formatted feeds)
      unfold writeLineEndings normalizeLineEndings
      rw [if_pos feeds, Text.normalizeChars_of_clean clean, String.ofList_toList]
  · exact parse?_insert body
  · intro nodes read small
    have front : (body.toList.takeWhile endsLine).all endsLine = true := List.all_takeWhile
    have whole : body.toList.takeWhile endsLine ++ body.toList.dropWhile endsLine = body.toList :=
      List.takeWhile_append_dropWhile
    have output : String.ofList (Pragma.comment.write ++ (['\n', '\n'] ++ body.toList.dropWhile endsLine)) =
        Pragma.insert body := by
      rw [← Pragma.toList_insert, String.ofList_toList]
    rw [Pragma.toList_insert] at small
    rw [← String.ofList_toList (s := body), ← whole] at read
    have behind : (∃ others, Markup.parse (String.ofList (Pragma.comment.write ++ _)) {} =
        .ok (Pragma.comment.placed 0 :: others) ∧ SameButLines nodes others) ↔ _ :=
      Markup.sameButLines_of_comment_iff Pragma.valid_comment front (by decide) small read
    rwa [output, whole] at behind

/-- Options under which a pragma is inserted and lines end with a carriage return and a line feed. -/
def pragmaOptions : Options :=
  { insertPragma := true, config := { lineEnding := .crlf } }

theorem pragmaInserted_of_format_paragraph :
    ∃ output, format "<p>x</p>" pragmaOptions = .ok output ∧ Pragma.format.isIn output = true ∧
      writeLineEndings .crlf (normalizeLineEndings output) ≠ output ∧ format output pragmaOptions ≠ .ok output := by
  have formattable : (format "<p>x</p>" pragmaOptions.withoutPragma).isOk = true := by decide +kernel
  obtain ⟨inserted, all⟩ : format "<p>x</p>" pragmaOptions = _ ∧ _ :=
    pragmaInserted_of_format (by decide) (by decide) rfl
  cases formatted : format "<p>x</p>" pragmaOptions.withoutPragma with
  | error failure =>
    rw [formatted] at formattable
    cases formattable
  | ok body =>
    rw [formatted] at inserted
    have made := all body formatted
    refine ⟨_, inserted, made.found, fun written => ?_, fun settled => ?_⟩
    · exact absurd (made.ending.mp written) (by decide)
    · have feeds : LineEnding.crlf.text = "\n" := made.settled settled
      exact absurd feeds (by decide)

end MarkupFormat.Format
