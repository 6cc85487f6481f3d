import MarkupFormat.Format.Formatted
import MarkupFormat.Proofs.Annotate.Shape
import MarkupFormat.Proofs.Annotate.TextsKept
import MarkupFormat.Proofs.Print.Complete

/-!
# Failures

A source that is not skipped is formatted if it can be read (`formatWith_eq_error_iff`). Annotating leaves no
character data, so its page is legible, whatever an embedder lays out, and the document of a legible page is built.
-/

namespace MarkupFormat.Format

open Embed (Embedder)
open Layout (Build Doc)
open Markup (ParseError)
open Print (Page)
open Text (normalizeLineEndings)

variable {p : Char → Prop} {source : String} {options : Options} {embedder : Build Embedder}

theorem exists_document {annotated : Annotate.Annotated} (annotates : Annotate.annotate source options = .ok annotated)
    (legible : Build.Makes embedder fun made => (Page.mk annotated.tree options made).Legible p) :
    ∃ doc requests, document source options embedder = .ok (doc, requests) ∧ doc.TextsIn p := by
  have built : Build.Makes
      (do
        let made ← embedder
        (Page.mk annotated.tree options made).print.run [] : StateT Layout.Supply (Except FormatError) _)
      fun result => result.1.TextsIn p :=
    Build.makes_bind (Print.Printing.makes_build legible) fun _ here => Page.spells_print here []
  obtain ⟨result, ran, texts⟩ := built {}
  refine ⟨result.1.1, result.1.2.reverse, ?_, texts⟩
  unfold document
  rw [annotates]
  unfold Build.run'
  dsimp only [Except.mapError, bind, Except.bind]
  exact congrArg (fun made => ((·.1) <$> made).bind fun made => .ok (made.1, made.2.reverse)) ran

/-- What embedders lay out may be any document, as long as they build one. -/
def Responds (embedder : Build Embedder) : Prop :=
  Build.Makes embedder fun made => ∀ request, Build.Makes (made request) fun _ => True

/-- The page of a source is legible with every embedder that answers. Its texts are made up of the characters of the
source. -/
theorem legible_of_annotate {annotated : Annotate.Annotated} {made : Embedder} (admits : Text.Admits p)
    (within : Text.Within p (normalizeLineEndings source).toList)
    (annotates : Annotate.annotate source options = .ok annotated)
    (answers : ∀ request, Build.Makes (made request) (Print.AnswerIn p)) :
    (Page.mk annotated.tree options made).Legible p where
  admits := admits
  source := by
    obtain ⟨content, _, same⟩ := Annotate.exists_content annotates
    show Text.Within p annotated.tree.source.toList
    rw [same]
    exact within
  texts := Annotate.textsIn_of_annotate admits within annotates
  noCdata := (Annotate.shaped_of_annotate annotates).noCdata
  answers := answers

/-- The document of a source that can be read is built where nothing is embedded. -/
theorem exists_document_of_parse {content : List Markup.Fragment}
    (read : Markup.parse (normalizeLineEndings source) {} = .ok content) :
    ∃ doc requests, document source options (return Embed.decline) = .ok (doc, requests) := by
  have annotates : Annotate.annotate source options =
      .ok (Annotate.ofContent (normalizeLineEndings source) options content) :=
    congrArg (Except.map (Annotate.ofContent (normalizeLineEndings source) options)) read
  have legible : (Page.mk (Annotate.ofContent (normalizeLineEndings source) options content).tree options
      Embed.decline).Legible fun _ => True :=
    legible_of_annotate (fun _ _ => trivial) (fun _ _ => trivial) annotates fun _ =>
      Build.makes_pure Print.answerIn_none
  obtain ⟨doc, requests, built, _⟩ := exists_document annotates (Build.makes_pure legible)
  exact ⟨doc, requests, built⟩

theorem exists_format_of_parse {content : List Markup.Fragment}
    (read : Markup.parse (normalizeLineEndings source) {} = .ok content) : ∃ output, format source options = .ok output := by
  obtain ⟨doc, requests, built⟩ := @exists_document_of_parse _ options _ read
  unfold format formatWith
  rw [built]
  cases isSkipped source options with
  | true => exact ⟨source, rfl⟩
  | false =>
    dsimp only [bind, Except.bind, pure, Except.pure]
    rw [if_neg Bool.false_ne_true]
    split
    · exact ⟨_, rfl⟩
    · exact ⟨_, rfl⟩

/-- Formatting fails exactly if the source cannot be read, and then for the same reason. No kind of node lacks a
layout, and no document is built wrongly. -/
theorem formatWith_eq_error_iff (kept : isSkipped source options = false) (responds : Responds embedder)
    {failure : FormatError} :
    formatWith source options embedder = .error failure ↔
      ∃ error, Markup.parse (normalizeLineEndings source) {} = .error error ∧ failure = .parse error := by
  unfold formatWith
  rw [kept]
  cases read : Markup.parse (normalizeLineEndings source) {} with
  | error error =>
    have annotates : Annotate.annotate source options = .error error :=
      congrArg (Except.map (Annotate.ofContent (normalizeLineEndings source) options)) read
    have failed : document source options embedder = .error (.parse error) := by
      unfold document
      rw [annotates]
      rfl
    rw [failed]
    constructor
    · intro same
      cases same
      exact ⟨error, rfl, rfl⟩
    · rintro ⟨_, ⟨⟩, rfl⟩
      rfl
  | ok content =>
    have annotates : Annotate.annotate source options =
        .ok (Annotate.ofContent (normalizeLineEndings source) options content) :=
      congrArg (Except.map (Annotate.ofContent (normalizeLineEndings source) options)) read
    -- Embedders may answer with any text, so nothing is asked of its characters.
    have legible : Build.Makes embedder fun made =>
        (Page.mk (Annotate.ofContent (normalizeLineEndings source) options content).tree options made).Legible
          fun _ => True :=
      responds.mono fun made answers =>
        legible_of_annotate (fun _ _ => trivial) (fun _ _ => trivial) annotates fun request =>
          (answers request).mono fun _ _ doc _ => Layout.Doc.textsIn_of_all (fun _ => trivial) doc
    obtain ⟨doc, requests, built, _⟩ := exists_document annotates legible
    rw [built]
    constructor
    · intro same
      dsimp only [bind, Except.bind, pure, Except.pure] at same
      rw [if_neg Bool.false_ne_true] at same
      split at same <;> cases same
    · rintro ⟨_, ⟨⟩, _⟩

/-- Lays out everything as a text. -/
def plainEmbedder : Build Embedder :=
  return fun request => some <$> Build.text request.text

theorem formatWith_eq_error_iff_openTag : isSkipped "<p" {} = false ∧ Responds plainEmbedder ∧
    ∃ error, Markup.parse (normalizeLineEndings "<p") {} = .error error ∧
      formatWith "<p" {} plainEmbedder = .error (.parse error) := by
  have kept : isSkipped "<p" {} = false := by decide +kernel
  have responds : Responds plainEmbedder :=
    Build.makes_pure fun request supply => ⟨_, rfl, trivial⟩
  cases read : Markup.parse (normalizeLineEndings "<p") {} with
  | error error => exact ⟨kept, responds, error, rfl, (formatWith_eq_error_iff kept responds).mpr ⟨error, read, rfl⟩⟩
  | ok content =>
    have unreadable : (Markup.parse (normalizeLineEndings "<p") {}).isOk = false := by decide +kernel
    rw [read] at unreadable
    cases unreadable

end MarkupFormat.Format
