import MarkupFormat.Format.Formatted
import MarkupFormat.Proofs.Print.Printed

/-!
# Markers of formatted sources

A formatted source shows its page as the page is spelled, whatever the options say about lines. So each marker is
in it as often as `Tree.timesPrinted` says, and that is as often as it should be unless the marker is borrowed by
a directive or by a node that is copied from the source.
-/

namespace MarkupFormat.Format

open Embed (Embedder Request)
open Layout (Build Doc Supply)
open Markup (OwnedMarker Tree)
open Print (Page)
open Text (visible)

variable {source : String} {options : Options}

/-- The page of an annotated tree whose parts in other languages are left as they are. -/
def plainPage (options : Options) (tree : Tree) : Page :=
  ⟨tree, options, Embed.decline⟩

/-- The document of a source is what its page is printed as, with an embedder that was made before. -/
theorem exists_run {embedder : Build Embedder} {doc : Doc} {requests : List Request}
    (made : document source options embedder = .ok (doc, requests)) :
    ∃ annotated embed result, Annotate.annotate source options = .ok annotated ∧ embedder.run {} = .ok embed ∧
      ((Page.mk annotated.tree options embed.1).print.run []).run embed.2 = .ok result ∧ result.1.1 = doc := by
  unfold document at made
  cases done : Annotate.annotate source options with
  | error failure =>
    rw [done] at made
    cases made
  | ok annotated =>
    rw [done] at made
    change (Build.run' ((liftM embedder : StateT Supply (Except FormatError) Embedder) >>= fun embed =>
      (Page.mk annotated.tree options embed).print.run [])).bind
        (fun result => Except.ok (result.1, result.2.reverse)) = .ok (doc, requests) at made
    unfold Build.run' at made
    rw [StateT.run_bind, show (liftM embedder : StateT Supply (Except FormatError) Embedder).run {} =
      (embedder.run {}).mapError .document from rfl] at made
    cases embeds : embedder.run {} with
    | error failure =>
      rw [embeds] at made
      cases made
    | ok embed =>
      rw [embeds] at made
      change (Except.map (·.1) (((Page.mk annotated.tree options embed.1).print.run []).run embed.2)).bind
        (fun result => Except.ok (result.1, result.2.reverse)) = .ok (doc, requests) at made
      cases ran : ((Page.mk annotated.tree options embed.1).print.run []).run embed.2 with
      | error failure =>
        rw [ran] at made
        cases made
      | ok result =>
        rw [ran] at made
        cases made
        exact ⟨annotated, embed, result, rfl, rfl, ran, rfl⟩

/-- The document of a source with nothing embedded. -/
theorem exists_printed {doc : Doc} {requests : List Request}
    (made : document source options (return Embed.decline) = .ok (doc, requests)) :
    ∃ annotated, Annotate.annotate source options = .ok annotated ∧
      ∀ holds, Print.Printing.Yields (plainPage options annotated.tree).print holds → holds doc := by
  obtain ⟨annotated, embed, result, annotates, embeds, ran, rfl⟩ := exists_run made
  cases embeds
  exact ⟨annotated, annotates, fun holds printed => printed [] {} result ran⟩

/-- A source that no pragma asks to leave as it is becomes the text of its document, after a pragma if one is put
before it. -/
theorem exists_rendered {text : String} (formatted : format source options = .ok text)
    (printed : isSkipped source options = false) :
    ∃ annotated doc, Annotate.annotate source options = .ok annotated ∧
      (∀ holds, Print.Printing.Yields (plainPage options annotated.tree).print holds → holds doc) ∧
      text = (let body := doc.render { options.config with lineEnding := options.config.lineEnding.resolve source }
        if options.insertPragma && !Pragma.format.isIn source then Pragma.insert body else body) := by
  unfold format formatWith at formatted
  rw [printed] at formatted
  cases made : document source options (return Embed.decline) with
  | error failure =>
    rw [made] at formatted
    cases formatted
  | ok result =>
    obtain ⟨annotated, annotates, yields⟩ := exists_printed made
    rw [made, if_neg Bool.false_ne_true] at formatted
    refine ⟨annotated, result.1, annotates, yields, ?_⟩
    dsimp only [bind, Except.bind, pure, Except.pure] at formatted ⊢
    by_cases insertion : (options.insertPragma && !Pragma.format.isIn source) = true
    · rw [if_pos insertion] at formatted ⊢
      exact (Except.ok.inj formatted).symm
    · rw [if_neg insertion] at formatted ⊢
      exact (Except.ok.inj formatted).symm

/-- The document of a source writes its page as it is spelled. -/
theorem inked_document {doc : Doc} {requests : List Request}
    (made : document source options (return Embed.decline) = .ok (doc, requests)) :
    ∃ annotated, Annotate.annotate source options = .ok annotated ∧
      Doc.Inked ((plainPage options annotated.tree).spell (annotated.tree.outline Tree.rootId)) doc := by
  obtain ⟨annotated, done, printed⟩ := exists_printed made
  exact ⟨annotated, done, printed _ (Page.inks_print (Annotate.shaped_of_annotate done) rfl)⟩

/-- A formatted source is the source itself if a pragma asks for that. Otherwise what is seen of it, apart from a
pragma that is put before it, is the spelling of its annotated tree: each marker stands at its place in the order
of the source, as often as it is printed. A marker of a node that is not left as it is is printed once if its
tags have it, and never otherwise, exactly if this is how often its borrower prints it, where it has one. -/
theorem visible_format {text : String} (formatted : format source options = .ok text) :
    (isSkipped source options = true → text = source) ∧
      (isSkipped source options = false →
        ∃ annotated body, Annotate.annotate source options = .ok annotated ∧
          text = (if options.insertPragma && !Pragma.format.isIn source then Pragma.insert body else body) ∧
          visible body.toList = (plainPage options annotated.tree).spell (annotated.tree.outline Tree.rootId) ∧
          ∀ owned : OwnedMarker, annotated.tree.standsApart owned = true →
            (annotated.tree.timesPrinted owned = annotated.tree.timesDue owned ↔
              ∀ borrower ∈ annotated.tree.borrower? owned,
                annotated.tree.timesBorrowed borrower = annotated.tree.timesDue owned)) := by
  refine ⟨fun skipped => ?_, fun printed => ?_⟩
  · unfold format formatWith at formatted
    rw [skipped] at formatted
    cases formatted
    rfl
  · obtain ⟨annotated, doc, annotates, yields, rfl⟩ := exists_rendered formatted printed
    have inked := yields _ (Page.inks_print (Annotate.shaped_of_annotate annotates) rfl)
    exact ⟨annotated, _, annotates, rfl, (Doc.visible_render_eq_ink inked.steady _).trans inked.ink,
      fun owned => Tree.timesPrinted_eq_timesDue_iff⟩

/-- Elements that touch each other and the text around them, inside of one that is not ended. -/
def gluedSource : String :=
  "<p>a<b><i>x</i></b>c"

theorem visible_format_gluedSource : ∃ text annotated, format gluedSource {} = .ok text ∧
    Annotate.annotate gluedSource {} = .ok annotated ∧
    visible text.toList = (plainPage {} annotated.tree).spell (annotated.tree.outline Tree.rootId) := by
  cases done : format gluedSource {} with
  | ok text =>
    have printed : isSkipped gluedSource {} = false := by decide +kernel
    obtain ⟨annotated, body, annotates, same, seen, _⟩ := (visible_format done).2 printed
    obtain rfl : text = body := same
    exact ⟨text, annotated, rfl, annotates, seen⟩
  | error failure =>
    have formattable : (format gluedSource {}).isOk = true := by decide +kernel
    rw [done] at formattable
    cases formattable

/-- The end of the tag of an element is borrowed by a section that is copied. -/
example : ((Annotate.annotate "<b>x</b><!--[if IE]><div><![endif]-->" {}).toOption.map fun annotated =>
    (annotated.tree.borrower? ⟨1, .closingEnd⟩, annotated.tree.timesPrinted ⟨1, .closingEnd⟩)) = some (some 3, 2) := by
  decide +kernel

end MarkupFormat.Format
