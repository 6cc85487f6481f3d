import MarkupFormat.Proofs.Layout.Verbatim
import MarkupFormat.Proofs.Print.Legible
import MarkupFormat.Proofs.Print.Parts

/-!
# The text of an attribute

Without an embedder an attribute is printed as one text: its name, and its value in quotes after an equals sign. The
lines of the value stay where they are, so the renderer has no choice to make (`lays_printAttribute`).
-/

namespace MarkupFormat.Print

open Layout (Build Doc)
open Layout.Build (Lays Makes lays_group lays_literalline lays_replaceLineEndings lays_seq lays_text makes_bind
  makes_freshMark makes_pure transform_text)
open Markup (Attribute)

/-- The text that an attribute is printed as. -/
def printedText (attr : Attribute) : List Char :=
  match attr.value with
  | none => attr.rawName.toList
  | some written => attr.rawName.toList ++ '=' :: Page.valueText attr.rawName written

theorem makes_text (content : String) : Makes (Build.text content) fun doc => ∃ mark, doc = .text mark content :=
  makes_bind makes_freshMark fun mark _ => makes_pure ⟨mark, rfl⟩

theorem lays_literalText (content : String) : Lays (literalText content) content.toList := by
  refine makes_bind (makes_text content) fun doc isText => ?_
  obtain ⟨mark, rfl⟩ := isText
  exact makes_bind lays_literalline fun _ line => lays_replaceLineEndings line

theorem lays_escapeDoubleQuotes (mark : Layout.Mark) (content : String) :
    Lays (escapeDoubleQuotes (.text mark content)) (Text.escapeQuote '"' content.toList) := by
  unfold escapeDoubleQuotes
  dsimp only
  rw [transform_text, bind_assoc]
  have applied : Lays (if '"' ∈ content.toList then Build.text (String.ofList (Text.escapeQuote '"' content.toList))
      else return .text mark content) (Text.escapeQuote '"' content.toList) := by
    split
    · have written := lays_text (String.ofList (Text.escapeQuote '"' content.toList))
      rwa [String.toList_ofList] at written
    · next none =>
      rw [Page.escapeQuote_of_not_mem none]
      exact makes_pure rfl
  exact makes_bind applied fun _ here => makes_pure here

theorem lays_quotedAttribute (name : String) (mark : Layout.Mark) (content : String) :
    Lays (quotedAttribute name (.text mark content))
      (name.toList ++ '=' :: '"' :: (Text.escapeQuote '"' content.toList ++ ['"'])) := by
  have value : Lays (do Build.group (← escapeDoubleQuotes (.text mark content)))
      (Text.escapeQuote '"' content.toList) :=
    makes_bind (lays_escapeDoubleQuotes mark content) fun _ inside => lays_group inside
  have parts := lays_seq
    (.cons (lays_text name) (.cons (lays_text "=\"") (.cons value (.cons (lays_text "\"") .nil))))
  have same : [name.toList, "=\"".toList, Text.escapeQuote '"' content.toList, "\"".toList].flatten =
      name.toList ++ '=' :: '"' :: (Text.escapeQuote '"' content.toList ++ ['"']) := by simp
  rw [same] at parts
  exact parts

theorem lays_plainAttribute (name : String) (value : List Char) :
    Lays (plainAttribute name value)
      (name.toList ++ '=' :: (Text.preferredQuote value ::
        (Text.escapeQuote (Text.preferredQuote value) value ++ [Text.preferredQuote value]))) := by
  unfold plainAttribute
  dsimp only
  generalize Text.preferredQuote value = quote
  have written := lays_literalText (String.ofList (Text.escapeQuote quote value))
  rw [String.toList_ofList] at written
  have mark : Lays (Build.text (String.singleton quote)) [quote] := by
    have text := lays_text (String.singleton quote)
    rwa [String.toList_singleton] at text
  have parts := lays_seq
    (.cons (lays_text name) (.cons (lays_text "=") (.cons mark (.cons written (.cons mark .nil)))))
  simpa using parts

namespace Page

variable {page : Page}

theorem makes_embed_of_declines (declines : page.Declines) (request : Embed.Request) :
    Printing.Makes (page.embed request) fun answer => answer = none := by
  have kept : Printing.Makes (modify (request :: ·) : Printing Unit) fun _ => True :=
    fun _ => makes_pure trivial
  have answered : Makes (page.embedder request) fun answer => answer = none := by
    rw [declines]
    exact makes_pure rfl
  refine Printing.makes_bind kept fun _ _ => Printing.makes_bind (Printing.makes_lift answered) fun answer same => ?_
  subst same
  exact Printing.makes_pure rfl

theorem makes_knownValue?_of_declines (declines : page.Declines) (name : String) (value : List Char) :
    Printing.Makes (page.knownValue? name value) fun known =>
      (known = none ∧ ¬(name = "class" ∧ Text.collapse value ≠ [])) ∨
        (name = "class" ∧ Text.collapse value ≠ [] ∧
          ∃ mark, known = some (.text mark (String.ofList (Text.collapse value)))) := by
  unfold knownValue?
  split
  · refine Printing.makes_bind (makes_embed_of_declines declines _) fun answer same => ?_
    subst same
    exact Printing.makes_pure (.inl ⟨rfl, fun both => absurd both.1 (by decide)⟩)
  · dsimp only
    split
    · next empty => exact Printing.makes_pure (.inl ⟨rfl, fun both => both.2 empty⟩)
    · next some =>
      refine Printing.makes_bind (Printing.makes_lift (makes_text _)) fun doc ⟨mark, same⟩ => ?_
      exact Printing.makes_pure (.inr ⟨rfl, some, mark, congrArg Option.some same⟩)
  · next noStyle noClass => exact Printing.makes_pure (.inl ⟨rfl, fun both => noClass both.1⟩)

/-- An attribute is printed, and laid out to its text only. -/
theorem lays_printAttribute (declines : page.Declines) (attr : Attribute) :
    Printing.Makes (page.printAttribute attr) fun doc => doc.verbatim? = some (printedText attr) := by
  unfold printAttribute printedText
  generalize attr.value = value
  cases value with
  | none => exact Printing.makes_lift (lays_literalText _)
  | some written =>
    unfold Page.valueText
    dsimp only
    generalize Text.unescapeQuotes written.toList = cs
    have plain := Printing.makes_lift (lays_plainAttribute attr.rawName cs)
    split
    · next kept =>
      have noClass : ¬(attr.rawName = "class" ∧ written ≠ "" ∧ ¬Text.occursIn ['{', '{'] cs ∧
          Text.collapse cs ≠ []) := by
        intro classes
        rcases Bool.or_eq_true_iff.mp kept with empty | expression
        · exact classes.2.1 (of_decide_eq_true empty)
        · exact classes.2.2.1 expression
      rw [if_neg noClass]
      exact Printing.makes_bind (Printing.makes_pure rfl) fun known none => none ▸ plain
    · next may =>
      rw [Bool.or_eq_true, not_or] at may
      refine Printing.makes_bind (makes_knownValue?_of_declines declines attr.rawName cs) fun known either => ?_
      rcases either with ⟨rfl, other⟩ | ⟨isClass, some, mark, rfl⟩
      · rw [if_neg fun classes => other ⟨classes.1, classes.2.2.2⟩]
        exact plain
      · rw [if_pos ⟨isClass, fun empty => may.1 (decide_eq_true empty), may.2, some⟩]
        have quoted := lays_quotedAttribute attr.rawName mark (String.ofList (Text.collapse cs))
        rw [String.toList_ofList] at quoted
        exact Printing.makes_lift quoted

end Page

end MarkupFormat.Print
