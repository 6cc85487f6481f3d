import MarkupFormat.Proofs.Format.Failure
import MarkupFormat.Proofs.Format.LineEndings
import MarkupFormat.Proofs.Format.Markers
import MarkupFormat.Proofs.Markup.RoundTrip
import MarkupFormat.Proofs.Print.Issued
import MarkupFormat.Proofs.Print.LoneElement

/-!
# Formatting an element with a text

A source that is an element with one text in it is formatted as what the element is printed as
(`Holds.format_eq_ok_iff`). It is refused only if it is too large.
-/

namespace MarkupFormat.Markup

open Html (ValidAll placedAll writeAll)

/-- A source that begins with a tag has no front matter, so it is read with any options. -/
theorem readSource_writeAll_of_bracket {options : ParseOptions} {htmls : List Html} (valid : ValidAll htmls)
    {more : List Char} (bracket : writeAll htmls = '<' :: more) :
    readSource options (writeAll htmls) = .ok (placedAll 0 htmls) := by
  have read := @readSource_writeAll { options with frontMatter := false } rfl _ valid
  rw [bracket, readSource_of_bracket, readContent_frontMatter] at read
  rw [bracket, readSource_of_bracket]
  exact read

end MarkupFormat.Markup

namespace MarkupFormat.Format

open Annotate (IsLone isEdgeSensitive isPreLike isScriptLike loneContent loneDisplay loneTree loneValue)
open Layout (Doc)
open Layout.Doc (IsEnclosed)
open Markup (Element Fragment Html Inert NodeInfo Tag Tree)
open Print (IsLonePage breaksText fillWords printedPieces)
open Text (Cut byteLength isMarkupSpace unlines)

/-- An element without attributes that holds one text, and what follows it. -/
def loneSource (name : String) (value after : List Char) : List Char :=
  Html.startTag name [] ++ (value ++ (Html.endTag name ++ after))

/-- An element without attributes as it is read. -/
abbrev loneNamed (name : String) : Element :=
  Html.placedElement 0 name []

/-- Lines between the tags of an element. -/
def betweenTags (name : String) (lines : List (List Char)) : List Char :=
  unlines (Html.startTag name [] :: (lines ++ [Html.endTag name]))

theorem betweenTags_eq_intercalate (name : String) {lines : List (List Char)} (nonempty : lines ≠ []) :
    betweenTags name lines =
      Html.startTag name [] ++ ['\n'] ++ ['\n'].intercalate lines ++ ['\n'] ++ Html.endTag name ++ ['\n'] := by
  have inner := Text.unlines_eq_intercalate nonempty
  have whole : betweenTags name lines =
      Html.startTag name [] ++ ['\n'] ++ unlines lines ++ Html.endTag name ++ ['\n'] := by
    simp [betweenTags, unlines]
  rw [whole, inner]
  simp only [List.append_assoc]

theorem ordinary_of_isNameChar {c : Char} (isChar : Html.isNameChar c = true) : Text.Ordinary c := by
  have visible (low high : Nat) (between : low ≤ c.toNat ∧ c.toNat ≤ high) (inside : 0x20 ≤ low ∧ high < 0x7F) :
      Text.Ordinary c := Text.ordinary_of_visible (by omega) (by omega)
  rcases Bool.or_eq_true_iff.mp isChar with letterOrDigit | dash
  · rcases Bool.or_eq_true_iff.mp (letterOrDigit : (c.isAlpha || c.isDigit) = true) with letter | digit
    · rcases Bool.or_eq_true_iff.mp (letter : (c.isUpper || c.isLower) = true) with upper | lower
      · exact visible 65 90 (of_decide_eq_true upper) (by decide)
      · exact visible 97 122 (Text.toNat_of_between lower) (by decide)
    · exact visible 48 57 (Text.toNat_of_between digit) (by decide)
  · rw [of_decide_eq_true dash]
    exact .inr (by decide)

/-- A text stands in an element whose edges do not show, or whose lines are kept. -/
structure Holds (options : Options) (name : String) (value : List Char) : Prop where
  valid : (Html.element name [] [.text (String.ofList value)]).Valid
  said : value.all isMarkupSpace = false
  ended : (Tag.ofName name).isVoid = false
  keeps : (Tag.ofName name).ignoresFirstLineFeed = false
  flows : ["html", "head", "ul", "ol", "select"].contains name = false
  noPre : isPreLike (.element (loneNamed name)) = false
  inert : isScriptLike (.element (loneNamed name)) = true ∨ Inert value
  edges : isScriptLike (.element (loneNamed name)) = true ∨
    isEdgeSensitive (loneDisplay (loneNamed name) options.sensitivity) = false
  noTable : (loneDisplay (loneNamed name) options.sensitivity).isTable = false

/-! ### Reading -/

/-- The element where it is read. -/
def elementInfo (name : String) (value : List Char) : NodeInfo :=
  let inner := byteLength (Html.startTag name [])
  let outer := inner + byteLength value
  let stop := outer + byteLength (Html.endTag name)
  { kind := .element (loneNamed name), span := ⟨0, stop⟩, startSpan := some ⟨0, inner⟩, endSpan := some ⟨outer, stop⟩ }

/-- The text where it is read. -/
def textInfo (name : String) (value : List Char) : NodeInfo :=
  let inner := byteLength (Html.startTag name [])
  { kind := .text (String.ofList value), span := ⟨inner, inner + byteLength value⟩ }

theorem ofList_ne_empty {cs : List Char} (said : cs.all isMarkupSpace = false) : String.ofList cs ≠ "" := by
  intro empty
  rw [← String.toList_ofList (l := cs), empty] at said
  cases said

/-- The nodes of the source. -/
def loneNodes (name : String) (value after : List Char) : List Fragment :=
  loneContent (elementInfo name value) (textInfo name value) (byteLength (loneSource name value [])) after

theorem byteLength_startTag_pos (name : String) : 0 < byteLength (Html.startTag name []) := by
  rw [Html.byteLength_startTag]
  omega

theorem cut_endTag (name : String) (value after : List Char) : ∃ span, (elementInfo name value).endSpan = some span ∧
    Cut (loneSource name value after) span.start span.stop (Html.endTag name) := by
  refine ⟨_, rfl, Html.startTag name [] ++ value, after, ?_, Text.byteLength_append .., rfl⟩
  simp [loneSource]

namespace Holds

variable {options : Options} {name : String} {value after : List Char} (holds : Holds options name value)

include holds

theorem opens : Tree.isSelfClosing (elementInfo name value) = false := by
  have apart := byteLength_startTag_pos name
  have noVoid : (loneNamed name).tag.isVoid = false := holds.ended
  have differs : (elementInfo name value).endSpan ≠ (elementInfo name value).startSpan := by
    intro same
    have starts := congrArg Markup.Span.start (Option.some.inj same)
    have starts : byteLength (Html.startTag name []) + byteLength value = 0 := starts
    omega
  unfold Tree.isSelfClosing
  rw [decide_eq_false differs, Bool.and_false]
  exact congrArg (false || · || false) noVoid

theorem placed : (Html.element name [] [.text (String.ofList value)]).placed 0 =
    .node (elementInfo name value) [.node (textInfo name value) []] := by
  simp [Html.placed, Html.placedAll, Html.writeAll, Html.write, holds.ended, elementInfo, textInfo, Fragment.leaf]

theorem write : (Html.element name [] [.text (String.ofList value)]).write = loneSource name value [] := by
  simp [Html.write, Html.writeAll, holds.ended, loneSource]

theorem exists_htmls (blank : after.all isMarkupSpace = true) : ∃ htmls, Html.ValidAll htmls ∧
    Html.writeAll htmls = loneSource name value after ∧ Html.placedAll 0 htmls = loneNodes name value after := by
  by_cases none : after = []
  · refine ⟨[.element name [] [.text (String.ofList value)]], ⟨holds.valid, by simp [Html.isText], trivial⟩, ?_, ?_⟩
    · rw [Html.writeAll, holds.write, none]
      exact List.append_nil _
    · rw [Html.placedAll, holds.placed, none]
      rfl
  · have plain : Text.Templated (· != '<') after :=
      Text.templated_of_forall fun c member => by
        obtain ⟨noTag, noBlock⟩ := Markup.inert_of_isMarkupSpace blank c member
        exact ⟨by simpa using noTag, noBlock⟩
    have isText : (Html.text (String.ofList after)).Valid := by
      refine ⟨fun empty => none ?_, by rwa [String.toList_ofList]⟩
      rw [← String.toList_ofList (l := after), empty]
      rfl
    refine ⟨[.element name [] [.text (String.ofList value)], .text (String.ofList after)],
      ⟨holds.valid, by simp [Html.isText], isText, by simp, trivial⟩, ?_, ?_⟩
    · rw [Html.writeAll, holds.write, Html.writeAll, Html.writeAll, Html.write, String.toList_ofList]
      simp [loneSource]
    · rw [Html.placedAll, holds.placed, holds.write]
      simp [Html.placedAll, Html.placed, loneNodes, loneContent, Markup.spaceNodes, none]

/-- The source is read unless it is too large. -/
theorem parse_eq_ok_iff (blank : after.all isMarkupSpace = true) {nodes : List Fragment} :
    Markup.parse (String.ofList (loneSource name value after)) {} = .ok nodes ↔
      nodes = loneNodes name value after ∧ byteLength (loneSource name value after) ≤ Markup.maxSourceBytes := by
  obtain ⟨htmls, valid, written, placed⟩ := holds.exists_htmls blank
  have bracket : Html.writeAll htmls = '<' :: _ := written
  have read : Markup.readSource {} (loneSource name value after) = .ok (loneNodes name value after) := by
    rw [← written, Markup.readSource_writeAll_of_bracket valid bracket, placed]
  rw [Markup.parse_eq_ok_iff, read]
  exact and_congr_left fun _ => ⟨fun same => (Except.ok.inj same).symm, fun same => congrArg Except.ok same.symm⟩

/-! ### Printing -/

theorem exists_isLonePage (blank : after.all isMarkupSpace = true) :
    let source := String.ofList (loneSource name value after)
    ∃ root element text, IsLonePage
      (plainPage options (Annotate.ofContent source options (loneNodes name value after)).tree)
      source root element text (loneNamed name) (loneValue (loneNamed name) (String.ofList value)) := by
  intro source
  have isLone : IsLone { kind := .root, span := ⟨0, 0⟩ } (elementInfo name value) (textInfo name value) (loneNamed name)
      (String.ofList value) := ⟨rfl, rfl, rfl, rfl⟩
  have said : (String.ofList value).toList.all isMarkupSpace = false := by
    rw [String.toList_ofList]
    exact holds.said
  have inert : isScriptLike (.element (loneNamed name)) = true ∨ Inert (String.ofList value).toList := by
    rw [String.toList_ofList]
    exact holds.inert
  obtain ⟨root, element, text, tree, settled, ends⟩ := Annotate.exists_ofContent_lone source options isLone blank said
    holds.keeps holds.noPre inert holds.opens holds.edges holds.noTable
  have tree : (Annotate.ofContent source options (loneNodes name value after)).tree =
      loneTree source root element text := tree
  obtain ⟨span, isEnd, cut⟩ := cut_endTag name value after
  let page := plainPage options (Annotate.ofContent source options (loneNodes name value after)).tree
  have written : page.sourceText span = String.ofList (Html.endTag name) := by
    have chars : page.source = source.toList := congrArg (·.source.toList) tree
    show Text.slice page.source span.start span.stop = _
    rw [chars, String.toList_ofList]
    exact cut.slice_eq
  refine ⟨root, element, text, tree, settled, rfl, rfl, rfl, ⟨span, ends.trans isEnd, ?_⟩, holds.flows, holds.noPre⟩
  intro glued
  -- An end tag without a name would say nothing of the element, but names begin with a letter.
  obtain ⟨first, rest, front, letter⟩ := holds.valid.1.start
  rw [written, Html.endTag, front, ← String.toList_inj, String.toList_ofList] at glued
  have slash : first = '/' := by
    have inside : first = '/' ∧ rest = [] := by simpa using glued
    exact inside.1
  rw [slash] at letter
  cases letter

/-! ### Formatting -/

variable {source : String} (same : Text.normalizeLineEndings source = String.ofList (loneSource name value after))

include same

theorem isSkipped_eq_false (noRequirement : options.requirePragma = false) : isSkipped source options = false := by
  obtain ⟨first, rest, front, letter⟩ := holds.valid.1.start
  have other : '!' ≠ first := Html.ne_of_isAlpha letter rfl
  have whole : ∃ more, loneSource name value after = '<' :: first :: more := by
    simp [loneSource, Html.startTag, front]
  have noComment (word : List Char) : Pragma.opensComment (loneSource name value after) word = false := by
    obtain ⟨more, whole⟩ := whole
    have noPrefix : Text.dropPrefix? "<!--".toList ('<' :: first :: more) = none :=
      if_neg (Bool.eq_false_iff.mp (Html.isPrefixOf_of_second_ne other))
    unfold Pragma.opensComment
    rw [whole, List.dropWhile_cons_of_neg (by decide), noPrefix]
    rfl
  have noPragma (pragma : Pragma) : pragma.isIn (String.ofList (loneSource name value after)) = false := by
    unfold Pragma.isIn
    rw [String.toList_ofList, List.any_eq_false]
    exact fun word _ => ne_true_of_eq_false (noComment word.toList)
  rw [← isSkipped_normalizeLineEndings, same]
  unfold isSkipped
  rw [noPragma, noRequirement]
  rfl

variable (blank : after.all isMarkupSpace = true) (noRequirement : options.requirePragma = false)

include blank noRequirement

/-- The source is formatted unless it is too large. -/
theorem exists_format_iff : (∃ output, format source options = .ok output) ↔
    byteLength (loneSource name value after) ≤ Markup.maxSourceBytes := by
  constructor
  · rintro ⟨output, formatted⟩
    obtain ⟨annotated, _, annotates, -⟩ :=
      Format.exists_rendered formatted (holds.isSkipped_eq_false same noRequirement)
    obtain ⟨nodes, read, -⟩ := Annotate.exists_parsed annotates
    rw [same] at read
    exact ((holds.parse_eq_ok_iff blank).mp read).2
  · intro small
    have read := (holds.parse_eq_ok_iff blank).mpr ⟨rfl, small⟩
    rw [← same] at read
    exact exists_format_of_parse read

/-- The source is formatted as its document. -/
theorem exists_rendered (noInsertion : options.insertPragma = false)
    (feeds : options.config.lineEnding = .lf) {first : List Char} {others : List (List Char)}
    (pieces : printedPieces (loneNamed name) (loneValue (loneNamed name) (String.ofList value)).toList =
      first :: others) {output : String} (formatted : format source options = .ok output) :
    ∃ doc : Doc, output = doc.render options.config ∧ doc.MarksTellApart ∧
      IsEnclosed options.config.ruler (Html.startTag name []) (breaksText (loneNamed name))
        (fillWords (isScriptLike (.element (loneNamed name))) (first :: others)) (Html.endTag name) doc.unfolded := by
  obtain ⟨annotated, doc, annotates, yields, rendered⟩ := Format.exists_rendered formatted
    (holds.isSkipped_eq_false same noRequirement)
  have tree : annotated.tree =
      (Annotate.ofContent (String.ofList (loneSource name value after)) options (loneNodes name value after)).tree := by
    unfold Annotate.annotate at annotates
    dsimp only at annotates
    rw [same] at annotates
    cases read : Markup.parse (String.ofList (loneSource name value after)) {} with
    | error failure =>
      rw [read] at annotates
      cases annotates
    | ok nodes =>
      obtain ⟨rfl, -⟩ := (holds.parse_eq_ok_iff blank).mp read
      rw [read] at annotates
      exact congrArg Annotate.Annotated.tree (Except.ok.inj annotates).symm
  obtain ⟨root, element, text, isLone⟩ := holds.exists_isLonePage blank
  rw [← tree] at isLone
  have ordinary : Text.Within Text.Ordinary name.toList := fun c member =>
    ordinary_of_isNameChar (holds.valid.1.chars c member)
  have opening : ("<" ++ (loneNamed name).name ++ ">").toList = Html.startTag name [] := by
    simp [Html.startTag, Markup.HtmlAttribute.writeAll, Html.placedElement]
  have closing : ("</" ++ (loneNamed name).name ++ ">").toList = Html.endTag name := by
    simp [Html.endTag, Html.placedElement]
  have enclosed := yields _ (isLone.yields_print options.config.ruler ordinary pieces)
  rw [opening, closing] at enclosed
  refine ⟨doc, ?_, yields _ (Print.Page.marksTellApart_print rfl), enclosed⟩
  have config : { options.config with lineEnding := .lf } = options.config := by rw [← feeds]
  rw [noInsertion, feeds] at rendered
  rw [rendered]
  exact congrArg doc.render config

/-- The source is formatted as its document is always rendered, unless it is too large. -/
theorem format_eq_ok_iff (noInsertion : options.insertPragma = false) (feeds : options.config.lineEnding = .lf)
    {first : List Char} {others : List (List Char)}
    (pieces : printedPieces (loneNamed name) (loneValue (loneNamed name) (String.ofList value)).toList =
      first :: others) {expected : String}
    (renders : byteLength (loneSource name value after) ≤ Markup.maxSourceBytes → ∀ doc : Doc,
      doc.MarksTellApart → IsEnclosed options.config.ruler (Html.startTag name [])
      (breaksText (loneNamed name)) (fillWords (isScriptLike (.element (loneNamed name))) (first :: others))
      (Html.endTag name) doc.unfolded → doc.render options.config = expected) :
    format source options = .ok expected ↔ byteLength (loneSource name value after) ≤ Markup.maxSourceBytes := by
  have formats := holds.exists_format_iff same blank noRequirement
  refine ⟨fun formatted => formats.mp ⟨expected, formatted⟩, fun small => ?_⟩
  obtain ⟨output, formatted⟩ := formats.mpr small
  obtain ⟨doc, rendered, apart, isEnclosed⟩ :=
    holds.exists_rendered same blank noRequirement noInsertion feeds pieces formatted
  rw [formatted, rendered, renders small doc apart isEnclosed]

end Holds

end MarkupFormat.Format
