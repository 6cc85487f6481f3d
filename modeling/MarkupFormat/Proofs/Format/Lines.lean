import MarkupFormat.Proofs.Format.LoneElement
import MarkupFormat.Proofs.Text.Reindented
import MarkupFormat.Proofs.Text.WordBreaks

/-!
# The lines of an element

How the text of an element that stands alone is laid out in lines: words of a paragraph, and bodies whose lines are
kept.

A paragraph of plain words is formatted as one line if that fits. Otherwise its words stand on lines of their own
between its tags, each line as full as it can be, so no line is wider than it may be (`paragraph_of_format`).

The body of a script or a style sheet is indented anew between its tags, whatever the width of the lines, and once that
is done nothing changes any more (`reindented_of_format`).
-/

namespace MarkupFormat.Format

open Annotate (isScriptLike loneValue)
open Layout (Config FillWord WordLine elementColumns maxColumns wordColumns wrapAfter)
open Markup (Html Inert Tag)
open Print (fillWords printedPieces)
open Text (IsBody Ruler bodyLines byteLength displayWidth dropEnd indentLine isLineBlank isMarkupSpace normalizeChars
  runs unlines)

/-! ### Lines of words -/

/-- The lines of words that follow those on a line. Each takes as many words as it can, and later lines begin with
spaces. -/
def fillAfter (width indent : Nat) (line : List Char) : List (List Char) → List (List Char)
  | [] => [line]
  | word :: words =>
    if line.length + 1 + word.length ≤ width then fillAfter width indent (line ++ ' ' :: word) words
    else line :: fillAfter width indent (List.replicate indent ' ' ++ word) words

/-- The lines of words, each of which begins with spaces. -/
def filled (width indent : Nat) : List (List Char) → List (List Char)
  | [] => []
  | word :: words => fillAfter width indent (List.replicate indent ' ' ++ word) words

/-- A paragraph on one line. -/
def paragraphLine (words : List (List Char)) : List Char :=
  Html.startTag "p" [] ++ [' '].intercalate words ++ Html.endTag "p"

/-- The lines of a paragraph. -/
def paragraphLines (width indent : Nat) (words : List (List Char)) : List (List Char) :=
  if (paragraphLine words).length ≤ width then [paragraphLine words]
  else Html.startTag "p" [] :: (filled width indent words ++ [Html.endTag "p"])

/-- A text of letters and white space. -/
abbrev IsProse (cs : List Char) : Prop :=
  ∀ c ∈ cs, c.isLower = true ∨ isMarkupSpace c = true

section Filling

variable {width indent : Nat} {words : List (List Char)} {line : List Char}

theorem length_le_of_mem_fillAfter (fits : line.length ≤ width)
    (narrow : ∀ word ∈ words, indent + word.length ≤ width) :
    ∀ other ∈ fillAfter width indent line words, other.length ≤ width := by
  fun_induction fillAfter width indent line words with
  | case1 line => exact List.forall_mem_singleton.mpr fits
  | case2 line word words room ih =>
    refine ih ?_ (List.forall_mem_cons.mp narrow).2
    rw [List.length_append, List.length_cons]
    omega
  | case3 line word words full ih =>
    obtain ⟨here, behind⟩ := List.forall_mem_cons.mp narrow
    refine List.forall_mem_cons.mpr ⟨fits, ih ?_ behind⟩
    rwa [List.length_append, List.length_replicate]

theorem length_le_of_mem_paragraphLines (wide : 4 ≤ width) (narrow : ∀ word ∈ words, indent + word.length ≤ width) :
    ∀ other ∈ paragraphLines width indent words, other.length ≤ width := by
  unfold paragraphLines
  split
  · next fits => exact List.forall_mem_singleton.mpr fits
  · have inside : ∀ other ∈ filled width indent words, other.length ≤ width := by
      cases words with
      | nil => exact nofun
      | cons word words =>
        obtain ⟨here, behind⟩ := List.forall_mem_cons.mp narrow
        refine length_le_of_mem_fillAfter ?_ behind
        rwa [List.length_append, List.length_replicate]
    have tags : (Html.startTag "p" []).length ≤ width ∧ (Html.endTag "p").length ≤ width :=
      ⟨Nat.le_trans (by decide) wide, wide⟩
    refine List.forall_mem_cons.mpr ⟨tags.1, List.forall_mem_append.mpr ⟨inside, ?_⟩⟩
    exact List.forall_mem_singleton.mpr tags.2

end Filling

/-! ### Words of letters -/

/-- A word of letters that may stand on the line of the word before it. -/
structure IsLettered (word : FillWord) : Prop where
  free : word.forced = false
  nonempty : word.content.toList ≠ []
  letters : ∀ c ∈ word.content.toList, c.isLower = true

theorem toNat_of_isLower {c : Char} (lower : c.isLower = true) : 97 ≤ c.toNat ∧ c.toNat ≤ 122 :=
  Text.toNat_of_between lower

theorem isPlainAscii_of_isLower {c : Char} (lower : c.isLower = true) : Text.isPlainAscii c = true := by
  obtain ⟨low, high⟩ := toNat_of_isLower lower
  have noTab : c ≠ '\t' := by
    rintro rfl
    cases lower
  simp only [Text.isPlainAscii, Bool.and_eq_true, decide_eq_true_eq, bne_iff_ne]
  exact ⟨by omega, noTab⟩

variable {word : FillWord} {line : WordLine} {words : List FillWord}

theorem IsLettered.isSolid (lettered : IsLettered word) : word.IsSolid := by
  refine ⟨lettered.nonempty, fun c member => ?_⟩
  have lower := lettered.letters c member
  obtain ⟨low, high⟩ := toNat_of_isLower lower
  constructor
  · rw [Bool.eq_false_iff]
    intro blank
    simp only [isLineBlank, Bool.or_eq_true, decide_eq_true_eq] at blank
    rcases blank with rfl | rfl <;> cases lower
  · simp only [Text.isControl, Bool.or_eq_false_iff, Bool.and_eq_false_iff, decide_eq_false_iff_not]
    omega

theorem IsLettered.displayWidth_content (lettered : IsLettered word) (ruler : Ruler) :
    displayWidth word.content ruler = word.content.toList.length :=
  if_pos (List.all_eq_true.mpr fun c member => isPlainAscii_of_isLower (lettered.letters c member))

/-- A line of letters and spaces is as wide as it is long. -/
theorem width_eq_length (lettered : ∀ word ∈ line.words, IsLettered word) (ruler : Ruler) :
    line.width ruler = line.text.length := by
  obtain ⟨first, others⟩ := List.forall_mem_cons.mp lettered
  have ascii : line.text.all Text.isPlainAscii = true := by
    rw [List.all_eq_true]
    intro c member
    rcases List.mem_append.mp member with before | behind
    · rcases List.mem_append.mp before with space | inside
      · rw [List.eq_of_mem_replicate space]
        rfl
      · exact isPlainAscii_of_isLower (first.letters c inside)
    · obtain ⟨word, isOther, inside⟩ := List.mem_flatMap.mp behind
      rcases List.mem_cons.mp inside with rfl | inside
      · rfl
      · exact isPlainAscii_of_isLower ((others word isOther).letters c inside)
  have measured := Layout.displayWidth_text ruler fun word member => (lettered word member).isSolid
  rw [← measured]
  unfold displayWidth
  rw [String.toList_ofList, if_pos ascii]

theorem dropEnd_text (lettered : ∀ word ∈ line.words, IsLettered word) : dropEnd isLineBlank line.text = line.text :=
  Text.dropEnd_of_last (WordLine.solid_text fun word member => (lettered word member).isSolid)

/-- The words of a fill are wrapped as they are filled. -/
theorem map_wrapAfter (config : Config) (start : Nat) (lettered : ∀ word ∈ line.words ++ words, IsLettered word) :
    (wrapAfter config start line words).map (dropEnd isLineBlank ·.text) =
      fillAfter config.printWidth start line.text (words.map (·.content.toList)) := by
  induction words generalizing line with
  | nil =>
    rw [List.append_nil] at lettered
    rw [wrapAfter, List.map_singleton, dropEnd_text lettered]
    rfl
  | cons word words ih =>
    obtain ⟨here, behind⟩ := List.forall_mem_append.mp lettered
    obtain ⟨isWord, later⟩ := List.forall_mem_cons.mp behind
    rw [wrapAfter, List.map_cons, fillAfter, width_eq_length here, isWord.displayWidth_content]
    by_cases room : line.text.length + 1 + word.content.toList.length ≤ config.printWidth
    · rw [if_pos ⟨isWord.free, room⟩, if_pos room, ← WordLine.text_add]
      refine ih fun other member => lettered other ?_
      simpa [WordLine.add, WordLine.words] using member
    · have fresh : (⟨start, word, []⟩ : WordLine).text = List.replicate start ' ' ++ word.content.toList :=
        List.append_nil _
      rw [if_neg fun both => room both.2, if_neg room, List.map_cons, dropEnd_text here, ← fresh]
      exact congrArg _ (ih behind)

/-! ### Formatting -/

variable {options : Options} {text : List Char}

theorem inert_of_isProse (prose : IsProse text) : Inert text := by
  intro c member
  constructor
  · rintro rfl
    cases (prose _ member).elim id id
  · rintro rfl
    cases (prose _ member).elim id id

theorem holds_of_isProse (css : options.sensitivity = .css) (prose : IsProse text)
    (said : text.all isMarkupSpace = false) : Holds options "p" text := by
  have inert := inert_of_isProse prose
  have templated : Text.Templated (· != '<') (String.ofList text).toList := by
    rw [String.toList_ofList]
    exact Text.templated_of_forall fun c member => ⟨by simpa using (inert c member).1, (inert c member).2⟩
  have valid : (Html.element "p" [] [.text (String.ofList text)]).Valid :=
    ⟨⟨⟨'p', [], rfl, rfl⟩, List.all_eq_true.mp rfl, by decide⟩, nofun,
      ⟨⟨⟨ofList_ne_empty said, templated⟩, nofun, trivial⟩, by
        intro child member inner named
        rw [List.mem_singleton.mp member] at named
        cases named⟩⟩
  refine ⟨valid, said, rfl, rfl, rfl, by decide, .inr inert, .inr ?_, ?_⟩
  · rw [css]
    decide
  · rw [css]
    rfl

theorem isLettered_of_mem_runs (prose : IsProse text) : ∀ word ∈ fillWords false (runs text), IsLettered word := by
  refine List.forall_mem_map.mpr fun run isRun => ?_
  obtain ⟨isPiece, nonempty⟩ := List.mem_filter.mp isRun
  refine ⟨rfl, ?_, ?_⟩
  · rw [String.toList_ofList]
    simpa using nonempty
  · rw [String.toList_ofList]
    intro c member
    refine (prose c (Text.subset_of_mem_splitOnChars isPiece member)).resolve_right fun space => ?_
    rw [Text.eq_false_of_mem_splitOnChars isPiece c member] at space
    cases space

theorem printedPieces_eq_runs (prose : IsProse text) :
    printedPieces (loneNamed "p") (loneValue (loneNamed "p") (String.ofList text)).toList = runs text := by
  have flows : isScriptLike (.element (loneNamed "p")) = false := by decide
  unfold printedPieces loneValue
  rw [flows, if_neg Bool.false_ne_true, if_neg Bool.false_ne_true, String.toList_ofList, String.toList_ofList,
    Text.words_dropEnds]
  exact Text.words_eq_runs fun c member => (inert_of_isProse prose c member).2

theorem text_eq_intercalate (word : List Char) (others : List (List Char)) :
    (⟨0, ⟨false, String.ofList word⟩, fillWords false others⟩ : WordLine).text =
      [' '].intercalate (word :: others) := by
  have first : (⟨0, ⟨false, String.ofList word⟩, fillWords false others⟩ : WordLine).text =
      word ++ others.flatMap (' ' :: ·) := by
    simp [WordLine.text, fillWords, List.flatMap_map]
  rw [first]
  clear first
  induction others generalizing word with
  | nil => simp
  | cons next others ih =>
    rw [List.intercalate_cons_cons, ← ih, List.flatMap_cons]
    simp

theorem filled_eq_map {config : Config} {first : List Char} {others : List (List Char)}
    (lettered : ∀ word ∈ fillWords false (first :: others), IsLettered word) :
    filled config.printWidth config.tabWidth (first :: others) =
      (wrapAfter config config.tabWidth ⟨config.tabWidth, ⟨false, String.ofList first⟩, []⟩
        (fillWords false others)).map (dropEnd isLineBlank ·.text) := by
  have onLine : ∀ word ∈ (⟨config.tabWidth, ⟨false, String.ofList first⟩, []⟩ : WordLine).words ++
      fillWords false others, IsLettered word := lettered
  rw [map_wrapAfter config config.tabWidth onLine]
  have contents : (fillWords false others).map (·.content.toList) = others := by
    simp [fillWords, Function.comp_def]
  rw [contents, filled]
  simp [WordLine.text]

theorem wordColumns_of_lettered (ruler : Ruler) {words : List (List Char)}
    (lettered : ∀ word ∈ fillWords false words, IsLettered word) :
    wordColumns ruler (fillWords false words) = (words.flatMap (' ' :: ·)).length := by
  induction words with
  | nil => rfl
  | cons word words ih =>
    obtain ⟨here, behind⟩ := List.forall_mem_cons.mp lettered
    have width := here.displayWidth_content ruler
    rw [String.toList_ofList] at width
    show wordColumns ruler (⟨false, String.ofList word⟩ :: fillWords false words) = _
    rw [Layout.wordColumns_cons, width, ih behind, List.flatMap_cons, List.length_append, List.length_cons,
      Nat.add_comm 1]

theorem totalColumns_tags (ruler : Ruler) :
    Text.totalColumns ruler (Html.startTag "p" []) = (Html.startTag "p" []).length ∧
      Text.totalColumns ruler (Html.endTag "p") = (Html.endTag "p").length :=
  ⟨Text.totalColumns_eq_length ruler (by decide) (by decide), Text.totalColumns_eq_length ruler (by decide) (by decide)⟩

/-- Looking ahead tells the columns of a paragraph that is not too large to be read. -/
theorem tells_of_prose (told : options.config.printWidth < maxColumns ∨ options.config.tabWidth ≤ Markup.maxSourceBytes)
    (lettered : ∀ word ∈ fillWords false (runs text), IsLettered word)
    (small : byteLength (loneSource "p" text []) ≤ Markup.maxSourceBytes) :
    options.config.Tells
      (elementColumns options.config (Html.startTag "p" []) (fillWords false (runs text)) (Html.endTag "p")) := by
  refine told.imp_right fun narrow => ?_
  have tags := totalColumns_tags options.config.ruler
  have lengths : (Html.startTag "p" []).length = 3 ∧ (Html.endTag "p").length = 4 := by decide
  have words := Text.length_flatMap_runs_le text
  have chars := Text.length_le_byteLength text
  have most : Markup.maxSourceBytes = 2 ^ 32 - 1 := rfl
  have enough : maxColumns = 2 ^ 63 - 1 := rfl
  rw [loneSource, Text.byteLength_append, Text.byteLength_append] at small
  rw [elementColumns, wordColumns_of_lettered options.config.ruler lettered, tags.1, tags.2, lengths.1, lengths.2]
  omega

/-- A paragraph whose lines end alike is formatted as its lines, unless it is too large. -/
theorem format_prose_iff {source : String}
    (same : Text.normalizeLineEndings source = String.ofList (loneSource "p" text [])) (prose : IsProse text)
    (said : text.all isMarkupSpace = false)
    (css : options.sensitivity = .css) (spaces : options.config.useTabs = false)
    (feeds : options.config.lineEnding = .lf) (noRequirement : options.requirePragma = false)
    (noInsertion : options.insertPragma = false)
    (told : options.config.printWidth < maxColumns ∨ options.config.tabWidth ≤ Markup.maxSourceBytes) :
    format source options =
        .ok (String.ofList (unlines (paragraphLines options.config.printWidth options.config.tabWidth (runs text)))) ↔
      byteLength (loneSource "p" text []) ≤ Markup.maxSourceBytes := by
  have holds := holds_of_isProse css prose said
  have flows : isScriptLike (.element (loneNamed "p")) = false := by decide
  have noBreak : Print.breaksText (loneNamed "p") = false := by decide
  have pieces := printedPieces_eq_runs prose
  have lettered := isLettered_of_mem_runs prose
  obtain ⟨first, others, isRuns⟩ := List.exists_cons_of_ne_nil (mt Text.runs_eq_nil_iff.mp (Bool.eq_false_iff.mp said))
  have tells := @tells_of_prose options text told lettered
  rw [isRuns] at pieces lettered tells ⊢
  refine holds.format_eq_ok_iff same rfl noRequirement noInsertion feeds pieces fun small doc apart isEnclosed => ?_
  rw [noBreak, flows] at isEnclosed
  have clean : ∀ word ∈ fillWords false (first :: others), '\n' ∉ word.content.toList := by
    intro word member feed
    cases (lettered word member).letters _ feed
  have free : ∀ word ∈ fillWords false (first :: others), word.forced = false := fun word member =>
    (lettered word member).free
  -- Letters take one column each, so the columns that are compared with the width are the length of the line.
  have measured : Text.totalColumns options.config.ruler (Html.startTag "p" []) +
      (⟨0, ⟨false, String.ofList first⟩, fillWords false others⟩ : WordLine).width options.config.ruler +
        Text.totalColumns options.config.ruler (Html.endTag "p") = (paragraphLine (first :: others)).length := by
    have tags := totalColumns_tags options.config.ruler
    have onLine : ∀ word ∈ (⟨0, ⟨false, String.ofList first⟩, fillWords false others⟩ : WordLine).words,
        IsLettered word := lettered
    rw [width_eq_length onLine, text_eq_intercalate, tags.1, tags.2, paragraphLine, List.length_append,
      List.length_append]
  by_cases fits : (paragraphLine (first :: others)).length ≤ options.config.printWidth
  · rw [paragraphLines, if_pos fits]
    refine (isEnclosed.render_fits apart rfl feeds spaces clean free (lettered _ List.mem_cons_self).isSolid
      (tells small) (measured.trans_le fits)).trans (congrArg String.ofList ?_)
    show Html.startTag "p" [] ++ (⟨0, ⟨false, String.ofList first⟩, fillWords false others⟩ : WordLine).text ++
      Html.endTag "p" ++ ['\n'] = unlines [paragraphLine (first :: others)]
    rw [text_eq_intercalate]
    exact (List.append_nil _).symm
  · rw [paragraphLines, if_neg fits]
    have wide := measured ▸ Nat.lt_of_not_le fits
    refine (isEnclosed.render_breaks apart rfl feeds spaces clean (.inr (tells small)) fun _ => ⟨free, wide⟩).trans
      (congrArg String.ofList ?_)
    rw [filled_eq_map lettered]
    refine (betweenTags_eq_intercalate "p" ?_).symm
    obtain ⟨head, lines, isHead, -⟩ := Layout.exists_wrapAfter options.config options.config.tabWidth
      ⟨options.config.tabWidth, ⟨false, String.ofList first⟩, []⟩ (fillWords false others)
    exact mt List.map_eq_nil_iff.mp (isHead ▸ List.cons_ne_nil head lines)

theorem isProse_normalizeChars (prose : IsProse text) : IsProse (normalizeChars text) := by
  intro c member
  by_cases ends : c = '\r' ∨ c = '\n'
  · rcases ends with rfl | rfl
    · exact .inr rfl
    · exact .inr rfl
  · rw [not_or] at ends
    exact prose c ((Text.mem_normalizeChars_iff ends.1 ends.2).mp member)

theorem normalizeChars_paragraph (text : List Char) :
    normalizeChars (Html.startTag "p" [] ++ text ++ Html.endTag "p") = loneSource "p" (normalizeChars text) [] := by
  have closing : normalizeChars (Html.endTag "p") = Html.endTag "p" := Text.normalizeChars_of_clean (by decide)
  have inner : normalizeChars (text ++ Html.endTag "p") = normalizeChars text ++ normalizeChars (Html.endTag "p") :=
    Text.normalizeChars_append_cons (by decide) text _
  rw [List.append_assoc, Text.normalizeChars_append (by decide), inner, closing]
  simp [loneSource]

/-- A paragraph of words is formatted as one line if that fits, and otherwise as lines that are as full as they can be,
between its tags. Unless a word is too long, no line is wider than it may be. Looking ahead has to tell the columns of one
step of indentation with those of the text. -/
theorem paragraph_of_format (prose : IsProse text) (said : text.all isMarkupSpace = false)
    (css : options.sensitivity = .css) (spaces : options.config.useTabs = false)
    (feeds : options.config.lineEnding = .lf) (noRequirement : options.requirePragma = false)
    (noInsertion : options.insertPragma = false)
    (told : options.config.printWidth < maxColumns ∨ options.config.tabWidth ≤ Markup.maxSourceBytes) :
    let source := Html.startTag "p" [] ++ text ++ Html.endTag "p"
    let width := options.config.printWidth
    let indent := options.config.tabWidth
    (format (String.ofList source) options = .ok (String.ofList (unlines (paragraphLines width indent (runs text)))) ↔
        byteLength (normalizeChars source) ≤ Markup.maxSourceBytes) ∧
      (4 ≤ width → (∀ word ∈ runs text, indent + word.length ≤ width) →
        ∀ line ∈ paragraphLines width indent (runs text), line.length ≤ width) := by
  intro source width indent
  have same : Text.normalizeLineEndings (String.ofList source) =
      String.ofList (loneSource "p" (normalizeChars text) []) := by
    unfold Text.normalizeLineEndings
    rw [String.toList_ofList, normalizeChars_paragraph]
  have saidToo : (normalizeChars text).all isMarkupSpace = false := by
    rw [Bool.eq_false_iff, Ne, ← Text.runs_eq_nil_iff, Text.runs_normalizeChars, Text.runs_eq_nil_iff, said]
    exact Bool.false_ne_true
  have formatted :=
    format_prose_iff same (isProse_normalizeChars prose) saidToo css spaces feeds noRequirement noInsertion told
  rw [Text.runs_normalizeChars, ← normalizeChars_paragraph] at formatted
  exact ⟨formatted, length_le_of_mem_paragraphLines⟩

/-- Words with all kinds of white space between and around them. -/
def looseWords : List Char :=
  " the quick\r\n\tbrown  fox\x0c".toList

theorem paragraph_of_format_looseWords : IsProse looseWords ∧ looseWords.all isMarkupSpace = false ∧
    format "<p> the quick\r\n\tbrown  fox\x0c</p>" { config := { printWidth := 14 } } =
      .ok "<p>\n  the quick\n  brown fox\n</p>\n" ∧
    ∀ line ∈ paragraphLines 14 2 (runs looseWords), line.length ≤ 14 := by
  have letters : looseWords.all (fun c => c.isLower || isMarkupSpace c) = true := by decide
  have prose : IsProse looseWords := by simpa [IsProse] using letters
  have said : looseWords.all isMarkupSpace = false := by decide
  have written : unlines (paragraphLines 14 2 (runs looseWords)) = "<p>\n  the quick\n  brown fox\n</p>\n".toList := by
    decide +kernel
  obtain ⟨formatted, fits⟩ := @paragraph_of_format { config := { printWidth := 14 } } looseWords prose said rfl rfl rfl
    rfl rfl (.inl (by decide))
  dsimp only at formatted fits
  rw [written, String.ofList_toList] at formatted
  exact ⟨prose, said, formatted.mpr (by decide +kernel), fits (by decide) (by decide +kernel)⟩

/-! ### Scripts and style sheets -/

/-- The names of the elements whose lines are kept. -/
abbrev KeepsLines (name : String) : Prop :=
  name = "script" ∨ name = "style"

/-- A body between its tags with a line for each of its lines. -/
def reindented (name : String) (width : Nat) (cs : List Char) : List Char :=
  betweenTags name ((bodyLines cs).map (indentLine width))

variable {name : String} {cs after : List Char}

theorem holds_of_isBody (keepsLines : KeepsLines name) (isBody : IsBody cs) : Holds options name cs := by
  have raw : Html.RawOnly [.text (String.ofList cs)] := by
    refine .inr ⟨_, rfl, ofList_ne_empty isBody.said, ?_⟩
    rw [String.toList_ofList]
    exact isBody.ends
  rcases keepsLines with rfl | rfl
  · have valid : (Html.element "script" [] [.text (String.ofList cs)]).Valid :=
      ⟨⟨⟨'s', "cript".toList, rfl, rfl⟩, List.all_eq_true.mp rfl, by decide⟩, nofun, raw⟩
    exact ⟨valid, isBody.said, rfl, rfl, rfl, by decide, .inl (by decide), .inl (by decide),
      by cases options.sensitivity <;> rfl⟩
  · have valid : (Html.element "style" [] [.text (String.ofList cs)]).Valid :=
      ⟨⟨⟨'s', "tyle".toList, rfl, rfl⟩, List.all_eq_true.mp rfl, by decide⟩, nofun, raw⟩
    exact ⟨valid, isBody.said, rfl, rfl, rfl, by decide, .inl (by decide), .inl (by decide),
      by cases options.sensitivity <;> rfl⟩

/-- Each line of a fill with forced lines only is a line of its own. -/
theorem wrapAfter_fillWords (config : Layout.Config) (first : List Char) (others : List (List Char)) :
    (wrapAfter config config.tabWidth ⟨config.tabWidth, ⟨true, String.ofList first⟩, []⟩ (fillWords true others)).map
      (dropEnd isLineBlank ·.text) = (first :: others).map (indentLine config.tabWidth) := by
  have forced : ∀ word ∈ fillWords true others, word.forced = true := List.forall_mem_map.mpr fun _ _ => rfl
  have line (text : List Char) : dropEnd isLineBlank
      (⟨config.tabWidth, ⟨true, String.ofList text⟩, []⟩ : WordLine).text = indentLine config.tabWidth text := by
    simp [WordLine.text, indentLine]
  rw [Layout.wrapAfter_of_forced forced, fillWords, List.map_cons, List.map_map, List.map_map, List.map_cons, line]
  exact congrArg _ (List.map_congr_left fun text _ => line text)

theorem loneSource_reindented (name : String) (width : Nat) (cs : List Char) :
    loneSource name ('\n' :: unlines ((bodyLines cs).map (indentLine width))) ['\n'] = reindented name width cs := by
  simp [loneSource, reindented, betweenTags, unlines]

/-- A body is formatted as its lines, unless it is too large. -/
theorem format_body_iff (keepsLines : KeepsLines name) (isBody : IsBody cs) (blank : after.all isMarkupSpace = true)
    (clean : '\r' ∉ after) (spaces : options.config.useTabs = false) (feeds : options.config.lineEnding = .lf)
    (noRequirement : options.requirePragma = false) (noInsertion : options.insertPragma = false) :
    format (String.ofList (loneSource name cs after)) options =
        .ok (String.ofList (reindented name options.config.tabWidth cs)) ↔
      byteLength (loneSource name cs after) ≤ Markup.maxSourceBytes := by
  have holds : Holds options name cs := holds_of_isBody keepsLines isBody
  have same : Text.normalizeLineEndings (String.ofList (loneSource name cs after)) =
      String.ofList (loneSource name cs after) := by
    have whole : '\r' ∉ loneSource name cs after := by
      have tags : '\r' ∉ Html.startTag name [] ∧ '\r' ∉ Html.endTag name := by
        rcases keepsLines with rfl | rfl <;> decide
      simp only [loneSource, List.mem_append, not_or]
      exact ⟨tags.1, isBody.clean, tags.2, clean⟩
    unfold Text.normalizeLineEndings
    rw [String.toList_ofList, Text.normalizeChars_of_clean whole]
  have isScript : isScriptLike (.element (loneNamed name)) = true := by
    rcases keepsLines with rfl | rfl <;> decide
  have breaks : Print.breaksText (loneNamed name) = true := by
    rcases keepsLines with rfl | rfl <;> decide
  have lines : printedPieces (loneNamed name) (loneValue (loneNamed name) (String.ofList cs)).toList =
      bodyLines cs := by
    unfold printedPieces loneValue
    rw [if_pos isScript, if_pos isScript, String.toList_ofList]
    rfl
  obtain ⟨first, others, pieces⟩ := List.exists_cons_of_ne_nil (Text.bodyLines_ne_nil cs)
  rw [pieces] at lines
  refine holds.format_eq_ok_iff same blank noRequirement noInsertion feeds lines fun _ doc apart isEnclosed => ?_
  rw [breaks, isScript] at isEnclosed
  have noFeeds : ∀ word ∈ fillWords true (first :: others), '\n' ∉ word.content.toList := by
    unfold fillWords
    rw [List.forall_mem_map, ← pieces]
    intro line member
    rw [String.toList_ofList]
    exact Text.feed_not_mem_linesOf member
  have broken := wrapAfter_fillWords options.config first others
  rw [← pieces] at broken
  have some : (bodyLines cs).map (indentLine options.config.tabWidth) ≠ [] := by
    rw [pieces]
    exact List.cons_ne_nil _ _
  have forced : ∀ word ∈ fillWords true others, word.forced = true := List.forall_mem_map.mpr fun _ _ => rfl
  refine (isEnclosed.render_breaks apart rfl feeds spaces noFeeds (.inl ⟨rfl, forced⟩) nofun).trans
    (congrArg String.ofList ?_)
  unfold reindented
  rw [betweenTags_eq_intercalate name some, ← broken]
  rfl

/-- The body of a script or a style sheet is indented anew, and doing so again changes nothing. -/
theorem reindented_of_format (keepsLines : KeepsLines name) (isBody : IsBody cs)
    (spaces : options.config.useTabs = false) (feeds : options.config.lineEnding = .lf)
    (noRequirement : options.requirePragma = false) (noInsertion : options.insertPragma = false) :
    let source := Html.startTag name [] ++ cs ++ Html.endTag name
    let output := reindented name options.config.tabWidth cs
    (format (String.ofList source) options = .ok (String.ofList output) ↔ byteLength source ≤ Markup.maxSourceBytes) ∧
      (format (String.ofList output) options = .ok (String.ofList output) ↔
        byteLength output ≤ Markup.maxSourceBytes) := by
  intro source output
  have first := @format_body_iff _ _ _ [] keepsLines isBody rfl nofun spaces feeds noRequirement noInsertion
  have again := @format_body_iff _ _ _ ['\n'] keepsLines (isBody.indented options.config.tabWidth) rfl (by decide)
    spaces feeds noRequirement noInsertion
  have written : loneSource name cs [] = source := by simp [loneSource, source]
  have settled : reindented name options.config.tabWidth
      ('\n' :: unlines ((bodyLines cs).map (indentLine options.config.tabWidth))) = output := by
    unfold output reindented
    rw [Text.bodyLines_indented isBody.said rfl]
  rw [written] at first
  rw [loneSource_reindented, settled] at again
  exact ⟨first, again⟩

/-- Lines with tabs and spaces before them, one without anything, and blanks at the ends. -/
def looseScript : List Char :=
  "  \n    if (x)\n \t    y()  \n\n\t   z()\n ".toList

theorem reindented_of_format_looseScript : IsBody looseScript ∧
    format "<script>  \n    if (x)\n \t    y()  \n\n\t   z()\n </script>" {} =
      .ok "<script>\n  if (x)\n    y()\n\n  z()\n</script>\n" ∧
    format "<script>\n  if (x)\n    y()\n\n  z()\n</script>\n" {} =
      .ok "<script>\n  if (x)\n    y()\n\n  z()\n</script>\n" := by
  have isBody : IsBody looseScript := ⟨by decide, by decide, by decide⟩
  have written : reindented "script" 2 looseScript = "<script>\n  if (x)\n    y()\n\n  z()\n</script>\n".toList := by
    decide +kernel
  obtain ⟨first, again⟩ := @reindented_of_format {} "script" looseScript (.inl rfl) isBody rfl rfl rfl rfl
  dsimp only at first again
  rw [written, String.ofList_toList] at first again
  exact ⟨isBody, first.mpr (by decide), again.mpr (by decide)⟩

end MarkupFormat.Format
