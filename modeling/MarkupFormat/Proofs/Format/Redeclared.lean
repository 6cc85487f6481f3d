import MarkupFormat.Proofs.Format.Settled
import MarkupFormat.Proofs.Markup.Surroundings
import MarkupFormat.Proofs.Print.Doctype

/-!
# Reading a formatted declaration

A formatted declaration is read as a declaration with the normal value only if it has the keyword of a document type or
is the value of an ordinary page (`holdsDeclaration_of_format_iff`). Otherwise the bytes in the place of a keyword are
part of the value, or the declaration is so short that it is printed as a whole and its value once more behind it.
-/

namespace MarkupFormat.Format

open Markup (Declares HoldsDeclaration declarationText doctypeValue)
open Print (normalizeDoctype)
open Text (LineEnding byteLength isMarkupSpace normalizeChars writtenChars)

variable {source before content head tail after : List Char} {options : Options}

/-! ### Line endings -/

theorem declares_normalizeChars_iff :
    Declares (declarationText (normalizeChars content)) [] (normalizeChars content) [] ↔
      Declares (declarationText content) [] content [] := by
  have bracket : '>' ∈ normalizeChars content ↔ '>' ∈ content := Text.mem_normalizeChars_iff (by decide) (by decide)
  have comment : "--".toList.isPrefixOf (normalizeChars content) = "--".toList.isPrefixOf content :=
    Text.isPrefixOf_normalizeChars (by decide) (by decide)
  have cdata : "[CDATA[".toList.isPrefixOf (normalizeChars content) = "[CDATA[".toList.isPrefixOf content :=
    Text.isPrefixOf_normalizeChars (by decide) (by decide)
  constructor
  · intro declares
    exact ⟨(List.append_nil _).symm, rfl, rfl, mt bracket.mpr declares.closed, comment.symm.trans declares.noComment,
      cdata.symm.trans declares.noCdata⟩
  · intro declares
    exact ⟨(List.append_nil _).symm, rfl, rfl, mt bracket.mp declares.closed, comment.trans declares.noComment,
      cdata.trans declares.noCdata⟩

theorem declares_followed (declares : Declares source before content after) {more : List Char}
    (blank : more.all isMarkupSpace = true) : Declares (declarationText content ++ more) [] content more :=
  ⟨rfl, rfl, blank, declares.closed, declares.noComment, declares.noCdata⟩

theorem declares_writtenChars (ending : LineEnding) (clean : '\r' ∉ content)
    (declares : Declares source before content after) :
    Declares (declarationText (writtenChars ending content)) [] (writtenChars ending content) [] := by
  rw [← declares_normalizeChars_iff, Text.normalizeChars_writtenChars ending clean]
  have alone := declares_followed declares (List.all_nil (f := isMarkupSpace))
  rwa [List.append_nil] at alone

theorem writtenChars_declarationText (ending : LineEnding) (content more : List Char) :
    writtenChars ending (declarationText content ++ more) =
      declarationText (writtenChars ending content) ++ writtenChars ending more := by
  have open_ : writtenChars ending "<!".toList = "<!".toList := Text.writtenChars_of_not_mem ending (by decide)
  have close : writtenChars ending ['>'] = ['>'] := Text.writtenChars_of_not_mem ending (by decide)
  unfold declarationText
  rw [Text.writtenChars_append, Text.writtenChars_append, Text.writtenChars_append, open_, close]

theorem all_writtenChars_feed (ending : LineEnding) : (writtenChars ending ['\n']).all isMarkupSpace = true := by
  cases ending with
  | lf | crlf | cr | auto => decide

theorem byteLength_writtenChars_feed_le (ending : LineEnding) : byteLength (writtenChars ending ['\n']) ≤ 2 := by
  cases ending with
  | lf | crlf | cr | auto => decide

theorem byteLength_normalizeChars_le (cs : List Char) : byteLength (normalizeChars cs) ≤ byteLength cs := by
  have feed : ('\n').utf8Size = 1 := by decide
  have return_ : ('\r').utf8Size = 1 := by decide
  fun_induction normalizeChars cs with
  | case1 => exact Nat.le_refl _
  | case2 cs ih | case3 cs _ ih | case4 c cs _ _ ih =>
    simp only [Text.byteLength_cons]
    omega

/-! ### The bytes in the place of a keyword -/

theorem isKeyword_take_iff (same : normalizeChars content = head ++ tail) (bytes : byteLength head = 7) :
    isKeyword (content.take 7) ↔ isKeyword head := by
  constructor
  · intro keyword
    have noReturn : '\r' ∉ content.take 7 := Print.not_mem_of_map_toLower keyword (by decide) (by decide)
    have whole : normalizeChars (content.take 7 ++ content.drop 7) = _ := Text.normalizeChars_append noReturn
    rw [List.take_append_drop, same] at whole
    have seven := congrArg byteLength keyword
    rw [Text.byteLength_map_toLower] at seven
    obtain ⟨rfl, -⟩ := Text.append_inj_of_byteLength whole (bytes.trans seven.symm)
    exact keyword
  · intro keyword
    have noFeed : '\n' ∉ head := Print.not_mem_of_map_toLower keyword (by decide) (by decide)
    obtain ⟨rest, rfl, -⟩ := Text.exists_of_normalizeChars_eq_append noFeed same
    rwa [List.take_left' (length_of_isKeyword keyword)]

theorem exists_cut_of_isKeyword (keyword : isKeyword (content.take 7)) :
    ∃ head tail, normalizeChars content = head ++ tail ∧ byteLength head = 7 := by
  have noReturn : '\r' ∉ content.take 7 := Print.not_mem_of_map_toLower keyword (by decide) (by decide)
  have whole : normalizeChars (content.take 7 ++ content.drop 7) = _ := Text.normalizeChars_append noReturn
  rw [List.take_append_drop] at whole
  have seven := congrArg byteLength keyword
  rw [Text.byteLength_map_toLower] at seven
  exact ⟨_, _, whole, seven⟩

/-- A declaration that cannot be cut where a keyword would end is printed as a whole before its value. -/
theorem declarationFront_of_uncut (uncut : ¬∃ head tail, content = head ++ tail ∧ byteLength head = 7)
    (special : ¬(doctypeValue content = "html".toList ∧ options.isHtmlFile = true)) :
    declarationFront options content = declarationText content := by
  unfold declarationFront
  rw [if_neg special]
  cases split : Text.splitBytes Print.Page.declarationBytes (declarationText content) with
  | none => rfl
  | some parts =>
    obtain ⟨start, rest⟩ := parts
    obtain ⟨whole, nine⟩ := Text.eq_of_splitBytes split
    have nine : byteLength start = 9 := nine
    have front : "<!".toList <+: start := by
      have opens : "<!".toList <+: start ++ rest := whole ▸ ⟨content ++ ['>'], by simp [declarationText]⟩
      rcases List.prefix_or_prefix_of_prefix opens (List.prefix_append start rest) with inside | ⟨more, longer⟩
      · exact inside
      · have bytes := congrArg byteLength longer
        have two : byteLength "<!".toList = 2 := by decide
        rw [Text.byteLength_append, nine, two] at bytes
        omega
    obtain ⟨head, rfl⟩ := front
    have two : byteLength "<!".toList = 2 := by decide
    rw [Text.byteLength_append, two] at nine
    have inside : content ++ ['>'] = head ++ rest := by
      unfold declarationText at whole
      rw [List.append_assoc, List.append_assoc] at whole
      exact List.append_cancel_left whole
    have opens : head <+: content ++ ['>'] := ⟨rest, inside.symm⟩
    rcases List.prefix_concat_iff.mp opens with all | ⟨tail, within⟩
    · show "<!".toList ++ head = declarationText content
      rw [all]
      exact (List.append_assoc ..).symm
    · exact absurd ⟨head, tail, within.symm, by omega⟩ uncut

theorem printedDeclaration_of_ordinary
    (ordinary : doctypeValue content = "html".toList ∧ options.isHtmlFile = true) :
    printedDeclaration options content = declarationText "doctype html".toList := by
  unfold printedDeclaration declarationFront
  rw [if_pos ordinary, ordinary.1]
  decide

/-! ### Reading -/

/-- The output of a declaration is read as the declaration that is printed, unless it is too large. -/
theorem holdsDeclaration_written_iff {output : String} {printed value : List Char} {ending : LineEnding}
    (declares : Declares (declarationText printed) [] printed []) (clean : '\r' ∉ printed)
    (same : output.toList = writtenChars ending (declarationText printed ++ ['\n'])) :
    (∃ nodes, Markup.parse output {} = .ok nodes ∧ HoldsDeclaration value nodes) ↔
      doctypeValue (writtenChars ending printed) = value ∧ byteLength output.toList ≤ Markup.maxSourceBytes := by
  have again : Declares output.toList [] (writtenChars ending printed) (writtenChars ending ['\n']) := by
    rw [same, writtenChars_declarationText]
    exact declares_followed (declares_writtenChars ending clean declares) (all_writtenChars_feed ending)
  constructor
  · rintro ⟨nodes, found, holds⟩
    rw [← String.ofList_toList (s := output), Markup.parse_eq_ok_iff, Markup.readSource_of_declares again] at found
    obtain ⟨read, small⟩ := found
    cases read
    exact ⟨(Markup.holdsDeclaration_iff again).mp holds, small⟩
  · rintro ⟨isValue, small⟩
    exact ⟨_, Markup.parse_of_declares again small, (Markup.holdsDeclaration_iff again).mpr isValue⟩

theorem return_not_mem_normalizeDoctype (value : List Char) : '\r' ∉ normalizeDoctype value :=
  fun member => absurd (Print.eq_space_of_mem_normalizeDoctype member (by decide)) (by decide)

theorem feed_not_mem_normalizeDoctype (value : List Char) : '\n' ∉ normalizeDoctype value :=
  fun member => absurd (Print.eq_space_of_mem_normalizeDoctype member (by decide)) (by decide)

theorem feed_not_mem_reprinted (keyword : isKeyword head) : '\n' ∉ reprinted options head tail := by
  have noFeed : '\n' ∉ head := Print.not_mem_of_map_toLower keyword (by decide) (by decide)
  intro member
  unfold reprinted printedKeyword at member
  rcases List.mem_append.mp member with member | member
  · split at member
    · exact absurd member (by decide)
    · exact noFeed member
  · rcases List.mem_cons.mp member with other | member
    · cases other
    · exact feed_not_mem_normalizeDoctype _ member

/-- Bytes that are no keyword are read as the front of the value. -/
theorem doctypeValue_writtenChars_reprinted_iff (ending : LineEnding) (bytes : byteLength head = 7)
    (clean : '\r' ∉ reprinted options head tail) :
    doctypeValue (writtenChars ending (reprinted options head tail)) = normalizeDoctype (doctypeValue (head ++ tail)) ↔
      isKeyword head := by
  constructor
  · intro isValue
    have read := congrArg normalizeChars isValue
    rw [← Print.doctypeValue_normalizeChars, Text.normalizeChars_writtenChars ending clean,
      Text.normalizeChars_of_clean (return_not_mem_normalizeDoctype _), doctypeValue_reprinted bytes] at read
    by_cases keyword : isKeyword head
    · exact keyword
    · rw [if_neg keyword] at read
      have size := congrArg byteLength read
      unfold reprinted at size
      rw [Text.byteLength_append, Text.byteLength_cons, byteLength_printedKeyword bytes] at size
      omega
  · intro keyword
    rw [Text.writtenChars_of_not_mem ending (feed_not_mem_reprinted keyword), doctypeValue_reprinted bytes,
      if_pos keyword]

theorem byteLength_declarationText (content : List Char) :
    byteLength (declarationText content) = byteLength content + 3 := by
  have two : byteLength "<!".toList = 2 := by decide
  have one : byteLength ['>'] = 1 := by decide
  unfold declarationText
  rw [Text.byteLength_append, Text.byteLength_append, two, one]
  omega

/-- The output of a document type is longer than its source by a keyword, a space and the end of the line at most. -/
theorem byteLength_written_reprinted_le (ending : LineEnding) (bytes : byteLength head = 7) (keyword : isKeyword head)
    (same : normalizeChars content = head ++ tail) :
    byteLength (writtenChars ending (declarationText (reprinted options head tail) ++ ['\n'])) ≤
      byteLength (declarationText content) + 10 := by
  have feed : byteLength (writtenChars ending ['\n']) ≤ 2 := byteLength_writtenChars_feed_le ending
  have value := Text.byteLength_le_of_suffix (doctypeValue_suffix (head ++ tail))
  have normal := Print.byteLength_normalizeDoctype_le (doctypeValue (head ++ tail))
  have shorter : byteLength (normalizeChars content) ≤ byteLength content := byteLength_normalizeChars_le content
  have space : (' ').utf8Size = 1 := by decide
  rw [writtenChars_declarationText, Text.writtenChars_of_not_mem ending (feed_not_mem_reprinted keyword),
    Text.byteLength_append, byteLength_declarationText, byteLength_declarationText]
  unfold reprinted
  rw [Text.byteLength_append, Text.byteLength_cons, byteLength_printedKeyword bytes, space]
  rw [same] at shorter
  omega

theorem holdsDeclaration_of_ordinary {output : String} {ending : LineEnding}
    (written : output.toList = writtenChars ending (declarationText "doctype html".toList ++ ['\n']))
    (small : 17 ≤ Markup.maxSourceBytes) :
    ∃ nodes, Markup.parse output {} = .ok nodes ∧ HoldsDeclaration "html".toList nodes := by
  have noFeed : '\n' ∉ "doctype html".toList := by decide
  have declares : Declares (declarationText "doctype html".toList) [] "doctype html".toList [] := by
    refine ⟨rfl, rfl, rfl, ?_, ?_, ?_⟩
    all_goals decide
  rw [holdsDeclaration_written_iff declares (by decide) written, Text.writtenChars_of_not_mem ending noFeed]
  refine ⟨by decide, ?_⟩
  have feed : byteLength (writtenChars ending ['\n']) ≤ 2 := byteLength_writtenChars_feed_le ending
  have size : byteLength "doctype html".toList = 12 := by decide
  rw [written, writtenChars_declarationText, Text.writtenChars_of_not_mem ending noFeed, Text.byteLength_append,
    byteLength_declarationText, size]
  omega

theorem holdsDeclaration_of_cut {output : String} {ending : LineEnding} (same : normalizeChars content = head ++ tail)
    (bytes : byteLength head = 7) (declares : Declares (declarationText content) [] content [])
    (small : byteLength (declarationText content) + 10 ≤ Markup.maxSourceBytes)
    (written : output.toList = writtenChars ending (printedDeclaration options (normalizeChars content) ++ ['\n'])) :
    (∃ nodes, Markup.parse output {} = .ok nodes ∧
      HoldsDeclaration (normalizeDoctype (doctypeValue content)) nodes) ↔ isKeyword (content.take 7) := by
  have normal := declares_normalizeChars_iff.mpr declares
  have value : normalizeDoctype (doctypeValue content) = normalizeDoctype (doctypeValue (head ++ tail)) := by
    rw [← same, Print.normalizeDoctype_doctypeValue_normalizeChars]
  have clean : '\r' ∉ reprinted options head tail :=
    not_mem_reprinted (same ▸ Text.return_not_mem_normalizeChars content) (by decide) (by decide)
  rw [same] at normal written
  rw [printedDeclaration_append bytes] at written
  have again : Declares _ [] (reprinted options head tail) ['\n'] := declares_reprinted bytes normal.first
  have printed := declares_followed again (List.all_nil (f := isMarkupSpace))
  rw [List.append_nil] at printed
  rw [holdsDeclaration_written_iff printed clean written, value, doctypeValue_writtenChars_reprinted_iff _ bytes clean,
    ← isKeyword_take_iff same bytes, and_iff_left_iff_imp]
  intro keyword
  rw [written]
  have isKeyword := (isKeyword_take_iff same bytes).mp keyword
  exact Nat.le_trans (byteLength_written_reprinted_le ending bytes isKeyword same) small

/-- A declaration that is printed as a whole. -/
theorem not_holdsDeclaration_of_whole {output : String} {ending : LineEnding} {value : List Char}
    (front : declarationFront options (normalizeChars content) = declarationText (normalizeChars content))
    (declares : Declares (declarationText content) [] content [])
    (written : output.toList = writtenChars ending (printedDeclaration options (normalizeChars content) ++ ['\n'])) :
    ¬∃ nodes, Markup.parse output {} = .ok nodes ∧ HoldsDeclaration value nodes := by
  rintro ⟨nodes, found, holds⟩
  have again := declares_writtenChars ending (Text.return_not_mem_normalizeChars content)
    (declares_normalizeChars_iff.mpr declares)
  let shown := ' ' :: normalizeDoctype (doctypeValue (normalizeChars content))
  have whole : printedDeclaration options (normalizeChars content) ++ ['\n'] =
      declarationText (normalizeChars content) ++ (shown ++ ['>'] ++ ['\n']) := by
    unfold printedDeclaration
    rw [front]
    simp [shown]
  rw [← String.ofList_toList (s := output), Markup.parse_eq_ok_iff, written, whole,
    writtenChars_declarationText] at found
  have blank := Markup.all_of_holdsDeclaration again.closed again.noComment again.noCdata found.1 holds
  have bracket : '>' ∈ writtenChars ending (shown ++ ['>'] ++ ['\n']) := by
    rw [Text.writtenChars_append, Text.writtenChars_append,
      Text.writtenChars_of_not_mem ending (by decide : '\n' ∉ ['>'])]
    simp
  exact absurd (List.all_eq_true.mp blank '>' bracket) (by decide)

/-- A declaration is read back from what it is formatted as, with its normal value, exactly if it has the keyword of a
document type or is the value of an ordinary page. -/
theorem holdsDeclaration_of_format_iff {source : String} (declares : Declares source.toList [] content [])
    (small : byteLength source.toList + 10 ≤ Markup.maxSourceBytes) (noRequirement : options.requirePragma = false)
    (noInsertion : options.insertPragma = false) :
    ∃ span output, Markup.parse source {} = .ok [.leaf (.doctype (String.ofList (doctypeValue content))) span] ∧
      format source options = .ok output ∧
      ((∃ nodes, Markup.parse output {} = .ok nodes ∧
          HoldsDeclaration (normalizeDoctype (doctypeValue content)) nodes) ↔
        isKeyword (content.take 7) ∨ doctypeValue content = "html".toList ∧ options.isHtmlFile = true) := by
  have text : source.toList = declarationText content := declares.whole.trans (List.append_nil _)
  have alone : Declares (declarationText content) [] content [] := text ▸ declares
  have lines : (Text.normalizeLineEndings source).toList = declarationText (normalizeChars content) := by
    unfold Text.normalizeLineEndings
    rw [String.toList_ofList, text, Print.normalizeChars_declarationText]
  have normal : Declares (Text.normalizeLineEndings source).toList [] (normalizeChars content) [] :=
    lines ▸ declares_normalizeChars_iff.mpr alone
  have smaller : byteLength (Text.normalizeLineEndings source).toList ≤ byteLength source.toList := by
    rw [lines, ← Print.normalizeChars_declarationText, ← text]
    exact byteLength_normalizeChars_le _
  obtain ⟨output, formatted, written⟩ : ∃ output, format source options = .ok output ∧
      output.toList = writtenChars (options.config.lineEnding.resolve source)
        (printedDeclaration options (normalizeChars content) ++ ['\n']) := by
    refine ⟨_, format_of_declares normal (by omega) noRequirement noInsertion, ?_⟩
    rw [Text.toList_writeLineEndings, String.toList_ofList]
  refine ⟨_, output, Markup.parse_of_declares declares (by omega), formatted, ?_⟩
  rw [text] at small
  have value : doctypeValue (normalizeChars content) = normalizeChars (doctypeValue content) :=
    Print.doctypeValue_normalizeChars content
  have html : doctypeValue (normalizeChars content) = "html".toList ↔ doctypeValue content = "html".toList := by
    rw [value]
    constructor
    · exact Text.eq_of_normalizeChars_eq (by decide)
    · intro same
      rw [same]
      exact Text.normalizeChars_of_clean (by decide)
  by_cases cut : ∃ head tail, normalizeChars content = head ++ tail ∧ byteLength head = 7
  · obtain ⟨head, tail, same, bytes⟩ := cut
    rw [holdsDeclaration_of_cut same bytes alone small written, iff_self_or]
    rintro ⟨ordinary, -⟩
    rw [isKeyword_take_iff same bytes]
    exact isKeyword_of_ordinary bytes (same ▸ html.mpr ordinary)
  · have noKeyword : ¬isKeyword (content.take 7) := mt exists_cut_of_isKeyword cut
    rw [or_iff_right noKeyword]
    by_cases special : doctypeValue content = "html".toList ∧ options.isHtmlFile = true
    · have four : byteLength "html".toList = 4 := by decide
      have inside := Text.byteLength_le_of_suffix (doctypeValue_suffix content)
      rw [special.1, four] at inside
      rw [byteLength_declarationText] at small
      rw [printedDeclaration_of_ordinary ⟨html.mpr special.1, special.2⟩] at written
      have normalValue : normalizeDoctype "html".toList = "html".toList := by decide
      rw [special.1, normalValue]
      exact iff_of_true (holdsDeclaration_of_ordinary written (by omega)) ⟨rfl, special.2⟩
    · have front := declarationFront_of_uncut cut (mt (And.imp_left html.mp) special)
      exact iff_of_false (not_holdsDeclaration_of_whole front alone written) special

theorem holdsDeclaration_of_format_iff_browserSection :
    ∃ span output, Markup.parse "<![if IE 8]>" {} = .ok [.leaf (.doctype "[if IE 8]") span] ∧
      format "<![if IE 8]>" {} = .ok output ∧
      ¬∃ nodes, Markup.parse output {} = .ok nodes ∧ HoldsDeclaration "[if IE 8]".toList nodes := by
  have declares : Declares "<![if IE 8]>".toList [] "[if IE 8]".toList [] := by
    refine ⟨rfl, rfl, rfl, ?_, ?_, ?_⟩
    all_goals decide
  have noInsertion : ({} : Options).insertPragma = false := rfl
  obtain ⟨span, output, read, formatted, holds⟩ := holdsDeclaration_of_format_iff declares (by decide) rfl noInsertion
  exact ⟨span, output, read, formatted, fun found => absurd (holds.mp found) (by decide)⟩

end MarkupFormat.Format
