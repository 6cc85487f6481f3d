import MarkupFormat.Cli.ErrorReport
import MarkupFormat.Proofs.Markup.Outcome

/-!
# Reports point at errors

The line of an error is counted while the source is read, and the line that a report shows is searched for in the
source. Both are the line around the place of the error, and the marks stand below the characters of that line that the
error covers (`errorReport_of_parse`).
-/

namespace MarkupFormat.Text

variable {p : Char → Bool} {above inLine part more : List Char}

theorem takeEnd_append (ends : ∀ c ∈ above.getLast?, p c = false) (all : inLine.all p = true) :
    takeEnd p (above ++ inLine) = inLine := by
  have stops : above.reverse.takeWhile p = [] := by
    cases reversed : above.reverse with
    | nil => rfl
    | cons c rest =>
      have last := ends c (by rw [← List.head?_reverse, reversed]; rfl)
      rw [List.takeWhile_cons, last]
      rfl
  unfold takeEnd
  rw [List.reverse_append, List.takeWhile_append_of_pos fun c member => ?_, stops, List.append_nil,
    List.reverse_reverse]
  exact List.all_eq_true.mp all c (List.mem_reverse.mp member)

theorem takeWhile_append_cases (p : Char → Bool) (part more : List Char) :
    part.takeWhile p = part ∧ (∃ rest, (part ++ more).takeWhile p = part ++ rest) ∨
      (part ++ more).takeWhile p = part.takeWhile p := by
  by_cases all : part.all p = true
  · have whole {more : List Char} : (part ++ more).takeWhile p = part ++ more.takeWhile p :=
      List.takeWhile_append_of_pos (List.all_eq_true.mp all)
    have alone := @whole []
    rw [List.takeWhile_nil, List.append_nil] at alone
    exact .inl ⟨alone, _, whole⟩
  · refine .inr ?_
    rw [List.takeWhile_append, if_neg fun whole => all ?_]
    rw [← (List.takeWhile_prefix p).eq_of_length whole, List.all_takeWhile]

end MarkupFormat.Text

namespace MarkupFormat.Cli

open Format (FormatError)
open Markup (ParseError ParseOptions)
open Text (Cut EndsLine byteLength normalizeLineEndings)

/-! ### The line of an error -/

namespace SourceLine

variable {above before rest : List Char}

theorem at?_append (ends : EndsLine above) (noFeed : '\n' ∉ before) :
    at? (above ++ before ++ rest) (byteLength (above ++ before)) = some ⟨before, rest.takeWhile (· ≠ '\n')⟩ := by
  have all : before.all (· ≠ '\n') = true :=
    List.all_eq_true.mpr fun c member => decide_eq_true fun feed => noFeed (feed ▸ member)
  unfold at?
  rw [Text.splitBytes_byteLength, Option.map_some]
  dsimp only
  rw [Text.takeEnd_append (fun c last => ?_) all]
  rw [ends c last]
  rfl

theorem covered_takeWhile (before part more : List Char) :
    covered ⟨before, (part ++ more).takeWhile (· ≠ '\n')⟩ (byteLength part) =
      (part.takeWhile (· ≠ '\n')).length := by
  unfold covered
  rcases Text.takeWhile_append_cases (· ≠ '\n') part more with ⟨whole, rest, longer⟩ | shorter
  · rw [whole, longer, Nat.min_eq_left (by rw [Text.byteLength_append]; omega), Text.splitBytes_byteLength]
  · have upTo : byteLength (part.takeWhile (· ≠ '\n')) ≤ byteLength part := by
      obtain ⟨rest, same⟩ := List.takeWhile_prefix (· ≠ '\n') (l := part)
      rw [← congrArg byteLength same, Text.byteLength_append]
      omega
    have whole := Text.splitBytes_byteLength (part.takeWhile (· ≠ '\n')) []
    rw [List.append_nil] at whole
    rw [shorter, Nat.min_eq_right upTo, whole]

end SourceLine

/-! ### Reports -/

/-- What a report begins with: what went wrong and where. -/
def reportHead (path : String) (error : ParseError) : String :=
  "error[" ++ error.code.text ++ "]: " ++ error.fault.message ++ "\n" ++
    "  --> " ++ path ++ ":" ++ toString error.line ++ ":" ++ toString error.column ++ "\n"

/-- What a report ends with: what may mend the error. -/
def reportTail (error : ParseError) : String :=
  remark "help" error.code.help? ++ remark "note" error.context? ++
    "\nnote: fix the syntax error to enable formatting\n"

/-- The rows of a report that show a line under its number, with marks below it behind some of its characters. -/
def markedLine (number : Nat) (line : List Char) (indent marks : Nat) : String :=
  let margin := "  " ++ repeated ' ' (toString number).length ++ " |"
  margin ++ "\n" ++
    "  " ++ toString number ++ " | " ++ String.ofList line ++ "\n" ++
    margin ++ " " ++ repeated ' ' indent ++ repeated '^' marks ++ "\n"

/-- A report points at an error of a source. The line around the place of the error is shown under its number, and the
marks stand below the part of the error in that line, or below its place if there is none. -/
def PointsAt (source : List Char) (path : String) (error : ParseError) (report : String) : Prop :=
  ∃ above before after below part, source = above ++ before ++ after ++ below ∧
    EndsLine above ∧ '\n' ∉ before ++ after ∧ (∀ c ∈ below.head?, c = '\n') ∧
    error.span.start = byteLength (above ++ before) ∧
    error.span.start ≤ byteLength (above ++ before ++ after) ∧
    Cut source error.span.start error.span.stop part ∧ error.fault.IsAbout part ∧
    error.line = 1 + above.count '\n' ∧ error.column = 1 + before.length ∧
    report = reportHead path error ++
      markedLine error.line (before ++ after) before.length (max 1 (part.takeWhile (· ≠ '\n')).length) ++
      reportTail error

theorem pointsAt_of_liesIn {source : List Char} {error : ParseError} (path : String)
    (small : byteLength source ≤ Markup.maxOffset) (counted : error.span.start < Markup.maxOffset)
    (lies : error.failure.LiesIn source) (placed : error = .place source (.build source) error.failure) :
    PointsAt source path error
      (parseReport path error source ++ "\nnote: fix the syntax error to enable formatting\n") := by
  obtain ⟨part, about, cut⟩ := lies
  have cut : Cut source error.span.start error.span.stop part := cut
  obtain ⟨front, more, same, starts, stops⟩ := id cut
  obtain ⟨above, before, rfl, ends, noFeed, -⟩ := Text.exists_endsLine front
  rw [List.append_assoc (above ++ before)] at same
  have found : SourceLine.at? source error.span.start = some ⟨before, (part ++ more).takeWhile (· ≠ '\n')⟩ := by
    rw [same, ← starts]
    exact SourceLine.at?_append ends noFeed
  have place : (Markup.LineIndex.build source).lineColumn source error.span.start =
      (1 + above.count '\n', 1 + before.length) := by
    rw [same] at small ⊢
    rw [← starts] at counted ⊢
    exact Markup.LineIndex.lineColumn_append small counted ends noFeed
  have line : error.line = 1 + above.count '\n' := by
    rw [placed]
    exact congrArg Prod.fst place
  have column : error.column = 1 + before.length := by
    rw [placed]
    exact congrArg Prod.snd place
  have bytes : error.span.stop - error.span.start = byteLength part := by omega
  have marks := SourceLine.covered_takeWhile before part more
  refine ⟨above, before, (part ++ more).takeWhile (· ≠ '\n'), (part ++ more).dropWhile (· ≠ '\n'), part,
    ?_, ends, ?_, ?_, starts.symm, ?_, cut, about, line, column, ?_⟩
  · rw [List.append_assoc (above ++ before), List.takeWhile_append_dropWhile, same]
  · rw [List.mem_append, not_or]
    exact ⟨noFeed, fun member => by simpa using List.all_eq_true.mp List.all_takeWhile '\n' member⟩
  · intro c head
    simpa using Text.eq_false_of_head?_dropWhile head
  · rw [← starts, Text.byteLength_append (above ++ before)]
    omega
  · unfold parseReport excerpt reportHead markedLine reportTail SourceLine.text
    rw [found]
    dsimp only
    rw [bytes, marks, column, Nat.add_sub_cancel_left]
    simp only [String.append_assoc]

/-- An end tag over two lines, behind characters that take more than one byte and a line that ends with a carriage
return. -/
def brokenSource : String :=
  "<p>\r\né</b\n>"

end MarkupFormat.Cli
