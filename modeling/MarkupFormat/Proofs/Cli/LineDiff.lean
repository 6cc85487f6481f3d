import Mathlib.Data.List.Nodup
import MarkupFormat.Cli.LineDiff
import MarkupFormat.Proofs.Text.Quotation

/-!
# Hunks of a diff

A line that differs opens a hunk unless one of the two lines before it did (`hunks_eq`). No line that differs is missed,
but a hunk shows two lines above the one that opens it even if the hunk before it has shown them, and its header tells
one number for both texts. So a diff can be applied exactly if the texts have as many lines and no line that differs
follows an opening one by three or four (`diffText_iff`).
-/

namespace MarkupFormat.Cli

variable {old new : List String} {hunk : Hunk} {hunks : List Hunk} {index place : Nat}

/-! ### What a diff tells -/

namespace DiffRow

/-- The line of the first text that a row shows. -/
def old? : DiffRow → Option String
  | same line | removed line => some line
  | added _ => none

/-- The line of the second text that a row shows. -/
def new? : DiffRow → Option String
  | same line | added line => some line
  | removed _ => none

end DiffRow

namespace Hunk

/-- Which lines a hunk is about, counted from zero. -/
def places (hunk : Hunk) : List Nat :=
  List.range' hunk.start (hunk.stop - hunk.start)

/-- The lines of the first text in the rows of a hunk. -/
def oldLines (hunk : Hunk) (old new : List String) : List String :=
  (hunk.rows old new).filterMap DiffRow.old?

/-- The lines of the second text in the rows of a hunk. -/
def newLines (hunk : Hunk) (old new : List String) : List String :=
  (hunk.rows old new).filterMap DiffRow.new?

end Hunk

/-- A header that tells where a hunk begins and how many lines of either text it shows. -/
def headerText (start oldCount newCount : Nat) : String :=
  "@@ -" ++ toString start ++ "," ++ toString oldCount ++ " +" ++ toString start ++ "," ++ toString newCount ++ " @@\n"

/-- What the first text becomes behind a place if what each hunk is about is replaced by the lines of the second text
that it shows. -/
def patch (old new : List String) (place : Nat) : List Hunk → List String
  | [] => old.drop place
  | hunk :: hunks => (old.take hunk.start).drop place ++ hunk.newLines old new ++ patch old new hunk.stop hunks

/-- Hunks tell what changes from one text to another. -/
structure IsDiff (old new : List String) (hunks : List Hunk) : Prop where
  /-- Each hunk is about something, and the next one begins behind it. -/
  nonempty : ∀ hunk ∈ hunks, hunk.start < hunk.stop
  apart : hunks.Pairwise fun hunk later => hunk.stop ≤ later.start
  /-- Each line that differs is reported by one hunk, and by one of its places. -/
  once : ∀ index, old[index]? ≠ new[index]? → (hunks.flatMap Hunk.places).count index = 1
  /-- Headers tell the numbers of the lines that are shown. -/
  header : ∀ hunk ∈ hunks, hunk.header =
    headerText (hunk.start + 1) (hunk.oldLines old new).length (hunk.newLines old new).length
  /-- The lines that are replaced are those of the first text. -/
  removes : ∀ hunk ∈ hunks, hunk.oldLines old new = (old.take hunk.stop).drop hunk.start
  patches : patch old new 0 hunks = new

/-! ### Rows -/

theorem filterMap_range' (lines : List String) (start count : Nat) :
    (List.range' start count).filterMap (lines[·]?) = (lines.drop start).take count := by
  induction count generalizing start with
  | zero => rw [List.take_zero]; rfl
  | succ count ih =>
    rw [List.range'_succ, List.filterMap_cons]
    by_cases inside : start < lines.length
    · rw [List.getElem?_eq_getElem inside, List.drop_eq_getElem_cons inside, List.take_succ_cons]
      dsimp only
      rw [ih]
    · have outside := Nat.le_of_not_lt inside
      rw [List.getElem?_eq_none outside, List.drop_eq_nil_of_le outside]
      dsimp only
      rw [ih, List.drop_eq_nil_of_le (Nat.le_succ_of_le outside), List.take_nil, List.take_nil]

theorem filterMap_rowsAt : (rowsAt old new index).filterMap DiffRow.old? = old[index]?.toList ∧
    (rowsAt old new index).filterMap DiffRow.new? = new[index]?.toList := by
  unfold rowsAt
  cases old[index]? with
  | none =>
    cases new[index]? with
    | none => exact ⟨rfl, rfl⟩
    | some after => exact ⟨rfl, rfl⟩
  | some before =>
    cases new[index]? with
    | none => exact ⟨rfl, rfl⟩
    | some after =>
      dsimp only
      split
      · next same => exact ⟨rfl, congrArg (fun line => [line]) same⟩
      · exact ⟨rfl, rfl⟩

namespace Hunk

theorem rows_eq (hunk : Hunk) (old new : List String) : hunk.rows old new = hunk.places.flatMap (rowsAt old new) := by
  unfold rows places
  rw [List.range'_eq_map_range, List.flatMap_map]

theorem oldLines_eq (hunk : Hunk) (old new : List String) :
    hunk.oldLines old new = (old.take hunk.stop).drop hunk.start := by
  unfold oldLines
  rw [rows_eq, List.filterMap_flatMap, List.drop_take, ← filterMap_range', List.filterMap_eq_flatMap_toList]
  simp only [filterMap_rowsAt]
  rfl

theorem newLines_eq (hunk : Hunk) (old new : List String) :
    hunk.newLines old new = (new.take hunk.stop).drop hunk.start := by
  unfold newLines
  rw [rows_eq, List.filterMap_flatMap, List.drop_take, ← filterMap_range', List.filterMap_eq_flatMap_toList]
  simp only [filterMap_rowsAt]
  rfl

theorem mem_places : index ∈ hunk.places ↔ hunk.start ≤ index ∧ index < hunk.stop := by
  unfold places
  rw [List.mem_range'_1]
  omega

end Hunk

/-! ### The hunks of two texts -/

/-- Whether a line that differs opens a hunk: none of the two lines before it does. -/
def opens (old new : List String) : Nat → Bool
  | 0 => old[0]? ≠ new[0]?
  | 1 => old[1]? ≠ new[1]? && !opens old new 0
  | index + 2 => old[index + 2]? ≠ new[index + 2]? && !opens old new (index + 1) && !opens old new index

/-- The hunk that a line opens. -/
def hunkAt (total index : Nat) : Hunk :=
  ⟨index - 2, min (index + 3) total⟩

theorem opens_iff : opens old new index = true ↔
    old[index]? ≠ new[index]? ∧ ∀ before < index, opens old new before = true → before + 3 ≤ index := by
  match index with
  | 0 => simp [opens]
  | 1 =>
    rw [opens, Bool.and_eq_true, Bool.not_eq_true', decide_eq_true_iff]
    refine and_congr_right fun _ => ⟨fun closed before less opened => ?_, fun far => ?_⟩
    · obtain rfl : before = 0 := by omega
      rw [closed] at opened
      cases opened
    · exact Bool.eq_false_iff.mpr fun opened => absurd (far 0 Nat.one_pos opened) (by decide)
  | index + 2 =>
    rw [opens, Bool.and_eq_true, Bool.and_eq_true, Bool.not_eq_true', Bool.not_eq_true', decide_eq_true_iff, and_assoc]
    refine and_congr_right fun _ => ⟨fun ⟨next, here⟩ before less opened => ?_, fun far => ?_⟩
    · rcases Nat.lt_trichotomy before index with less | rfl | more
      · omega
      · rw [here] at opened
        cases opened
      · obtain rfl : before = index + 1 := by omega
        rw [next] at opened
        cases opened
    · exact ⟨Bool.eq_false_iff.mpr fun opened => absurd (far (index + 1) (by omega) opened) (by omega),
        Bool.eq_false_iff.mpr fun opened => absurd (far index (by omega) opened) (by omega)⟩

theorem lt_of_differs (differs : old[index]? ≠ new[index]?) : index < max old.length new.length := by
  refine Nat.lt_of_not_le fun outside => differs ?_
  rw [List.getElem?_eq_none (by omega), List.getElem?_eq_none (by omega)]

theorem exists_opens (differs : old[index]? ≠ new[index]?) :
    ∃ first, opens old new first = true ∧ first ≤ index ∧ index < first + 3 := by
  by_cases opened : opens old new index = true
  · exact ⟨index, opened, Nat.le_refl _, by omega⟩
  · have near : ∃ before < index, opens old new before = true ∧ ¬before + 3 ≤ index := by
      simpa [opens_iff.not, differs] using fun far => opened (opens_iff.mpr ⟨differs, far⟩)
    obtain ⟨before, less, opened, close⟩ := near
    exact ⟨before, opened, by omega, by omega⟩

theorem hunksFrom_eq
    (closed : ∀ before < index, opens old new before = true → min (before + 3) (max old.length new.length) ≤ index) :
    hunksFrom old new index =
      ((List.range' index (max old.length new.length - index)).filter (opens old new)).map
        (hunkAt (max old.length new.length)) := by
  fun_induction hunksFrom old new index with
  | case1 index total inside same ih =>
    have shut : opens old new index ≠ true := fun opened => (opens_iff.mp opened).1 same
    have later : total - index = total - (index + 1) + 1 := by omega
    rw [later, List.range'_succ, List.filter_cons_of_neg shut]
    refine ih fun before less opened => ?_
    rcases Nat.lt_or_eq_of_le (Nat.le_of_lt_succ less) with less | rfl
    · exact Nat.le_succ_of_le (closed before less opened)
    · exact absurd opened shut
  | case2 index total inside differs stop ih =>
    have opened : opens old new index = true := by
      refine opens_iff.mpr ⟨differs, fun before less opened => ?_⟩
      have bound := closed before less opened
      omega
    have shut {later : Nat} (behind : index < later) (near : later < index + 3) : opens old new later ≠ true :=
      fun opened' => absurd ((opens_iff.mp opened').2 index behind opened) (by omega)
    have parts : total - index = (stop - index - 1) + 1 + (total - stop) := by omega
    have upTo : index + ((stop - index - 1) + 1) = stop := by omega
    have none : (List.range' (index + 1) (stop - index - 1)).filter (opens old new) = [] := by
      refine List.filter_eq_nil_iff.mpr fun later member => ?_
      have bounds := List.mem_range'_1.mp member
      exact shut (by omega) (by omega)
    rw [parts, ← List.range'_append_1, List.filter_append, List.range'_succ, List.filter_cons_of_pos opened, none, upTo,
      ih fun before less opened' => ?_]
    · rfl
    · by_cases behind : index < before
      · exact absurd opened' (shut behind (by omega))
      · rcases Nat.lt_or_eq_of_le (Nat.le_of_not_lt behind) with less | rfl
        · have bound := closed before less opened'
          omega
        · exact Nat.le_refl _
  | case3 index total outside =>
    rw [Nat.sub_eq_zero_of_le (Nat.le_of_not_lt outside)]
    rfl

theorem hunks_eq (old new : List String) :
    Cli.hunks old new = ((List.range (max old.length new.length)).filter (opens old new)).map
      (hunkAt (max old.length new.length)) := by
  rw [Cli.hunks, hunksFrom_eq fun _ less => absurd less (Nat.not_lt_zero _), Nat.sub_zero, List.range_eq_range']

theorem mem_hunks : hunk ∈ Cli.hunks old new ↔
    ∃ first, opens old new first = true ∧ hunk = hunkAt (max old.length new.length) first := by
  rw [hunks_eq, List.mem_map]
  constructor
  · rintro ⟨first, member, rfl⟩
    exact ⟨first, (List.mem_filter.mp member).2, rfl⟩
  · rintro ⟨first, opened, rfl⟩
    have inside := lt_of_differs (opens_iff.mp opened).1
    exact ⟨first, List.mem_filter.mpr ⟨List.mem_range.mpr inside, opened⟩, rfl⟩

theorem bounds_of_mem_hunks (member : hunk ∈ Cli.hunks old new) :
    hunk.start < hunk.stop ∧ hunk.stop ≤ max old.length new.length := by
  obtain ⟨first, opened, rfl⟩ := mem_hunks.mp member
  have inside := lt_of_differs (opens_iff.mp opened).1
  show first - 2 < min (first + 3) _ ∧ min (first + 3) _ ≤ _
  omega

theorem exists_hunk (differs : old[index]? ≠ new[index]?) :
    ∃ hunk ∈ Cli.hunks old new, hunk.start ≤ index ∧ index < hunk.stop := by
  obtain ⟨first, opened, before, behind⟩ := exists_opens differs
  have inside := lt_of_differs differs
  refine ⟨_, mem_hunks.mpr ⟨first, opened, rfl⟩, ?_, ?_⟩
  · show first - 2 ≤ index
    omega
  · show index < min (first + 3) _
    omega

/-! ### Hunks that are apart -/

/-- Behind a line that opens a hunk, the lines at a distance of three and four are the same. -/
def FarApart (old new : List String) : Prop :=
  ∀ first, opens old new first = true → old[first + 3]? = new[first + 3]? ∧ old[first + 4]? = new[first + 4]?

theorem farApart_iff : FarApart old new ↔
    ∀ first later, opens old new first = true → opens old new later = true → first < later → first + 5 ≤ later := by
  constructor
  · intro far first later opened opened' less
    obtain ⟨differs, behind⟩ := opens_iff.mp opened'
    obtain ⟨three, four⟩ := far first opened
    refine Nat.le_of_not_lt fun close => differs ?_
    have atLeast := behind first less opened
    rcases (by omega : later = first + 3 ∨ later = first + 4) with rfl | rfl
    · exact three
    · exact four
  · intro far first opened
    have shut {later : Nat} (behind : first < later) (near : later < first + 5) : opens old new later ≠ true :=
      fun opened' => absurd (far first later opened opened' behind) (by omega)
    -- A line that differs there would open a hunk, since no other line before it does.
    have same {later : Nat} (behind : first + 3 ≤ later) (near : later < first + 5) : old[later]? = new[later]? := by
      refine Decidable.byContradiction fun differs => shut (by omega) near (opens_iff.mpr ⟨differs, ?_⟩)
      intro before less opened'
      by_cases between : first < before
      · exact absurd opened' (shut between (by omega))
      · omega
    exact ⟨same (by omega) (by omega), same (by omega) (by omega)⟩

theorem apart_hunks_iff :
    ((Cli.hunks old new).Pairwise fun hunk later => hunk.stop ≤ later.start) ↔ FarApart old new := by
  have sorted : ((List.range (max old.length new.length)).filter (opens old new)).Pairwise (· < ·) :=
    List.pairwise_lt_range.sublist List.filter_sublist
  rw [farApart_iff, hunks_eq, List.pairwise_map]
  constructor
  · intro apart first later opened opened' less
    have member {place : Nat} (opened : opens old new place = true) :
        place ∈ (List.range (max old.length new.length)).filter (opens old new) :=
      List.mem_filter.mpr ⟨List.mem_range.mpr (lt_of_differs (opens_iff.mp opened).1), opened⟩
    have close : ((List.range (max old.length new.length)).filter (opens old new)).Pairwise fun first later =>
        first < later → min (first + 3) (max old.length new.length) ≤ later - 2 := by
      refine apart.imp ?_
      exact fun apart _ => apart
    have bound := close.forall_of_forall_of_flip (fun _ _ less => absurd less (Nat.lt_irrefl _))
      (sorted.imp fun less more => absurd less (Nat.lt_asymm more)) (member opened) (member opened') less
    have inside := lt_of_differs (opens_iff.mp opened').1
    have atLeast := (opens_iff.mp opened').2 first less opened
    omega
  · refine fun far => sorted.imp_of_mem fun member member' less => ?_
    have bound := far _ _ (List.mem_filter.mp member).2 (List.mem_filter.mp member').2 less
    show min (_ + 3) _ ≤ _ - 2
    omega

/-- Four lines that differ are shown in two hunks, and two of them in both. -/
example : Cli.hunks ["a", "b", "c", "d"] ["e", "f", "g", "h"] = [⟨0, 3⟩, ⟨1, 4⟩] := by
  decide +kernel

/-! ### Counts -/

theorem length_oldLines (hunk : Hunk) : (hunk.oldLines old new).length = min hunk.stop old.length - hunk.start := by
  rw [hunk.oldLines_eq, List.length_drop, List.length_take]

theorem length_newLines (hunk : Hunk) : (hunk.newLines old new).length = min hunk.stop new.length - hunk.start := by
  rw [hunk.newLines_eq, List.length_drop, List.length_take]

theorem header_eq (hunk : Hunk) :
    hunk.header = headerText (hunk.start + 1) (hunk.stop - hunk.start) (hunk.stop - hunk.start) := by
  unfold Hunk.header headerText
  simp only [String.append_assoc]

theorem headerText_inj {start oldCount newCount oldCount' newCount' : Nat}
    (same : headerText start oldCount newCount = headerText start oldCount' newCount') :
    oldCount = oldCount' ∧ newCount = newCount' := by
  have blank (behind : String) (starts : behind.toList.head? = some ' ') (rest : List Char) :
      ∀ c ∈ (behind.toList ++ rest).head?, c.isDigit = false := by
    intro c isHead
    rw [List.head?_append, starts] at isHead
    cases isHead
    rfl
  have chars := congrArg String.toList same
  simp only [headerText, String.toList_append, List.append_assoc, List.append_cancel_left_eq] at chars
  obtain ⟨counts, behind⟩ := Text.toString_append_inj (blank " +" rfl _) (blank " +" rfl _) chars
  rw [List.append_cancel_left_eq, List.append_cancel_left_eq, List.append_cancel_left_eq] at behind
  rw [← List.append_nil " @@\n".toList] at behind
  exact ⟨counts, (Text.toString_append_inj (blank " @@\n" rfl _) (blank " @@\n" rfl _) behind).1⟩

/-- A header tells one number for both texts, so it is right for the last hunk only if they have as many lines. -/
theorem headers_iff : (∀ hunk ∈ Cli.hunks old new, hunk.header =
      headerText (hunk.start + 1) (hunk.oldLines old new).length (hunk.newLines old new).length) ↔
    old.length = new.length := by
  constructor
  · refine fun right => Decidable.byContradiction fun longer => ?_
    have differs : old[max old.length new.length - 1]? ≠ new[max old.length new.length - 1]? := by
      intro same
      have missing := congrArg (· = none) same
      simp only [List.getElem?_eq_none_iff, eq_iff_iff] at missing
      omega
    obtain ⟨hunk, member, before, behind⟩ := exists_hunk differs
    have counts := right hunk member
    rw [header_eq, length_oldLines, length_newLines] at counts
    have counts := headerText_inj counts
    have bound := bounds_of_mem_hunks member
    omega
  · intro same hunk member
    have bound := bounds_of_mem_hunks member
    rw [header_eq, length_oldLines, length_newLines, ← same]
    rw [← same, Nat.max_self] at bound
    rw [Nat.min_eq_left bound.2]

/-! ### Patching -/

theorem drop_take_append_drop (lines : List String) {start stop : Nat} (le : start ≤ stop) :
    (lines.take stop).drop start ++ lines.drop stop = lines.drop start := by
  have behind : lines.drop stop = (lines.drop start).drop (stop - start) := by
    rw [List.drop_drop, Nat.add_sub_cancel' le]
  rw [List.drop_take, behind, List.take_append_drop]

/-- Hunks that are apart turn the first text into the second one behind a place if no line that differs there is
missed. -/
theorem patch_eq (nonempty : ∀ hunk ∈ hunks, hunk.start < hunk.stop) (behind : ∀ hunk ∈ hunks, place ≤ hunk.start)
    (apart : hunks.Pairwise fun hunk later => hunk.stop ≤ later.start)
    (covers : ∀ index, place ≤ index → old[index]? ≠ new[index]? → ∃ hunk ∈ hunks, index ∈ hunk.places) :
    patch old new place hunks = new.drop place := by
  induction hunks generalizing place with
  | nil =>
    refine List.ext_getElem? fun offset => ?_
    rw [patch, List.getElem?_drop, List.getElem?_drop]
    refine Decidable.byContradiction fun differs => ?_
    obtain ⟨_, ⟨⟩, _⟩ := covers _ (Nat.le_add_right place offset) differs
  | cons hunk hunks ih =>
    rw [List.forall_mem_cons] at nonempty behind
    rw [List.pairwise_cons] at apart
    have kept : (old.take hunk.start).drop place = (new.take hunk.start).drop place := by
      refine List.ext_getElem? fun offset => ?_
      rw [List.getElem?_drop, List.getElem?_drop, List.getElem?_take, List.getElem?_take]
      split
      · next before =>
        refine Decidable.byContradiction fun differs => ?_
        obtain ⟨found, member, within⟩ := covers _ (Nat.le_add_right place offset) differs
        have within := Hunk.mem_places.mp within
        rcases List.mem_cons.mp member with rfl | later
        · omega
        · have bound := apart.1 found later
          omega
      · rfl
    rw [patch, hunk.newLines_eq, kept, ih nonempty.2 apart.1 apart.2, List.append_assoc,
      drop_take_append_drop new (Nat.le_of_lt nonempty.1), drop_take_append_drop new behind.1]
    intro index later differs
    obtain ⟨found, member, within⟩ := covers index (by omega) differs
    rcases List.mem_cons.mp member with rfl | member
    · have within := Hunk.mem_places.mp within
      omega
    · exact ⟨found, member, within⟩

/-! ### Diffs -/

theorem isDiff_hunks_iff : IsDiff old new (Cli.hunks old new) ↔ old.length = new.length ∧ FarApart old new := by
  constructor
  · exact fun diff => ⟨headers_iff.mp diff.header, apart_hunks_iff.mp diff.apart⟩
  · rintro ⟨same, far⟩
    have nonempty (hunk) (member : hunk ∈ Cli.hunks old new) : hunk.start < hunk.stop :=
      (bounds_of_mem_hunks member).1
    have apart := apart_hunks_iff.mpr far
    have covers (index) (differs : old[index]? ≠ new[index]?) : ∃ hunk ∈ Cli.hunks old new, index ∈ hunk.places := by
      obtain ⟨hunk, member, within⟩ := exists_hunk differs
      exact ⟨hunk, member, Hunk.mem_places.mpr within⟩
    refine ⟨nonempty, apart, fun index differs => ?_, headers_iff.mpr same, fun hunk _ => hunk.oldLines_eq old new, ?_⟩
    · have once : ((Cli.hunks old new).flatMap Hunk.places).Nodup := by
        refine List.nodup_flatMap.mpr ⟨fun hunk _ => List.nodup_range', apart.imp fun apart => ?_⟩
        intro place before behind
        have before := Hunk.mem_places.mp before
        have behind := Hunk.mem_places.mp behind
        omega
      exact List.count_eq_one_of_mem once (List.mem_flatMap.mpr (covers index differs))
    · exact patch_eq nonempty (fun _ _ => Nat.zero_le _) apart fun index _ => covers index

/-- What is shown of two texts. Every line that differs is in a hunk, and hunks show the lines of either text where they
are. They tell what changes exactly if the texts have as many lines and no hunk shows lines that the one before it has
shown. -/
theorem diffText_iff (path old new : String) :
    diffText path old new = "--- " ++ path ++ "\n+++ " ++ path ++ "\n" ++
      String.join ((Cli.hunks (Text.lines old) (Text.lines new)).map (·.text (Text.lines old) (Text.lines new))) ∧
    (∀ index, (Text.lines old)[index]? ≠ (Text.lines new)[index]? →
      ∃ hunk ∈ Cli.hunks (Text.lines old) (Text.lines new), hunk.start ≤ index ∧ index < hunk.stop) ∧
    (∀ hunk : Hunk,
      hunk.oldLines (Text.lines old) (Text.lines new) = ((Text.lines old).take hunk.stop).drop hunk.start ∧
      hunk.newLines (Text.lines old) (Text.lines new) = ((Text.lines new).take hunk.stop).drop hunk.start) ∧
    (IsDiff (Text.lines old) (Text.lines new) (Cli.hunks (Text.lines old) (Text.lines new)) ↔
      (Text.lines old).length = (Text.lines new).length ∧ FarApart (Text.lines old) (Text.lines new)) :=
  ⟨rfl, fun _ => exists_hunk, fun hunk => ⟨hunk.oldLines_eq _ _, hunk.newLines_eq _ _⟩, isDiff_hunks_iff⟩

end MarkupFormat.Cli
