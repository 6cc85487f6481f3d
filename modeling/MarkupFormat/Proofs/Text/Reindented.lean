import Mathlib.Data.List.DropRight
import MarkupFormat.Proofs.Text.LineEndings
import MarkupFormat.Proofs.Text.WordBreaks

/-!
# Indented anew

The lines of a text lose what they have in common as indentation and get another one (`bodyLines`, `indentLine`). Done
again, this takes away just the indentation that was given (`bodyLines_indented`).
-/

namespace MarkupFormat.Text

/-! ### Lines -/

/-- The lines of a text without what they have in common as indentation. -/
def bodyLines (cs : List Char) : List (List Char) :=
  linesOf (dedent (trimKeepingIndentation cs))

/-- A line with some spaces before it and no blanks at its end. -/
def indentLine (width : Nat) (line : List Char) : List Char :=
  dropEnd isLineBlank (List.replicate width ' ' ++ line)

variable {cs line : List Char} {lines : List (List Char)} {width : Nat}

theorem linesOf_intercalate (nonempty : lines ≠ []) (whole : ∀ line ∈ lines, '\n' ∉ line) :
    linesOf (['\n'].intercalate lines) = lines := by
  obtain ⟨line, lines, rfl⟩ := List.exists_cons_of_ne_nil nonempty
  refine splitOnChars_intercalate (by decide) fun one member c isChar => decide_eq_false ?_
  rintro rfl
  exact whole one member isChar

theorem feed_not_mem_linesOf (member : line ∈ linesOf cs) : '\n' ∉ line :=
  fun feed => of_decide_eq_false (eq_false_of_mem_splitOnChars member '\n' feed) rfl

/-! ### Indentation -/

/-- A line that is not blank. -/
def IsSaid (line : List Char) : Prop :=
  line.all isMarkupSpace = false

theorem isSaid_iff : IsSaid line ↔ ∃ spaces c rest, line = spaces ++ c :: rest ∧ spaces.all isMarkupSpace = true ∧
    isMarkupSpace c = false := by
  constructor
  · intro said
    have parts := List.takeWhile_append_dropWhile (p := isMarkupSpace) (l := line)
    cases behind : line.dropWhile isMarkupSpace with
    | nil =>
      rw [behind, List.append_nil] at parts
      unfold IsSaid at said
      rw [← parts, List.all_takeWhile] at said
      cases said
    | cons c rest =>
      have stops := List.head?_dropWhile_not isMarkupSpace line
      rw [behind] at parts stops
      exact ⟨line.takeWhile isMarkupSpace, c, rest, parts.symm, List.all_takeWhile, by simpa using stops⟩
  · rintro ⟨spaces, c, rest, rfl, -, solid⟩
    simp [IsSaid, solid]

theorem indentation_append {spaces rest : List Char} {c : Char} (blank : spaces.all isMarkupSpace = true)
    (solid : isMarkupSpace c = false) : indentation (spaces ++ c :: rest) = spaces.length := by
  unfold indentation
  rw [List.takeWhile_append_of_pos (List.all_eq_true.mp blank), List.takeWhile_cons_of_neg (by simp [solid]),
    List.append_nil]

theorem commonIndentation_eq_iff (said : ∃ line ∈ lines, IsSaid line) (width : Nat) :
    commonIndentation lines = width ↔ (∃ line ∈ lines, IsSaid line ∧ indentation line = width) ∧
      ∀ line ∈ lines, IsSaid line → width ≤ indentation line := by
  let widths := (lines.filter fun line => !line.all isMarkupSpace).map indentation
  have member_iff (other : Nat) : other ∈ widths ↔ ∃ line ∈ lines, IsSaid line ∧ indentation line = other := by
    simp [widths, IsSaid, and_assoc]
  obtain ⟨least, isLeast⟩ : ∃ least, widths.min? = some least := by
    obtain ⟨line, member, solid⟩ := said
    exact Option.isSome_iff_exists.mp (List.isSome_min?_of_mem ((member_iff _).mpr ⟨line, member, solid, rfl⟩))
  have characterized : widths.min? = some width ↔ width ∈ widths ∧ ∀ other ∈ widths, width ≤ other :=
    List.min?_eq_some_iff
  have common : commonIndentation lines = least := congrArg (Option.getD · 0) isLeast
  rw [common, ← Option.some_inj, ← isLeast, characterized, member_iff]
  refine and_congr_right fun _ => ⟨fun all line member solid => ?_, fun all other isWidth => ?_⟩
  · exact all _ ((member_iff _).mpr ⟨line, member, solid, rfl⟩)
  · obtain ⟨line, member, solid, rfl⟩ := (member_iff _).mp isWidth
    exact all line member solid

theorem commonIndentation_le (member : line ∈ lines) (said : IsSaid line) :
    commonIndentation lines ≤ indentation line :=
  ((commonIndentation_eq_iff ⟨line, member, said⟩ _).mp rfl).2 line member said

theorem isLineBlank_of_solid {c : Char} (solid : isMarkupSpace c = false) : isLineBlank c = false := by
  simp only [isMarkupSpace, Bool.or_eq_false_iff] at solid
  simp only [isLineBlank, Bool.or_eq_false_iff]
  exact solid.1.1.1

theorem isMarkupSpace_of_mem_replicate {c : Char} (member : c ∈ List.replicate width ' ') : isMarkupSpace c = true := by
  rw [List.eq_of_mem_replicate member]
  rfl

theorem dropEnd_isLineBlank_append {c : Char} (solid : isMarkupSpace c = false) (spaces rest : List Char) :
    dropEnd isLineBlank (spaces ++ c :: rest) = spaces ++ c :: dropEnd isLineBlank rest := by
  have stays : ∀ d ∈ (spaces ++ [c]).getLast?, isLineBlank d = false := by
    intro d isLast
    rw [List.getLast?_concat, Option.mem_some_iff] at isLast
    exact isLast ▸ isLineBlank_of_solid solid
  have moved : spaces ++ c :: rest = (spaces ++ [c]) ++ rest := List.append_cons ..
  rw [moved, dropEnd_append_of_last stays, ← List.append_cons]

/-- Taking away no more than the indentation, and giving another one, changes no more than the indentation. -/
theorem isSaid_indentLine {fewer : Nat} (said : IsSaid line) (less : fewer ≤ indentation line) (width : Nat) :
    IsSaid (indentLine width (line.drop fewer)) ∧
      indentation (indentLine width (line.drop fewer)) + fewer = width + indentation line := by
  obtain ⟨spaces, c, rest, rfl, blank, solid⟩ := isSaid_iff.mp said
  rw [indentation_append blank solid] at less ⊢
  have indented : indentLine width ((spaces ++ c :: rest).drop fewer) =
      (List.replicate width ' ' ++ spaces.drop fewer) ++ c :: dropEnd isLineBlank rest := by
    unfold indentLine
    rw [List.drop_append_of_le_length less, ← List.append_assoc, dropEnd_isLineBlank_append solid]
  have still : (List.replicate width ' ' ++ spaces.drop fewer).all isMarkupSpace = true := by
    rw [List.all_append, Bool.and_eq_true]
    exact ⟨List.all_eq_true.mpr fun _ => isMarkupSpace_of_mem_replicate,
      List.all_eq_true.mpr fun d member => List.all_eq_true.mp blank d (List.drop_subset _ _ member)⟩
  rw [indented, indentation_append still solid]
  refine ⟨isSaid_iff.mpr ⟨_, c, _, rfl, still, solid⟩, ?_⟩
  rw [List.length_append, List.length_replicate, List.length_drop]
  omega

theorem feed_not_mem_indentLine (clean : '\n' ∉ line) (fewer width : Nat) :
    '\n' ∉ indentLine width (line.drop fewer) := by
  intro feed
  rcases List.mem_append.mp (dropEnd_subset _ _ feed) with space | behind
  · cases List.eq_of_mem_replicate space
  · exact clean (List.drop_subset _ _ behind)

theorem all_indentLine (blank : line.all isMarkupSpace = true) (fewer width : Nat) :
    (indentLine width (line.drop fewer)).all isMarkupSpace = true := by
  rw [List.all_eq_true] at blank ⊢
  intro c member
  rcases List.mem_append.mp (dropEnd_subset _ _ member) with space | behind
  · exact isMarkupSpace_of_mem_replicate space
  · exact blank c (List.drop_subset _ _ behind)

theorem dropEnd_idem (drops : Char → Bool) (cs : List Char) : dropEnd drops (dropEnd drops cs) = dropEnd drops cs :=
  List.rdropWhile_idempotent drops cs

theorem dropEnd_eq_nil_iff {drops : Char → Bool} : dropEnd drops cs = [] ↔ ∀ c ∈ cs, drops c = true :=
  List.rdropWhile_eq_nil_iff

theorem indentLine_drop (width : Nat) (line : List Char) :
    indentLine width ((indentLine width line).drop width) = indentLine width line := by
  by_cases blank : dropEnd isLineBlank line = []
  · have spaces : ∀ c ∈ List.replicate width ' ', isLineBlank c = true := by simp [isLineBlank]
    have nothing : indentLine width line = [] := by
      refine dropEnd_eq_nil_iff.mpr fun c member => ?_
      exact (List.mem_append.mp member).elim (spaces c) (dropEnd_eq_nil_iff.mp blank c)
    rw [nothing, List.drop_nil]
    exact dropEnd_eq_nil_iff.mpr (by simpa using spaces)
  · have whole : indentLine width line = List.replicate width ' ' ++ dropEnd isLineBlank line := dropEnd_append blank _
    have again : dropEnd isLineBlank (dropEnd isLineBlank line) ≠ [] := by rwa [dropEnd_idem]
    rw [whole, List.drop_left' List.length_replicate]
    exact (dropEnd_append again _).trans (by rw [dropEnd_idem])

/-! ### Bodies -/

theorem bodyLines_ne_nil (cs : List Char) : bodyLines cs ≠ [] :=
  splitOnChars_ne_nil _ _

theorem bodyLines_eq_map (cs : List Char) : bodyLines cs =
    (linesOf (trimKeepingIndentation cs)).map
      (List.drop (commonIndentation (linesOf (trimKeepingIndentation cs)))) := by
  refine linesOf_intercalate ?_ fun line member => ?_
  · exact mt List.map_eq_nil_iff.mp (splitOnChars_ne_nil _ _)
  · obtain ⟨whole, isLine, rfl⟩ := List.mem_map.mp member
    exact fun feed => feed_not_mem_linesOf isLine (List.drop_subset _ _ feed)

theorem trimKeepingIndentation_concat (said : cs.all isMarkupSpace = false) :
    ∃ before c, trimKeepingIndentation cs = before ++ [c] ∧ isMarkupSpace c = false := by
  have remains : (dropBlankFirstLine cs).all isMarkupSpace = false := by
    unfold dropBlankFirstLine
    split
    · next line rest found =>
      split
      · next blank =>
        rw [eq_of_breakOn found, List.all_append, List.all_append, blank] at said
        exact said
      · exact said
    · exact said
  have kept : trimKeepingIndentation cs ≠ [] := by
    intro none
    rw [List.all_eq_true.mpr (dropEnd_eq_nil_iff.mp none)] at remains
    cases remains
  exact ⟨_, _, (List.dropLast_concat_getLast kept).symm, Bool.eq_false_iff.mpr (List.rdropWhile_last_not _ _ kept)⟩

theorem exists_last_line (said : cs.all isMarkupSpace = false) :
    ∃ lines last c, linesOf (trimKeepingIndentation cs) = lines ++ [last ++ [c]] ∧ isMarkupSpace c = false := by
  obtain ⟨before, c, trims, solid⟩ := trimKeepingIndentation_concat said
  have whole := intercalate_splitOnChars (trimKeepingIndentation cs)
  obtain none | ⟨lines, last, same⟩ := List.eq_nil_or_concat' (linesOf (trimKeepingIndentation cs))
  · exact absurd none (splitOnChars_ne_nil _ _)
  · have ends : (unlines lines ++ last).getLast? = some c := by
      rw [← intercalate_concat, ← same, linesOf, whole, trims, List.getLast?_concat]
    obtain rfl | ⟨last, d, rfl⟩ := List.eq_nil_or_concat' last
    · obtain rfl | ⟨lines, line, rfl⟩ := List.eq_nil_or_concat' lines
      · cases ends
      · have feed : c = '\n' := by simpa [unlines] using ends.symm
        rw [feed] at solid
        cases solid
    · rw [← List.append_assoc, List.getLast?_concat, Option.some_inj] at ends
      exact ⟨lines, last, c, ends ▸ same, solid⟩

theorem trimKeepingIndentation_unlines {c : Char} (solid : isMarkupSpace c = false) (lines : List (List Char))
    (last : List Char) : trimKeepingIndentation ('\n' :: unlines (lines ++ [last ++ [c]])) =
      ['\n'].intercalate (lines ++ [last ++ [c]]) := by
  have behind : dropBlankFirstLine ('\n' :: unlines (lines ++ [last ++ [c]])) = unlines (lines ++ [last ++ [c]]) := rfl
  have whole : unlines (lines ++ [last ++ [c]]) = unlines lines ++ last ++ [c] ++ ['\n'] := by
    rw [unlines_append]
    simp [unlines]
  unfold trimKeepingIndentation
  rw [behind, whole, intercalate_concat, ← List.append_assoc]
  exact (List.rdropWhile_concat_pos _ _ _ rfl).trans (dropEnd_concat solid _)

theorem commonIndentation_indented (said : ∃ line ∈ lines, IsSaid line) (width : Nat) :
    commonIndentation (lines.map fun line => indentLine width (line.drop (commonIndentation lines))) = width := by
  obtain ⟨⟨least, isLine, isSaid, same⟩, all⟩ := (commonIndentation_eq_iff said (commonIndentation lines)).mp rfl
  obtain ⟨still, became⟩ := isSaid_indentLine isSaid same.ge width
  have member := List.mem_map_of_mem (f := fun line => indentLine width (line.drop (commonIndentation lines))) isLine
  refine (commonIndentation_eq_iff ⟨_, member, still⟩ width).mpr
    ⟨⟨_, member, still, by omega⟩, fun line isLine isSaid => ?_⟩
  obtain ⟨whole, isWhole, rfl⟩ := List.mem_map.mp isLine
  by_cases before : IsSaid whole
  · have less := all whole isWhole before
    have became := (isSaid_indentLine before less width).2
    omega
  · rw [IsSaid, Bool.not_eq_false] at before
    rw [IsSaid, all_indentLine before] at isSaid
    cases isSaid

theorem indentLine_concat {c : Char} (solid : isMarkupSpace c = false) {fewer : Nat}
    (less : fewer ≤ indentation (line ++ [c])) (width : Nat) :
    indentLine width ((line ++ [c]).drop fewer) = List.replicate width ' ' ++ line.drop fewer ++ [c] := by
  have inside : indentation (line ++ [c]) ≤ line.length := by
    unfold indentation
    rw [List.takeWhile_append]
    split
    · rw [List.takeWhile_cons_of_neg (by simp [solid]), List.append_nil]
    · exact (List.takeWhile_prefix _).length_le
  unfold indentLine
  rw [List.drop_append_of_le_length (less.trans inside), ← List.append_assoc,
    dropEnd_concat (isLineBlank_of_solid solid)]

/-- Indenting the indented body anew leaves it as it is. -/
theorem bodyLines_indented (said : cs.all isMarkupSpace = false) {indented : List (List Char)}
    (isBody : (bodyLines cs).map (indentLine width) = indented) :
    (bodyLines ('\n' :: unlines indented)).map (indentLine width) = indented := by
  obtain ⟨first, last, c, lines, solid⟩ := exists_last_line said
  have whole := bodyLines_eq_map cs
  have noFeeds : ∀ line ∈ linesOf (trimKeepingIndentation cs), '\n' ∉ line := fun _ => feed_not_mem_linesOf
  generalize linesOf (trimKeepingIndentation cs) = body at lines whole noFeeds
  rw [whole, List.map_map] at isBody
  have member : last ++ [c] ∈ body := by simp [lines]
  have isSaid : IsSaid (last ++ [c]) := by simp [IsSaid, solid]
  have less := commonIndentation_le member isSaid
  have common : commonIndentation indented = width := isBody ▸ commonIndentation_indented ⟨_, member, isSaid⟩ width
  generalize commonIndentation body = fewer at isBody less
  -- The last line ends with a character that stays, so trimming gives the same lines again.
  have ends : indented = first.map (indentLine width ∘ List.drop fewer) ++
      [List.replicate width ' ' ++ last.drop fewer ++ [c]] := by
    rw [← isBody, lines, List.map_append, ← indentLine_concat solid less width]
    rfl
  have noFeeds : ∀ line ∈ indented, '\n' ∉ line := by
    rw [← isBody, List.forall_mem_map]
    exact fun line isLine => feed_not_mem_indentLine (noFeeds line isLine) fewer width
  have again : linesOf (trimKeepingIndentation ('\n' :: unlines indented)) = indented := by
    rw [ends, trimKeepingIndentation_unlines solid, ← ends]
    exact linesOf_intercalate (ends ▸ by simp) noFeeds
  rw [bodyLines_eq_map, again, common, List.map_map]
  -- They have in common what they were given, which is taken away and given again.
  refine (List.map_congr_left fun line member => ?_).trans (List.map_id indented)
  rw [← isBody] at member
  obtain ⟨whole, -, rfl⟩ := List.mem_map.mp member
  exact indentLine_drop width _

/-! ### Runs in lines -/

section Runs

variable {run part between : List Char} {parts : List (List Char)}

theorem infix_intercalate (member : part ∈ parts) : part <:+: between.intercalate parts := by
  induction parts with
  | nil => cases member
  | cons first parts ih =>
    cases parts with
    | nil => exact ⟨[], [], by simp [List.mem_singleton.mp member]⟩
    | cons next parts =>
      rw [List.intercalate_cons_cons]
      rcases List.mem_cons.mp member with rfl | later
      · exact ⟨[], between ++ between.intercalate (next :: parts), by simp⟩
      · exact List.infix_append_of_infix_right (ih later)

theorem infix_of_mem_linesOf (isLine : line ∈ linesOf cs) : line <:+: cs := by
  rw [← intercalate_splitOnChars cs]
  exact infix_intercalate isLine

theorem infix_trimKeepingIndentation (cs : List Char) : trimKeepingIndentation cs <:+: cs := by
  have front : dropBlankFirstLine cs <:+ cs := by
    unfold dropBlankFirstLine
    split
    · next line rest found =>
      split
      · exact ⟨line ++ ['\n'], (eq_of_breakOn found).symm⟩
      · exact List.suffix_refl cs
    · exact List.suffix_refl cs
  exact (List.rdropWhile_prefix isMarkupSpace _).isInfix.trans front.isInfix

variable (nonempty : run ≠ [])

include nonempty

theorem infix_of_apart {front : List Char} (apart : ∀ c ∈ front, c ∉ run) (inside : run <:+: front ++ cs) :
    run <:+: cs := by
  induction front with
  | nil => exact inside
  | cons c front ih =>
    obtain ⟨first, others⟩ := List.forall_mem_cons.mp apart
    rw [List.cons_append] at inside
    obtain here | later := List.infix_cons_iff.mp inside
    · obtain ⟨d, rest, rfl⟩ := List.exists_cons_of_ne_nil nonempty
      exact absurd ((List.cons_prefix_cons.mp here).1 ▸ List.mem_cons_self) first
    · exact ih others later

theorem exists_infix_of_unlines (noFeed : '\n' ∉ run) (inside : run <:+: unlines lines) :
    ∃ line ∈ lines, run <:+: line := by
  induction lines with
  | nil => exact absurd (List.infix_nil.mp inside) nonempty
  | cons line lines ih =>
    have split : unlines (line :: lines) = line ++ (['\n'] ++ unlines lines) := List.append_assoc ..
    rw [split] at inside
    obtain here | later := infix_of_infix_append inside (by simpa using noFeed)
    · exact ⟨line, List.mem_cons_self, here⟩
    · obtain ⟨other, member, there⟩ := ih (infix_of_apart nonempty (by simpa using noFeed) later)
      exact ⟨other, List.mem_cons_of_mem _ member, there⟩

/-- A run without white space is in the indented body only if it was in the body. -/
theorem infix_of_indented (solid : ∀ c ∈ run, isMarkupSpace c = false)
    (inside : run <:+: '\n' :: unlines ((bodyLines cs).map (indentLine width))) : run <:+: cs := by
  have apart {c : Char} (space : isMarkupSpace c = true) : c ∉ run := by
    intro member
    rw [solid c member] at space
    cases space
  have noFeed : '\n' ∉ run := apart rfl
  have behind := infix_of_apart nonempty (List.forall_mem_singleton.mpr noFeed) inside
  obtain ⟨line, member, there⟩ := exists_infix_of_unlines nonempty noFeed behind
  rw [bodyLines_eq_map, List.map_map] at member
  obtain ⟨whole, isLine, rfl⟩ := List.mem_map.mp member
  have body := there.trans (List.rdropWhile_prefix isLineBlank _).isInfix
  have said := infix_of_apart nonempty (fun c space => apart (isMarkupSpace_of_mem_replicate space)) body
  exact said.trans ((List.drop_suffix _ _).isInfix.trans
    ((infix_of_mem_linesOf isLine).trans (infix_trimKeepingIndentation cs)))

end Runs

/-- A body that says something, and whose end can be found. -/
structure IsBody (cs : List Char) : Prop where
  said : cs.all isMarkupSpace = false
  ends : occursIn ['<', '/'] cs = false
  clean : '\r' ∉ cs

theorem IsBody.indented (isBody : IsBody cs) (width : Nat) :
    IsBody ('\n' :: unlines ((bodyLines cs).map (indentLine width))) := by
  refine ⟨?_, ?_, ?_⟩
  · obtain ⟨first, last, c, lines, solid⟩ := exists_last_line isBody.said
    have member : last ++ [c] ∈ linesOf (trimKeepingIndentation cs) := by simp [lines]
    have said : IsSaid (last ++ [c]) := by simp [IsSaid, solid]
    have still := (isSaid_indentLine said (commonIndentation_le member said) width).1
    rw [IsSaid, Bool.eq_false_iff] at still
    rw [bodyLines_eq_map, List.map_map, Bool.eq_false_iff]
    intro all
    refine still (List.all_eq_true.mpr fun d inside => List.all_eq_true.mp all d (List.mem_cons_of_mem _ ?_))
    exact List.mem_flatMap.mpr ⟨_, List.mem_map_of_mem member, List.mem_append_left _ inside⟩
  · rw [Bool.eq_false_iff, Ne, occursIn_iff_infix]
    intro inside
    have within := infix_of_indented (List.cons_ne_nil _ _) (by simp [isMarkupSpace]) inside
    rw [← occursIn_iff_infix, isBody.ends] at within
    cases within
  · have clean : Within (· ≠ '\r') (dedent (trimKeepingIndentation cs)) := by
      refine within_dedent (by decide) fun c member => ?_
      rintro rfl
      exact isBody.clean (trimKeepingIndentation_subset cs member)
    have each : ∀ line ∈ (bodyLines cs).map (indentLine width), Within (· ≠ '\r') (line ++ ['\n']) := by
      rw [List.forall_mem_map]
      refine fun line isLine => within_append (fun c member => ?_) (List.forall_mem_singleton.mpr (by decide))
      rcases List.mem_append.mp (dropEnd_subset _ _ member) with space | inside
      · rw [List.eq_of_mem_replicate space]
        decide
      · exact clean c (subset_of_mem_splitOnChars isLine inside)
    rintro (_ | ⟨_, member⟩)
    obtain ⟨line, isLine, inside⟩ := List.mem_flatMap.mp member
    exact each line isLine '\r' inside rfl

end MarkupFormat.Text
