import Mathlib.Data.List.Induction
import MarkupFormat.Markup.ConditionalComment
import MarkupFormat.Proofs.Text.Cut
import MarkupFormat.Text.Lines
import MarkupFormat.Text.Quoted
import MarkupFormat.Text.Width
import MarkupFormat.Text.Words

/-!
# Characters and their columns

Which characters a text may have, and how many columns they take.

Cutting a text makes no new characters, and where a text is written anew, what is added is known: spaces, line feeds,
quotes and their entities. `Within` says which characters a text may have. The lower case of a character takes as many
bytes as the character, and is white space only if it is.

A text without control characters is as wide as its characters are together, so the width of a text that grows
at its end grows by what is added (`displayWidth_append`). Control characters take no column, but where plain ASCII is
measured at once they count as one each; `displayWidth_append_iff` tells when this shows.
-/

namespace MarkupFormat.Text

variable {p : Char → Prop} {drops : Char → Bool} {cs ds : List Char}

/-- All characters of a text are of a kind. -/
abbrev Within (p : Char → Prop) (cs : List Char) : Prop :=
  ∀ c ∈ cs, p c

/-- Carriage returns are all that may be left out. -/
abbrev Admits (p : Char → Prop) : Prop :=
  ∀ c, c ≠ '\r' → p c

theorem within_of_clean (admits : Admits p) (clean : '\r' ∉ cs) : Within p cs := by
  intro c member
  refine admits c ?_
  rintro rfl
  exact clean member

theorem Within.subset (within : Within p cs) (subset : ds ⊆ cs) : Within p ds :=
  fun c member => within c (subset member)

theorem within_append (first : Within p cs) (second : Within p ds) : Within p (cs ++ ds) :=
  List.forall_mem_append.mpr ⟨first, second⟩

theorem within_string_append {s t : String} (first : Within p s.toList) (second : Within p t.toList) :
    Within p (s ++ t).toList := by
  rw [String.toList_append]
  exact within_append first second

theorem within_ofList (within : Within p cs) : Within p (String.ofList cs).toList := by
  rwa [String.toList_ofList]

theorem within_intercalate {between : List Char} {parts : List (List Char)} (separator : Within p between)
    (each : ∀ part ∈ parts, Within p part) : Within p (between.intercalate parts) := by
  induction parts with
  | nil => exact fun _ member => absurd member List.not_mem_nil
  | cons part rest ih =>
    obtain ⟨first, others⟩ := List.forall_mem_cons.mp each
    cases rest with
    | nil =>
      rw [List.intercalate_singleton]
      exact first
    | cons next rest =>
      rw [List.intercalate_cons_cons]
      exact within_append (within_append first separator) (ih others)

/-! ### Ends of texts -/

theorem dropEnd_concat {drops : Char → Bool} {c : Char} (stays : drops c = false) (cs : List Char) :
    dropEnd drops (cs ++ [c]) = cs ++ [c] := by
  unfold dropEnd
  rw [List.reverse_concat, List.dropWhile_cons_of_neg (Bool.eq_false_iff.mp stays), List.reverse_cons,
    List.reverse_reverse]

theorem dropEnd_of_last {drops : Char → Bool} {cs : List Char} (stays : ∀ c ∈ cs.getLast?, drops c = false) :
    dropEnd drops cs = cs := by
  induction cs using List.reverseRecOn with
  | nil => rfl
  | append_singleton before last => exact dropEnd_concat (stays last (by simp)) before

/-- What is dropped at the end of a text is dropped at the end of its last part, unless that is dropped as a whole. -/
theorem dropEnd_append {drops : Char → Bool} {last : List Char} (kept : dropEnd drops last ≠ []) (cs : List Char) :
    dropEnd drops (cs ++ last) = cs ++ dropEnd drops last := by
  unfold dropEnd at kept ⊢
  rw [Ne, List.reverse_eq_nil_iff] at kept
  rw [List.reverse_append, List.dropWhile_append, if_neg (by simpa using kept), List.reverse_append,
    List.reverse_reverse]

theorem dropEnd_append_of_last {drops : Char → Bool} {cs : List Char} (stays : ∀ c ∈ cs.getLast?, drops c = false)
    (last : List Char) : dropEnd drops (cs ++ last) = cs ++ dropEnd drops last := by
  by_cases kept : dropEnd drops last = []
  · have gone : last.reverse.dropWhile drops = [] := List.reverse_eq_nil_iff.mp kept
    have whole : dropEnd drops (cs ++ last) = dropEnd drops cs := by
      unfold dropEnd
      rw [List.reverse_append, List.dropWhile_append, if_pos (by rw [gone]; rfl)]
    rw [kept, List.append_nil, whole, dropEnd_of_last stays]
  · exact dropEnd_append kept cs

/-! ### Parts of texts -/

theorem dropEnd_subset (drops : Char → Bool) (cs : List Char) : dropEnd drops cs ⊆ cs := by
  intro c member
  unfold dropEnd at member
  rw [List.mem_reverse] at member
  exact List.mem_reverse.mp (List.dropWhile_subset _ member)

theorem dropEnds_subset (drops : Char → Bool) (cs : List Char) : dropEnds drops cs ⊆ cs :=
  fun _ member => List.dropWhile_subset _ (dropEnd_subset drops _ member)

theorem subset_of_breakOn {needle before after : List Char} (found : breakOn needle cs = some (before, after)) :
    before ⊆ cs ∧ after ⊆ cs := by
  rw [eq_of_breakOn found, List.append_assoc]
  exact ⟨List.subset_append_left _ _, fun _ member => List.mem_append_right _ (List.mem_append_right _ member)⟩

theorem subset_of_dropPrefix? {needle rest : List Char} (found : dropPrefix? needle cs = some rest) : rest ⊆ cs := by
  unfold dropPrefix? at found
  split at found
  · cases found
    exact List.drop_subset _ _
  · cases found

theorem scan_subset (stop : List Char → Bool) (cs : List Char) : (scan stop cs).1 ⊆ cs ∧ (scan stop cs).2 ⊆ cs := by
  have whole := scan_append stop cs
  refine ⟨fun c member => ?_, fun c member => ?_⟩
  · rw [← whole]
    exact List.mem_append_left _ member
  · rw [← whole]
    exact List.mem_append_right _ member

theorem subset_of_templateBlock? {block rest : List Char} (found : templateBlock? cs = some (block, rest)) :
    block ⊆ cs ∧ rest ⊆ cs := by
  rw [eq_of_templateBlock? found]
  exact ⟨List.subset_append_left _ _, List.subset_append_right _ _⟩

theorem subset_of_mem_splitOnChars {split : Char → Bool} {piece : List Char}
    (isPiece : piece ∈ splitOnChars split cs) : piece ⊆ cs := by
  intro c member
  induction cs generalizing piece with
  | nil =>
    rw [splitOnChars, List.mem_singleton] at isPiece
    rwa [isPiece] at member
  | cons d ds ih =>
    rw [splitOnChars] at isPiece
    split at isPiece
    · rcases List.mem_cons.mp isPiece with rfl | later
      · cases member
      · exact List.mem_cons_of_mem _ (ih later member)
    · split at isPiece
      · rw [List.mem_singleton.mp isPiece, List.mem_singleton] at member
        rw [member]
        exact List.mem_cons_self
      · next first pieces same =>
        rw [same] at ih
        rcases List.mem_cons.mp isPiece with rfl | later
        · rcases List.mem_cons.mp member with rfl | member
          · exact List.mem_cons_self
          · exact List.mem_cons_of_mem _ (ih List.mem_cons_self member)
        · exact List.mem_cons_of_mem _ (ih (List.mem_cons_of_mem _ later) member)

theorem within_of_mem_splitOn {split : Char → Bool} {s piece : String} (within : Within p s.toList)
    (isPiece : piece ∈ splitOn split s) : Within p piece.toList := by
  obtain ⟨chars, inside, rfl⟩ := List.mem_map.mp isPiece
  exact within_ofList (within.subset (subset_of_mem_splitOnChars inside))

theorem slice_subset (cs : List Char) (start stop : Nat) : (slice cs start stop).toList ⊆ cs := by
  intro c member
  unfold slice at member
  rw [String.toList_ofList] at member
  cases found : sliceChars? cs start stop with
  | none =>
    rw [found] at member
    cases member
  | some part =>
    rw [found] at member
    obtain ⟨before, after, rfl, _⟩ := sliceChars?_eq_some_iff.mp found
    exact List.mem_append_left _ (List.mem_append_right _ member)

theorem dropBlankFirstLine_subset (cs : List Char) : dropBlankFirstLine cs ⊆ cs := by
  unfold dropBlankFirstLine
  split
  · next line rest found =>
    split
    · exact (subset_of_breakOn found).2
    · exact List.Subset.refl _
  · exact List.Subset.refl _

theorem trimKeepingIndentation_subset (cs : List Char) : trimKeepingIndentation cs ⊆ cs :=
  fun _ member => dropBlankFirstLine_subset cs (dropEnd_subset _ _ member)

/-! ### Texts that are written anew -/

theorem within_collapseRuns (space : p ' ') (within : Within p cs) (pending : Bool) :
    Within p (collapseRuns pending cs) := by
  induction cs generalizing pending with
  | nil => exact within
  | cons c cs ih =>
    obtain ⟨first, others⟩ := List.forall_mem_cons.mp within
    rw [collapseRuns]
    split
    · exact ih others true
    · split
      · exact List.forall_mem_cons.mpr ⟨space, List.forall_mem_cons.mpr ⟨first, ih others false⟩⟩
      · exact List.forall_mem_cons.mpr ⟨first, ih others false⟩

theorem within_collapse (space : p ' ') (within : Within p cs) : Within p (collapse cs) :=
  within_collapseRuns space (within.subset (dropEnds_subset _ cs)) false

theorem within_words (space : p ' ') (within : Within p cs) : ∀ word ∈ words cs, Within p word := by
  fun_induction words cs with
  | case1 => exact fun _ member => absurd member List.not_mem_nil
  | case2 c cs _ ih => exact ih (within.subset (List.subset_cons_self _ _))
  | case3 c cs _ ih =>
    have scanned := scan_subset startsBlank (c :: cs)
    intro word member
    rcases List.mem_cons.mp member with rfl | member
    · exact within_collapseRuns space (within.subset scanned.1) false
    · exact ih (within.subset scanned.2) word member

theorem within_dedent (feed : p '\n') (within : Within p cs) : Within p (dedent cs) := by
  unfold dedent
  dsimp only
  refine within_intercalate (fun c member => List.mem_singleton.mp member ▸ feed) fun line member => ?_
  obtain ⟨whole, isLine, rfl⟩ := List.mem_map.mp member
  exact within.subset (List.Subset.trans (List.drop_subset _ _) (subset_of_mem_splitOnChars isLine))

theorem within_unescapeQuotes (admits : Admits p) (within : Within p cs) : Within p (unescapeQuotes cs) := by
  fun_induction unescapeQuotes cs with
  | case1 cs ih =>
    simp only [List.forall_mem_cons] at within
    exact List.forall_mem_cons.mpr ⟨admits _ (by decide), ih within.2.2.2.2.2.2⟩
  | case2 cs ih =>
    simp only [List.forall_mem_cons] at within
    exact List.forall_mem_cons.mpr ⟨admits _ (by decide), ih within.2.2.2.2.2.2⟩
  | case3 c cs _ _ ih =>
    obtain ⟨first, others⟩ := List.forall_mem_cons.mp within
    exact List.forall_mem_cons.mpr ⟨first, ih others⟩
  | case4 => exact within

theorem within_escapeQuote (admits : Admits p) (quote : Char) (within : Within p cs) :
    Within p (escapeQuote quote cs) := by
  intro c member
  obtain ⟨d, isChar, member⟩ := List.mem_flatMap.mp member
  split at member
  · unfold quoteEntity at member
    split at member
    · exact within_of_clean admits (by decide) c member
    · exact within_of_clean admits (by decide) c member
  · rw [List.mem_singleton.mp member]
    exact within d isChar

/-! ### Lower case -/

theorem toNat_toLower (c : Char) :
    c.toLower.toNat = if 65 ≤ c.toNat ∧ c.toNat ≤ 90 then c.toNat + 32 else c.toNat := by
  unfold Char.toLower
  split
  · next upper =>
    have range : 65 ≤ c.toNat ∧ c.toNat ≤ 90 := ⟨upper.1, upper.2⟩
    have bound : c.val.toNat ≤ 90 := range.2
    rw [if_pos range]
    show (c.val + ('a'.val - 'A'.val)).toNat = c.toNat + 32
    rw [UInt32.toNat_add]
    show (c.val.toNat + 32) % 2 ^ 32 = c.val.toNat + 32
    omega
  · next other =>
    rw [if_neg]
    rintro ⟨low, high⟩
    exact other ⟨low, high⟩

theorem isWhiteSpace_toLower (c : Char) : isWhiteSpace c.toLower = isWhiteSpace c := by
  unfold isWhiteSpace
  dsimp only
  rw [toNat_toLower]
  split
  · next range =>
    rw [Bool.eq_iff_iff]
    simp only [Bool.or_eq_true, Bool.and_eq_true, decide_eq_true_eq]
    omega
  · rfl

theorem utf8Size_eq_one_iff (c : Char) : c.utf8Size = 1 ↔ c.toNat ≤ 127 := by
  rw [Char.utf8Size_eq_one_iff]
  exact Iff.rfl

theorem utf8Size_toLower (c : Char) : c.toLower.utf8Size = c.utf8Size := by
  by_cases range : 65 ≤ c.toNat ∧ c.toNat ≤ 90
  · have lower := toNat_toLower c
    rw [if_pos range] at lower
    rw [(utf8Size_eq_one_iff c).mpr (by omega), (utf8Size_eq_one_iff c.toLower).mpr (by omega)]
  · have same : c.toLower = c := by
      apply Char.toNat_inj.mp
      rw [toNat_toLower, if_neg range]
    rw [same]

theorem byteLength_map_toLower (cs : List Char) : byteLength (cs.map Char.toLower) = byteLength cs := by
  induction cs with
  | nil => rfl
  | cons c cs ih => rw [List.map_cons, byteLength_cons, byteLength_cons, ih, utf8Size_toLower]

/-! ### Columns of text -/

/-- A tab, or a character that is no control character. -/
def Ordinary (c : Char) : Prop :=
  c = '\t' ∨ isControl c = false

/-- The columns that characters take one by one. -/
def totalColumns (ruler : Ruler) (cs : List Char) : Nat :=
  cs.foldr (fun c width => ruler.columns c + width) 0

theorem totalColumns_cons (ruler : Ruler) (c : Char) :
    totalColumns ruler (c :: cs) = ruler.columns c + totalColumns ruler cs :=
  rfl

theorem totalColumns_append (ruler : Ruler) :
    totalColumns ruler (cs ++ ds) = totalColumns ruler cs + totalColumns ruler ds := by
  induction cs with
  | nil => exact (Nat.zero_add _).symm
  | cons c cs ih => rw [List.cons_append, totalColumns_cons, totalColumns_cons, ih, Nat.add_assoc]

theorem totalColumns_replicate (ruler : Ruler) (count : Nat) (c : Char) :
    totalColumns ruler (List.replicate count c) = count * ruler.columns c := by
  induction count with
  | zero => exact (Nat.zero_mul _).symm
  | succ count ih => rw [List.replicate_succ, totalColumns_cons, ih, Nat.succ_mul, Nat.add_comm]

theorem columns_of_isPlainAscii (ruler : Ruler) {c : Char} (ordinary : Ordinary c) (plain : isPlainAscii c = true) :
    ruler.columns c = 1 := by
  simp only [isPlainAscii, Bool.and_eq_true, decide_eq_true_eq, bne_iff_ne, ne_eq] at plain
  obtain ⟨ascii, noTab⟩ := plain
  have visible : isControl c = false := ordinary.resolve_left noTab
  simp only [isControl, Bool.or_eq_false_iff, Bool.and_eq_false_iff, decide_eq_false_iff_not] at visible
  unfold Ruler.columns
  rw [if_neg noTab, ruler.widths.width?_of_printable c (by omega) (by omega)]
  rfl

theorem columns_of_isControl (ruler : Ruler) {c : Char} (control : isControl c = true) (noTab : c ≠ '\t') :
    ruler.columns c = 0 := by
  unfold Ruler.columns
  rw [if_neg noTab, ruler.widths.width?_of_control c control]

theorem columns_space (ruler : Ruler) : ruler.columns ' ' = 1 :=
  columns_of_isPlainAscii ruler (.inr (by decide)) (by decide)

/-- Characters of plain ASCII take a column each, but for the control characters. -/
theorem totalColumns_add_countP (ruler : Ruler) (plain : ∀ c ∈ cs, isPlainAscii c = true) :
    totalColumns ruler cs + cs.countP isControl = cs.length := by
  induction cs with
  | nil => rfl
  | cons c cs ih =>
    obtain ⟨first, others⟩ := List.forall_mem_cons.mp plain
    have rest := ih others
    rw [totalColumns_cons, List.length_cons]
    cases control : isControl c with
    | false =>
      rw [columns_of_isPlainAscii ruler (.inr control) first, List.countP_cons_of_neg (by simp [control])]
      omega
    | true =>
      have noTab : c ≠ '\t' := by
        simp only [isPlainAscii, Bool.and_eq_true, bne_iff_ne] at first
        exact first.2
      rw [columns_of_isControl ruler control noTab, List.countP_cons_of_pos control]
      omega

theorem totalColumns_eq_length (ruler : Ruler) (plain : cs.all isPlainAscii = true)
    (visible : cs.any isControl = false) : totalColumns ruler cs = cs.length := by
  have none : cs.countP isControl = 0 := List.countP_eq_zero.mpr (List.any_eq_false.mp visible)
  rw [← totalColumns_add_countP ruler (List.all_eq_true.mp plain), none, Nat.add_zero]

/-- The control characters of a text that is measured at once. They take no column, but count as one each. -/
def overcount (s : String) : Nat :=
  if s.toList.all isPlainAscii then s.toList.countP isControl else 0

/-- Measuring plain ASCII at once is measuring it a character at a time, but for control characters. -/
theorem displayWidth_eq_add_overcount (s : String) (ruler : Ruler) :
    displayWidth s ruler = totalColumns ruler s.toList + overcount s := by
  unfold displayWidth overcount
  split
  · next plain => exact (totalColumns_add_countP ruler (List.all_eq_true.mp plain)).symm
  · rfl

theorem overcount_eq_zero_iff (s : String) :
    overcount s = 0 ↔ (∃ c ∈ s.toList, isPlainAscii c = false) ∨ ∀ c ∈ s.toList, isControl c = false := by
  unfold overcount
  split
  · next plain =>
    have none : ¬∃ c ∈ s.toList, isPlainAscii c = false := by
      simpa using plain
    simp [none]
  · next other =>
    have some : ∃ c ∈ s.toList, isPlainAscii c = false := by
      simpa using other
    simp [some]

theorem displayWidth_eq_totalColumns (ruler : Ruler) (ordinary : Within Ordinary cs) :
    displayWidth (String.ofList cs) ruler = totalColumns ruler cs := by
  have uncontrolled : overcount (String.ofList cs) = 0 := by
    rw [overcount_eq_zero_iff, String.toList_ofList]
    by_cases tab : '\t' ∈ cs
    · exact .inl ⟨'\t', tab, rfl⟩
    · exact .inr fun c member => (ordinary c member).resolve_left fun same => tab (same ▸ member)
  rw [displayWidth_eq_add_overcount, uncontrolled, String.toList_ofList, Nat.add_zero]

theorem displayWidth_append (ruler : Ruler) {s t : String} (first : Within Ordinary s.toList)
    (second : Within Ordinary t.toList) :
    displayWidth (s ++ t) ruler = displayWidth s ruler + displayWidth t ruler := by
  have whole := displayWidth_eq_totalColumns ruler (within_append first second)
  have front := displayWidth_eq_totalColumns ruler first
  have back := displayWidth_eq_totalColumns ruler second
  rw [totalColumns_append] at whole
  simp only [String.ofList_append, String.ofList_toList] at whole front back
  omega

theorem ordinary_of_visible {c : Char} (low : 0x20 ≤ c.toNat) (high : c.toNat < 0x7F) : Ordinary c := by
  refine .inr ?_
  simp only [isControl, Bool.or_eq_false_iff, Bool.and_eq_false_iff, decide_eq_false_iff_not]
  omega

theorem toNat_of_between {first last c : Char}
    (between : (decide (c.val ≥ first.val) && decide (c.val ≤ last.val)) = true) :
    first.toNat ≤ c.toNat ∧ c.toNat ≤ last.toNat := by
  rw [Bool.and_eq_true, decide_eq_true_eq, decide_eq_true_eq] at between
  exact between

theorem ordinary_of_isLineBlank {c : Char} (blank : isLineBlank c = true) : Ordinary c := by
  simp only [isLineBlank, Bool.or_eq_true, decide_eq_true_eq] at blank
  rcases blank with rfl | rfl
  · exact .inr (by decide)
  · exact .inl rfl

/-- Blanks take a column each, but for the tabs. -/
theorem totalColumns_of_all_blank (ruler : Ruler) (blank : ∀ c ∈ cs, isLineBlank c = true) :
    totalColumns ruler cs + cs.count '\t' = cs.length + ruler.tab * cs.count '\t' := by
  induction cs with
  | nil => rfl
  | cons c cs ih =>
    obtain ⟨first, others⟩ := List.forall_mem_cons.mp blank
    have rest := ih others
    simp only [isLineBlank, Bool.or_eq_true, decide_eq_true_eq] at first
    rcases first with rfl | rfl
    · rw [totalColumns_cons, List.length_cons, columns_space, List.count_cons_of_ne (by decide)]
      omega
    · have tab : ruler.columns '\t' = ruler.tab := rfl
      rw [totalColumns_cons, List.length_cons, tab, List.count_cons_self, Nat.mul_succ]
      omega

/-! ### Control characters -/

theorem overcount_append (s t : String) :
    overcount (s ++ t) =
      if s.toList.all isPlainAscii && t.toList.all isPlainAscii then overcount s + overcount t else 0 := by
  unfold overcount
  rw [String.toList_append, List.all_append, List.countP_append]
  cases s.toList.all isPlainAscii <;> cases t.toList.all isPlainAscii <;> rfl

end MarkupFormat.Text

namespace MarkupFormat.Markup.ConditionalComment

open Text (Within)

variable {p : Char → Prop} {condition : List Char}

theorem within_normalizeCondition (space : p ' ') (within : Within p condition) :
    Within p (normalizeCondition condition).toList := by
  unfold normalizeCondition
  rw [String.toList_intercalate]
  refine Text.within_intercalate (fun c member => List.mem_singleton.mp member ▸ space) fun part member => ?_
  obtain ⟨piece, isPiece, rfl⟩ := List.mem_map.mp member
  have isPart : piece ∈ Text.splitOn Text.isWhiteSpace (String.ofList condition) := (List.mem_filter.mp isPiece).1
  exact Text.within_of_mem_splitOn (Text.within_ofList within) isPart

end MarkupFormat.Markup.ConditionalComment
