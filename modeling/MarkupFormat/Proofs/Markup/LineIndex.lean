import MarkupFormat.Markup.LineIndex
import MarkupFormat.Proofs.Annotate.Trimmed
import MarkupFormat.Proofs.Text.Cut

/-!
# Lines are found by their table

Halving the table of starts counts the starts up to an offset (`countUpTo_eq_countP`), and these are as many as the
line feeds before it and one more. The start of a line is the end of the text before it (`starts_append`), so a column
counts the characters after that text (`lineColumn_append`). Offsets and numbers take 32 bits, so a table finds the
lines of every source that is shorter than the greatest offset, and not of every longer one (`findsLines_build_iff`).
-/

namespace MarkupFormat.Text

/-! ### Line feeds among bytes -/

/-- How many of the first bytes of a text are line feeds. -/
def feedsWithin (bytes : Nat) (text : String) : Nat :=
  (text.toUTF8.data.toList.take bytes).count '\n'.toUInt8

variable {c : Char} {cs : List Char}

theorem feed_not_mem_utf8EncodeChar (other : c ≠ '\n') : '\n'.toUInt8 ∉ String.utf8EncodeChar c := by
  have different : c.val.toNat ≠ 10 := fun same => other (Char.ext (UInt32.toNat.inj same))
  have byte {n : Nat} (small : n < 256) (not : n ≠ 10) : '\n'.toUInt8 ≠ UInt8.ofNat n := by
    intro same
    have values := congrArg UInt8.toNat same
    rw [UInt8.toNat_ofNat_of_lt' small] at values
    exact not values.symm
  unfold String.utf8EncodeChar
  dsimp only
  split
  · simp only [List.mem_singleton]
    exact byte (by omega) different
  · have lead {n : Nat} (low : 128 ≤ n) (high : n < 256) := byte high (show n ≠ 10 by omega)
    split
    · simp only [List.mem_cons, List.not_mem_nil, or_false, not_or]
      exact ⟨lead (by omega) (by omega), lead (by omega) (by omega)⟩
    · split
      · simp only [List.mem_cons, List.not_mem_nil, or_false, not_or]
        exact ⟨lead (by omega) (by omega), lead (by omega) (by omega), lead (by omega) (by omega)⟩
      · simp only [List.mem_cons, List.not_mem_nil, or_false, not_or]
        exact ⟨lead (by omega) (by omega), lead (by omega) (by omega), lead (by omega) (by omega),
          lead (by omega) (by omega)⟩

theorem bytes_ofList (cs : List Char) :
    (String.ofList cs).toUTF8.data.toList = cs.flatMap String.utf8EncodeChar := by
  simp [List.utf8Encode]

theorem feedsWithin_nil (bytes : Nat) : feedsWithin bytes (String.ofList []) = 0 := by
  unfold feedsWithin
  rw [bytes_ofList, List.flatMap_nil, List.take_nil, List.count_nil]

theorem feedsWithin_cons (bytes : Nat) (c : Char) (cs : List Char) :
    feedsWithin bytes (String.ofList (c :: cs)) =
      (if c = '\n' ∧ bytes ≠ 0 then 1 else 0) + feedsWithin (bytes - c.utf8Size) (String.ofList cs) := by
  unfold feedsWithin
  rw [bytes_ofList, bytes_ofList, List.flatMap_cons, List.take_append, List.count_append, String.length_utf8EncodeChar]
  congr 1
  by_cases feed : c = '\n'
  · subst feed
    cases bytes with
    | zero => rfl
    | succ bytes =>
      have single : String.utf8EncodeChar '\n' = ['\n'.toUInt8] := rfl
      rw [if_pos ⟨rfl, Nat.succ_ne_zero bytes⟩, single, List.take_succ_cons, List.take_nil,
        List.count_singleton_self]
  · rw [if_neg fun both => feed both.1]
    exact List.count_eq_zero.mpr fun member => feed_not_mem_utf8EncodeChar feed (List.mem_of_mem_take member)

theorem feedsWithin_zero (text : String) : feedsWithin 0 text = 0 := by
  unfold feedsWithin
  rw [List.take_zero, List.count_nil]

theorem feedsWithin_append (before after : List Char) :
    feedsWithin (byteLength before) (String.ofList (before ++ after)) = before.count '\n' := by
  induction before with
  | nil => exact feedsWithin_zero _
  | cons c before ih =>
    have some := byteLength_pos (List.cons_ne_nil c before)
    have left : byteLength (c :: before) - c.utf8Size = byteLength before := by
      rw [byteLength_cons, Nat.add_sub_cancel_left]
    rw [List.cons_append, feedsWithin_cons, left, ih, List.count_cons, Nat.add_comm]
    congr 1
    by_cases feed : c = '\n'
    · rw [if_pos ⟨feed, Nat.ne_of_gt some⟩, if_pos (beq_iff_eq.mpr feed)]
    · rw [if_neg fun both => feed both.1, if_neg fun same => feed (beq_iff_eq.mp same)]

theorem byteLength_replicate_feed (count : Nat) : byteLength (List.replicate count '\n') = count := by
  induction count with
  | zero => rfl
  | succ count ih =>
    have one : '\n'.utf8Size = 1 := rfl
    rw [List.replicate_succ, byteLength_cons, ih, one, Nat.add_comm]

theorem feedsWithin_le (bytes : Nat) (text : String) : feedsWithin bytes text ≤ min bytes text.utf8ByteSize := by
  unfold feedsWithin
  have counted := List.count_le_length (a := '\n'.toUInt8) (l := text.toUTF8.data.toList.take bytes)
  rw [List.length_take] at counted
  exact counted

theorem feedsWithin_min (bytes : Nat) (text : String) :
    feedsWithin (min bytes text.utf8ByteSize) text = feedsWithin bytes text := by
  have size : text.utf8ByteSize = text.toUTF8.data.toList.length := rfl
  unfold feedsWithin
  rw [size, ← List.take_eq_take_min]

/-! ### The line around a place -/

/-- A line may begin behind a text. -/
def EndsLine (cs : List Char) : Prop :=
  ∀ c ∈ cs.getLast?, c = '\n'

theorem exists_endsLine (cs : List Char) : ∃ above inLine,
    cs = above ++ inLine ∧ EndsLine above ∧ '\n' ∉ inLine ∧ inLine = takeEnd (· ≠ '\n') cs := by
  have parts := dropEnd_append_takeEnd (· ≠ '\n') cs
  refine ⟨_, _, parts.symm, ?_, ?_, rfl⟩
  · intro c last
    unfold dropEnd at last
    rw [List.getLast?_reverse] at last
    simpa using eq_false_of_head?_dropWhile last
  · intro member
    simpa using List.all_eq_true.mp (all_takeEnd (· ≠ '\n') cs) '\n' member

end MarkupFormat.Text

namespace MarkupFormat.Markup.LineIndex

open Text (Cut EndsLine byteLength feedsWithin)

/-! ### Halving -/

section

variable {starts : Array Nat} {offset low high count : Nat}

/-- The first `count` starts are at most `offset`, and no others are. -/
def SplitsAt (starts : Array Nat) (offset count : Nat) : Prop :=
  ∀ i (inside : i < starts.size), starts[i] ≤ offset ↔ i < count

theorem countP_of_splitsAt (within : count ≤ starts.size) (splits : SplitsAt starts offset count) :
    starts.toList.countP (· ≤ offset) = count := by
  have first : (starts.toList.take count).countP (· ≤ offset) = (starts.toList.take count).length := by
    refine List.countP_eq_length.mpr fun start member => ?_
    obtain ⟨i, small, rfl⟩ := List.mem_take_iff_getElem.mp member
    have bound := Nat.lt_min.mp small
    exact decide_eq_true ((splits i bound.2).mpr bound.1)
  have rest : (starts.toList.drop count).countP (· ≤ offset) = 0 := by
    refine List.countP_eq_zero.mpr fun start member => ?_
    obtain ⟨i, small, rfl⟩ := List.mem_drop_iff_getElem.mp member
    simp only [decide_eq_true_eq]
    intro upTo
    have counted := (splits (count + i) (by simpa [Nat.add_comm] using small)).mp upTo
    omega
  have whole := List.take_append_drop count starts.toList
  rw [← whole, List.countP_append, first, rest, List.length_take, Array.length_toList, Nat.add_zero,
    Nat.min_eq_left within]

theorem le_of_increasing (increasing : starts.toList.Pairwise (· < ·)) {i j : Nat} (inside : j < starts.size)
    (upTo : i ≤ j) : starts[i] ≤ starts[j] := by
  rcases Nat.lt_or_eq_of_le upTo with less | rfl
  · exact Nat.le_of_lt (List.pairwise_iff_getElem.mp increasing i j _ _ less)
  · exact Nat.le_refl _

/-- Halving between two places keeps that the starts before the first are counted and those from the second on are
not. -/
theorem splitsAt_countUpTo (increasing : starts.toList.Pairwise (· < ·)) (ordered : low ≤ high)
    (within : high ≤ starts.size)
    (before : ∀ i (inside : i < starts.size), i < low → starts[i] ≤ offset)
    (after : ∀ i (inside : i < starts.size), high ≤ i → offset < starts[i]) :
    countUpTo starts offset low high ≤ starts.size ∧ SplitsAt starts offset (countUpTo starts offset low high) := by
  fun_induction countUpTo starts offset low high with
  | case1 low high more middle counted ih =>
    have inside : middle < starts.size := by omega
    rw [Array.getD_eq_getD_getElem?, Array.getElem?_eq_getElem inside, Option.getD_some] at counted
    refine ih (by omega) within (fun i here less => ?_) after
    exact Nat.le_trans (le_of_increasing increasing inside (by omega)) counted
  | case2 low high more middle notCounted ih =>
    have inside : middle < starts.size := by omega
    rw [Array.getD_eq_getD_getElem?, Array.getElem?_eq_getElem inside, Option.getD_some] at notCounted
    refine ih (by omega) (by omega) before fun i here from_middle => ?_
    exact Nat.lt_of_lt_of_le (Nat.lt_of_not_le notCounted) (le_of_increasing increasing here from_middle)
  | case3 low high none =>
    refine ⟨by omega, fun i inside => ⟨fun upTo => ?_, before i inside⟩⟩
    refine Nat.lt_of_not_le fun from_high => ?_
    exact absurd (after i inside (by omega)) (Nat.not_lt_of_le upTo)

theorem splitsAt_startsUpTo {index : LineIndex} (increasing : index.starts.toList.Pairwise (· < ·)) (offset : Nat) :
    index.startsUpTo offset ≤ index.starts.size ∧ SplitsAt index.starts offset (index.startsUpTo offset) :=
  splitsAt_countUpTo increasing (Nat.zero_le _) (Nat.le_refl _) (fun _ _ less => absurd less (Nat.not_lt_zero _))
    fun _ inside outside => absurd inside (Nat.not_lt_of_le outside)

theorem startsUpTo_getElem {index : LineIndex} (increasing : index.starts.toList.Pairwise (· < ·)) {i : Nat}
    (inside : i < index.starts.size) :
    index.startsUpTo index.starts[i] = i + 1 ∧
      ∀ offset, index.startsUpTo offset = i + 1 → index.starts[i] ≤ offset := by
  refine ⟨?_, fun offset same => ((splitsAt_startsUpTo increasing offset).2 i inside).mpr (same ▸ Nat.lt_succ_self i)⟩
  obtain ⟨within, splits⟩ := splitsAt_startsUpTo increasing index.starts[i]
  have counted : i < index.startsUpTo index.starts[i] := (splits i inside).mp (Nat.le_refl _)
  refine Nat.le_antisymm (Nat.le_of_not_lt fun more => ?_) counted
  have next : i + 1 < index.starts.size := by omega
  have later := List.pairwise_iff_getElem.mp increasing i (i + 1) inside next (Nat.lt_succ_self i)
  exact absurd ((splits (i + 1) next).mpr more) (Nat.not_le_of_lt later)

end

/-! ### Starts -/

section

variable {cs above inLine after : List Char} {base start : Nat}

theorem lt_of_mem_startsAfter (member : start ∈ startsAfter base cs) : base < start := by
  induction cs generalizing base with
  | nil => cases member
  | cons c cs ih =>
    have some := c.utf8Size_pos
    have later (member : start ∈ startsAfter (base + c.utf8Size) cs) : base < start :=
      Nat.lt_trans (by omega) (ih member)
    unfold startsAfter at member
    dsimp only at member
    split at member
    · rcases List.mem_cons.mp member with rfl | member
      · omega
      · exact later member
    · exact later member

theorem pairwise_startsAfter (base : Nat) (cs : List Char) : (startsAfter base cs).Pairwise (· < ·) := by
  induction cs generalizing base with
  | nil => exact List.Pairwise.nil
  | cons c cs ih =>
    unfold startsAfter
    dsimp only
    split
    · exact List.pairwise_cons.mpr ⟨fun _ member => lt_of_mem_startsAfter member, ih _⟩
    · exact ih _

theorem length_startsAfter (base : Nat) (cs : List Char) : (startsAfter base cs).length = cs.count '\n' := by
  induction cs generalizing base with
  | nil => rfl
  | cons c cs ih =>
    unfold startsAfter
    dsimp only
    split
    · next feed => rw [List.length_cons, ih, feed, List.count_cons_self]
    · next other => rw [ih, List.count_cons_of_ne other]

theorem startsAfter_append (base : Nat) (cs ds : List Char) :
    startsAfter base (cs ++ ds) = startsAfter base cs ++ startsAfter (base + byteLength cs) ds := by
  induction cs generalizing base with
  | nil => rfl
  | cons c cs ih =>
    rw [List.cons_append, startsAfter, startsAfter, ih, Text.byteLength_cons, Nat.add_assoc]
    split
    · rfl
    · rfl

theorem getLast?_starts (ends : EndsLine cs) : (0 :: startsAfter 0 cs).getLast? = some (byteLength cs) := by
  induction cs using List.reverseRecOn with
  | nil => rfl
  | append_singleton before last =>
    obtain rfl : last = '\n' := ends last (by simp)
    rw [startsAfter_append, Nat.zero_add, ← List.cons_append, Text.byteLength_append]
    exact List.getLast?_concat ..

/-- The starts up to a place are as many as the line feeds before it and one more. -/
theorem countP_startsAfter (offset base : Nat) (cs : List Char) :
    (startsAfter base cs).countP (· ≤ offset) = feedsWithin (offset - base) (String.ofList cs) := by
  induction cs generalizing base with
  | nil => rw [Text.feedsWithin_nil]; rfl
  | cons c cs ih =>
    rw [startsAfter, Text.feedsWithin_cons, Nat.sub_sub, ← ih]
    split
    · next feed =>
      subst feed
      have one : '\n'.utf8Size = 1 := rfl
      rw [List.countP_cons, Nat.add_comm, one]
      congr 1
      simp only [decide_eq_true_eq]
      refine if_congr ⟨fun upTo => ⟨trivial, by omega⟩, fun after => ?_⟩ rfl rfl
      have some := after.2
      omega
    · next other => rw [if_neg fun both => other both.1, Nat.zero_add]

theorem mem_startsAfter_le (member : start ∈ startsAfter base cs) : start ≤ base + byteLength cs := by
  induction cs generalizing base with
  | nil => cases member
  | cons c cs ih =>
    have later (member : start ∈ startsAfter (base + c.utf8Size) cs) : start ≤ base + byteLength (c :: cs) := by
      have bound := ih member
      rw [Text.byteLength_cons]
      omega
    unfold startsAfter at member
    dsimp only at member
    split at member
    · rcases List.mem_cons.mp member with rfl | member
      · rw [Text.byteLength_cons]
        omega
      · exact later member
    · exact later member

end

/-! ### Indices of sources within reach -/

theorem size_eq : UInt32.size = 1 + maxOffset :=
  rfl

theorem ordinal_eq {i : Nat} (reached : i < maxOffset) : ordinal i = 1 + i := by
  unfold ordinal
  rw [if_pos (Nat.le_of_lt reached), size_eq, Nat.mod_eq_of_lt (by omega), Nat.add_comm]

theorem ordinal_le (i : Nat) : ordinal i ≤ maxOffset := by
  have least := Nat.mod_lt ((if i ≤ maxOffset then i else maxOffset - 1) + 1) (show 0 < 1 + maxOffset by omega)
  unfold ordinal
  rw [size_eq]
  omega

section

variable {source above inLine after : List Char}

theorem starts_build (small : byteLength source ≤ maxOffset) :
    (build source).starts = (0 :: startsAfter 0 source).toArray := by
  have kept : (startsAfter 0 source).map (min · maxOffset) = startsAfter 0 source := by
    refine Eq.trans (List.map_congr_left fun start member => ?_) (List.map_id _)
    have bound := mem_startsAfter_le member
    exact Nat.min_eq_left (by omega)
  unfold build
  rw [kept]

theorem increasing_build (small : byteLength source ≤ maxOffset) :
    (build source).starts.toList.Pairwise (· < ·) := by
  rw [starts_build small]
  exact List.pairwise_cons.mpr ⟨fun _ member => lt_of_mem_startsAfter member, pairwise_startsAfter 0 source⟩

theorem startsUpTo_build (small : byteLength source ≤ maxOffset) (offset : Nat) :
    (build source).startsUpTo offset = 1 + feedsWithin offset (String.ofList source) := by
  obtain ⟨within, splits⟩ := splitsAt_startsUpTo (increasing_build small) offset
  rw [← countP_of_splitsAt within splits, starts_build small]
  show (0 :: startsAfter 0 source).countP _ = _
  rw [List.countP_cons_of_pos (by simp), countP_startsAfter, Nat.sub_zero, Nat.add_comm]

theorem line_build (small : byteLength source ≤ maxOffset) {offset : Nat}
    (reached : feedsWithin offset (String.ofList source) < maxOffset) :
    (build source).line offset = 1 + feedsWithin offset (String.ofList source) := by
  unfold line
  rw [startsUpTo_build small, Nat.add_sub_cancel_left, ordinal_eq reached]

theorem line_append (small : byteLength (above ++ inLine ++ after) ≤ maxOffset)
    (reached : byteLength (above ++ inLine) < maxOffset) (noFeed : '\n' ∉ inLine) :
    (build (above ++ inLine ++ after)).line (byteLength (above ++ inLine)) = 1 + above.count '\n' := by
  have counted := Nat.le_trans (Text.feedsWithin_le (byteLength (above ++ inLine))
    (String.ofList (above ++ inLine ++ after))) (Nat.min_le_left _ _)
  rw [line_build small (Nat.lt_of_le_of_lt counted reached), Text.feedsWithin_append, List.count_append,
    List.count_eq_zero.mpr noFeed, Nat.add_zero]

theorem lineStart?_append (small : byteLength (above ++ after) ≤ maxOffset) (ends : EndsLine above) :
    (build (above ++ after)).lineStart? (1 + above.count '\n') = some (byteLength above) := by
  have last := getLast?_starts ends
  rw [List.getLast?_eq_getElem?, List.length_cons, length_startsAfter, Nat.add_sub_cancel] at last
  have inside : above.count '\n' < (0 :: startsAfter 0 above).length := by
    rw [List.length_cons, length_startsAfter]
    omega
  unfold lineStart?
  rw [if_neg (by omega), Nat.add_sub_cancel_left, starts_build small]
  rw [List.getElem?_toArray, startsAfter_append, ← List.cons_append, List.getElem?_append_left inside, last]

theorem lineColumn_append (small : byteLength (above ++ inLine ++ after) ≤ maxOffset)
    (reached : byteLength (above ++ inLine) < maxOffset) (ends : EndsLine above) (noFeed : '\n' ∉ inLine) :
    (build (above ++ inLine ++ after)).lineColumn (above ++ inLine ++ after) (byteLength (above ++ inLine)) =
      (1 + above.count '\n', 1 + inLine.length) := by
  have cut : Cut (above ++ inLine ++ after) (byteLength above) (byteLength (above ++ inLine)) inLine :=
    ⟨above, after, rfl, rfl, (Text.byteLength_append ..).symm⟩
  have column : inLine.length < maxOffset := by
    have shorter := Text.length_le_byteLength inLine
    rw [Text.byteLength_append] at reached
    omega
  have start : (build (above ++ inLine ++ after)).lineStart? (1 + above.count '\n') = some (byteLength above) := by
    rw [List.append_assoc] at small ⊢
    exact lineStart?_append small ends
  unfold lineColumn
  dsimp only
  rw [line_append small reached noFeed, start, Option.getD_some, Nat.min_eq_left cut.stop_le_byteLength,
    Text.sliceChars?_eq_some_iff.mpr cut, Option.getD_some, ordinal_eq column]

end

/-! ### Sources -/

/-- Lines and columns are those of a source: the line of a place is told by the line feeds among the bytes before it,
every line and no other has a start, and a column is told by the characters between the start and the place. -/
structure FindsLines (index : LineIndex) (source : String) : Prop where
  line_eq : ∀ offset, index.line offset = 1 + feedsWithin (min offset source.utf8ByteSize) source
  lineCount_eq : index.lineCount = 1 + feedsWithin source.utf8ByteSize source
  lineStart : ∀ line, 1 ≤ line → line ≤ index.lineCount →
    ∃ start, index.lineStart? line = some start ∧ index.line start = line ∧
      ∀ offset, index.line offset = line → start ≤ offset
  lineStart_eq_none : ∀ line, line = 0 ∨ index.lineCount < line → index.lineStart? line = none
  lineColumn_eq : ∀ offset, Cut source.toList offset offset [] → ∃ start inLine,
    index.lineStart? (index.line offset) = some start ∧ Cut source.toList start offset inLine ∧
      index.lineColumn source.toList offset = (index.line offset, 1 + inLine.length)

section

variable {source : String}

theorem lineCount_build (small : byteLength source.toList ≤ maxOffset) :
    (build source.toList).lineCount = 1 + feedsWithin source.utf8ByteSize source := by
  have whole := Text.feedsWithin_append source.toList []
  rw [List.append_nil, String.ofList_toList, ← Text.utf8ByteSize_eq_byteLength] at whole
  unfold lineCount
  rw [whole, Nat.add_comm, starts_build small]
  exact congrArg (· + 1) (length_startsAfter 0 source.toList)

/-- The index of a source that is shorter than the greatest offset finds its lines. -/
theorem findsLines_of_lt (short : source.utf8ByteSize < maxOffset) : (build source.toList).FindsLines source := by
  have less : byteLength source.toList < maxOffset := Text.utf8ByteSize_eq_byteLength source ▸ short
  have small := Nat.le_of_lt less
  have feeds (offset : Nat) : feedsWithin offset source < maxOffset :=
    Nat.lt_of_le_of_lt (Nat.le_trans (Text.feedsWithin_le offset source) (Nat.min_le_right _ _)) short
  have lines (offset : Nat) : (build source.toList).line offset = (build source.toList).startsUpTo offset := by
    rw [startsUpTo_build small, line_build small (by rw [String.ofList_toList]; exact feeds offset)]
  constructor
  case line_eq =>
    intro offset
    rw [lines, startsUpTo_build small, String.ofList_toList, Text.feedsWithin_min]
  case lineCount_eq => exact lineCount_build small
  case lineStart =>
    intro line first last
    have inside : line - 1 < (build source.toList).starts.size := Nat.lt_of_lt_of_le (Nat.sub_lt first Nat.one_pos) last
    have starts := startsUpTo_getElem (increasing_build small) inside
    rw [Nat.sub_add_cancel first] at starts
    refine ⟨(build source.toList).starts[line - 1], ?_, ?_⟩
    · unfold lineStart?
      rw [if_neg (Nat.ne_of_gt first), Array.getElem?_eq_getElem inside]
    · simp only [lines]
      exact starts
  case lineStart_eq_none =>
    intro line outside
    unfold lineStart?
    split
    · rfl
    · refine Array.getElem?_eq_none ?_
      unfold lineCount at outside
      omega
  case lineColumn_eq =>
    intro offset between
    obtain ⟨before, after, same, rfl, -⟩ := between
    obtain ⟨above, inLine, rfl, ends, noFeed, -⟩ := Text.exists_endsLine before
    rw [List.append_nil] at same
    rw [same] at small less ⊢
    have reached : byteLength (above ++ inLine) < maxOffset := by
      rw [Text.byteLength_append] at less
      omega
    rw [line_append small reached noFeed]
    refine ⟨byteLength above, inLine, ?_, ?_, lineColumn_append small reached ends noFeed⟩
    · rw [List.append_assoc] at small ⊢
      exact lineStart?_append small ends
    · exact ⟨above, after, rfl, rfl, (Text.byteLength_append ..).symm⟩

/-- A source of as many line feeds as the greatest offset has more lines than 32 bits count. -/
theorem not_findsLines_feeds : ¬ (build (List.replicate maxOffset '\n')).FindsLines
    (String.ofList (List.replicate maxOffset '\n')) := by
  intro finds
  have whole := Text.feedsWithin_append (List.replicate maxOffset '\n') []
  rw [List.append_nil, List.count_replicate_self, ← Text.feedsWithin_min] at whole
  have line := finds.line_eq (byteLength (List.replicate maxOffset '\n'))
  rw [whole] at line
  have most : (build (List.replicate maxOffset '\n')).line (byteLength (List.replicate maxOffset '\n')) ≤ maxOffset :=
    ordinal_le _
  omega

end

end MarkupFormat.Markup.LineIndex
