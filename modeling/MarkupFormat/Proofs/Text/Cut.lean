import MarkupFormat.Text.Bytes

/-!
# Cutting texts at byte offsets

`Cut cs start stop part` says that two offsets cut `part` out of `cs`, both between characters.
`sliceChars?_eq_some_iff` shows that this is what a slice finds.
-/

namespace MarkupFormat.Text

/-- The offsets `start` and `stop` cut `part` out of `cs`. -/
def Cut (cs : List Char) (start stop : Nat) (part : List Char) : Prop :=
  ∃ before after, cs = before ++ part ++ after ∧ byteLength before = start ∧
    start + byteLength part = stop

theorem byteLength_pos {cs : List Char} (nonempty : cs ≠ []) : 0 < byteLength cs := by
  cases cs with
  | nil => exact absurd rfl nonempty
  | cons c cs =>
    have := c.utf8Size_pos
    rw [byteLength_cons]
    omega

theorem length_le_byteLength (cs : List Char) : cs.length ≤ byteLength cs := by
  induction cs with
  | nil => exact Nat.le_refl 0
  | cons c cs ih =>
    have some := c.utf8Size_pos
    rw [byteLength_cons, List.length_cons]
    omega

theorem utf8ByteSize_eq_byteLength (text : String) : text.utf8ByteSize = byteLength text.toList := by
  rw [← String.ofList_toList (s := text), String.toList_ofList]
  induction text.toList with
  | nil => rfl
  | cons c cs ih =>
    rw [String.ofList_cons, String.utf8ByteSize_append, String.utf8ByteSize_singleton, ih, byteLength_cons]

theorem eq_nil_of_byteLength {cs : List Char} (none : byteLength cs = 0) : cs = [] := by
  cases cs with
  | nil => rfl
  | cons c cs =>
    have := byteLength_pos (List.cons_ne_nil c cs)
    omega

theorem byteLength_le_of_suffix {cs ds : List Char} (ends : cs <:+ ds) : byteLength cs ≤ byteLength ds := by
  obtain ⟨front, rfl⟩ := ends
  rw [byteLength_append]
  omega

/-- Two fronts of a text with as many bytes are the same. -/
theorem append_inj_of_byteLength {xs ys as bs : List Char} (same : xs ++ as = ys ++ bs)
    (bytes : byteLength xs = byteLength ys) : xs = ys ∧ as = bs := by
  induction xs generalizing ys with
  | nil =>
    cases ys with
    | nil => exact ⟨rfl, same⟩
    | cons y ys =>
      have := byteLength_pos (List.cons_ne_nil y ys)
      rw [byteLength_nil] at bytes
      omega
  | cons x xs ih =>
    cases ys with
    | nil =>
      have := byteLength_pos (List.cons_ne_nil x xs)
      rw [byteLength_nil] at bytes
      omega
    | cons y ys =>
      obtain ⟨rfl, rest⟩ := List.cons.inj same
      rw [byteLength_cons, byteLength_cons] at bytes
      obtain ⟨rfl, rfl⟩ := ih rest (by omega)
      exact ⟨rfl, rfl⟩

theorem splitBytes_byteLength (taken rest : List Char) :
    splitBytes (byteLength taken) (taken ++ rest) = some (taken, rest) := by
  induction taken with
  | nil => cases rest <;> rfl
  | cons c taken ih =>
    obtain ⟨count, bytes⟩ : ∃ count, byteLength (c :: taken) = count + 1 :=
      ⟨byteLength (c :: taken) - 1, by have := byteLength_pos (List.cons_ne_nil c taken); omega⟩
    have after : count + 1 - c.utf8Size = byteLength taken := by
      rw [← bytes, byteLength_cons]
      omega
    have fits : c.utf8Size ≤ count + 1 := by
      rw [← bytes, byteLength_cons]
      omega
    rw [bytes, List.cons_append, splitBytes, if_pos fits, after, ih]
    rfl

theorem eq_of_splitBytes {count : Nat} {cs taken rest : List Char}
    (split : splitBytes count cs = some (taken, rest)) :
    cs = taken ++ rest ∧ byteLength taken = count := by
  fun_induction splitBytes count cs generalizing taken with
  | case1 cs => cases split; exact ⟨rfl, rfl⟩
  | case2 => cases split
  | case3 count c cs fits ih =>
    obtain ⟨⟨front, back⟩, found, same⟩ := Option.map_eq_some_iff.mp split
    cases same
    obtain ⟨rfl, bytes⟩ := ih found
    refine ⟨rfl, ?_⟩
    rw [byteLength_cons, bytes]
    omega
  | case4 => cases split

theorem sliceChars?_eq_some_iff {cs part : List Char} {start stop : Nat} :
    sliceChars? cs start stop = some part ↔ Cut cs start stop part := by
  constructor
  · intro found
    unfold sliceChars? at found
    split at found
    · next ordered =>
      simp only [Option.bind_eq_bind, Option.bind_eq_some_iff, Option.pure_def] at found
      obtain ⟨⟨before, middle⟩, first, ⟨taken, after⟩, second, same⟩ := found
      cases same
      obtain ⟨rfl, startBytes⟩ := eq_of_splitBytes first
      obtain ⟨rfl, partBytes⟩ := eq_of_splitBytes second
      exact ⟨before, after, (List.append_assoc ..).symm, startBytes, by dsimp only; omega⟩
    · cases found
  · rintro ⟨before, after, rfl, rfl, rfl⟩
    have partBytes : byteLength before + byteLength part - byteLength before = byteLength part := by
      omega
    unfold sliceChars?
    rw [if_pos (Nat.le_add_right ..), partBytes, List.append_assoc]
    simp [splitBytes_byteLength]

namespace Cut

variable {cs part : List Char} {start stop : Nat}

theorem stop_eq (cut : Cut cs start stop part) : stop = start + byteLength part := by
  obtain ⟨_, _, _, _, bytes⟩ := cut
  exact bytes.symm

theorem le (cut : Cut cs start stop part) : start ≤ stop := by
  obtain ⟨_, _, _, _, bytes⟩ := cut
  omega

theorem lt_of_ne_nil (cut : Cut cs start stop part) (nonempty : part ≠ []) : start < stop := by
  obtain ⟨_, _, _, _, bytes⟩ := cut
  have := byteLength_pos nonempty
  omega

theorem slice_eq (cut : Cut cs start stop part) : slice cs start stop = String.ofList part := by
  unfold slice
  rw [sliceChars?_eq_some_iff.mpr cut, Option.getD_some]

theorem unique {other : List Char} (cut : Cut cs start stop part) (cut' : Cut cs start stop other) :
    part = other :=
  Option.some.inj ((sliceChars?_eq_some_iff.mpr cut).symm.trans (sliceChars?_eq_some_iff.mpr cut'))

theorem append {last : Nat} {next : List Char} (cut : Cut cs start stop part)
    (cut' : Cut cs stop last next) : Cut cs start last (part ++ next) := by
  obtain ⟨before, after, same, startBytes, stopBytes⟩ := cut
  obtain ⟨before', after', same', startBytes', stopBytes'⟩ := cut'
  have fronts : byteLength (before ++ part) = byteLength before' := by
    rw [byteLength_append]
    omega
  obtain ⟨rfl, -⟩ := append_inj_of_byteLength
    (same.symm.trans (same'.trans (List.append_assoc ..))) fronts
  refine ⟨before, after', ?_, startBytes, ?_⟩
  · rw [same', List.append_assoc before]
  · rw [byteLength_append]
    omega

theorem subset (cut : Cut cs start stop part) : part ⊆ cs := by
  obtain ⟨before, after, rfl, _, _⟩ := cut
  exact fun c member => List.mem_append_left _ (List.mem_append_right _ member)

theorem nil_start (cut : Cut cs start stop part) : Cut cs start start [] := by
  obtain ⟨before, after, rfl, startBytes, _⟩ := cut
  exact ⟨before, part ++ after, by simp, startBytes, rfl⟩

theorem nil_stop (cut : Cut cs start stop part) : Cut cs stop stop [] := by
  obtain ⟨before, after, rfl, startBytes, stopBytes⟩ := cut
  refine ⟨before ++ part, after, by simp, ?_, rfl⟩
  rw [byteLength_append]
  omega

theorem of_append {first second : List Char} (cut : Cut cs start stop (first ++ second)) :
    Cut cs start (start + byteLength first) first ∧
      Cut cs (start + byteLength first) stop second := by
  obtain ⟨before, after, rfl, rfl, rfl⟩ := cut
  refine ⟨⟨before, second ++ after, by simp, rfl, rfl⟩, before ++ first, after, by simp, ?_, ?_⟩
  · rw [byteLength_append]
  · rw [byteLength_append]
    omega

theorem middle {front middle back : List Char} (cut : Cut cs start stop (front ++ middle ++ back)) :
    Cut cs (start + byteLength front) (stop - byteLength back) middle := by
  obtain ⟨whole, last⟩ := cut.of_append
  have bytes := last.stop_eq
  obtain ⟨-, inner⟩ := whole.of_append
  have atBack : stop - byteLength back = start + byteLength (front ++ middle) := by omega
  rw [atBack]
  exact inner

theorem stop_le_byteLength (cut : Cut cs start stop part) : stop ≤ byteLength cs := by
  obtain ⟨before, after, rfl, rfl, rfl⟩ := cut
  rw [byteLength_append, byteLength_append]
  omega

theorem isPrefix {middle : Nat} {front : List Char} (cut : Cut cs start stop part) (first : Cut cs start middle front)
    (before : middle ≤ stop) : front <+: part := by
  have bytes := cut.stop_eq
  have bytes' := first.stop_eq
  obtain ⟨left, right, same, starts, _⟩ := cut
  obtain ⟨left', right', same', starts', _⟩ := first
  rw [List.append_assoc] at same same'
  obtain ⟨-, same⟩ := append_inj_of_byteLength (same.symm.trans same') (starts.trans starts'.symm)
  have whole : part <+: part ++ right := List.prefix_append part right
  have total := List.prefix_or_prefix_of_prefix ⟨right', same.symm⟩ whole
  obtain shorter | ⟨rest, rfl⟩ := total
  · exact shorter
  · rw [byteLength_append] at bytes'
    obtain rfl : rest = [] := eq_nil_of_byteLength (by omega)
    exact ⟨[], by rw [List.append_nil, List.append_nil]⟩

theorem isSuffix {middle : Nat} {back : List Char} (cut : Cut cs start stop part) (last : Cut cs middle stop back)
    (after : start ≤ middle) : back <:+ part := by
  have bytes := cut.stop_eq
  have bytes' := last.stop_eq
  obtain ⟨left, right, same, starts, _⟩ := cut
  obtain ⟨left', right', same', starts', _⟩ := last
  have fronts : byteLength (left ++ part) = byteLength (left' ++ back) := by
    rw [byteLength_append, byteLength_append]
    omega
  obtain ⟨same, -⟩ := append_inj_of_byteLength (same.symm.trans same') fronts
  have whole : part <:+ left ++ part := List.suffix_append left part
  have total := List.suffix_or_suffix_of_suffix ⟨left', same.symm⟩ whole
  obtain shorter | ⟨rest, rfl⟩ := total
  · exact shorter
  · rw [byteLength_append] at bytes'
    obtain rfl : rest = [] := eq_nil_of_byteLength (by omega)
    exact List.suffix_rfl

theorem whole (cs : List Char) : Cut cs 0 (byteLength cs) cs :=
  ⟨[], [], by simp, rfl, Nat.zero_add _⟩

end Cut

end MarkupFormat.Text
