import MarkupFormat.Text.Words

/-!
# Texts with template blocks

A templated text is made up of plain characters and closed template blocks. A scan that plain characters do
not stop passes over such a text as a whole, whatever its blocks hold (`scan_templated`).
-/

namespace MarkupFormat.Text

/-! ### First occurrences -/

theorem occursIn_cons (needle : List Char) (c : Char) (cs : List Char) :
    occursIn needle (c :: cs) = (needle.isPrefixOf (c :: cs) || occursIn needle cs) := by
  unfold occursIn
  rw [breakOn]
  split
  · next starts => rw [starts]; rfl
  · next starts =>
    rw [Bool.not_eq_true] at starts
    rw [starts, Option.isSome_map]
    rfl

theorem breakOn_append_self {needle : List Char} (nonempty : needle ≠ []) (rest : List Char) :
    breakOn needle (needle ++ rest) = some ([], rest) := by
  obtain ⟨c, cs, rfl⟩ := List.exists_cons_of_ne_nil nonempty
  have starts : (c :: cs).isPrefixOf (c :: (cs ++ rest)) = true :=
    List.isPrefixOf_iff_prefix.mpr (List.prefix_append (c :: cs) rest)
  rw [List.cons_append, breakOn, if_pos starts]
  simp

theorem breakOn_append_of_not_mem {c : Char} {front : List Char} (absent : c ∉ front) (needle cs : List Char) :
    breakOn (c :: needle) (front ++ cs) = (breakOn (c :: needle) cs).map fun found => (front ++ found.1, found.2) := by
  induction front with
  | nil => simp
  | cons d front ih =>
    rw [List.mem_cons, not_or] at absent
    have elsewhere : (c :: needle).isPrefixOf (d :: (front ++ cs)) = false := by simp [List.isPrefixOf, absent.1]
    rw [List.cons_append, breakOn, if_neg (by rw [elsewhere]; decide), ih absent.2, Option.map_map]
    rfl

theorem breakOn_eq_none {c : Char} {cs : List Char} (absent : c ∉ cs) (needle : List Char) :
    breakOn (c :: needle) cs = none := by
  have found := breakOn_append_of_not_mem absent needle []
  rwa [List.append_nil] at found

/-- Where `needle` does not occur in `cs`, it first occurs after `cs`, or before that with the end of `cs`
as its front. -/
theorem breakOn_append {needle cs : List Char} (nonempty : needle ≠ [])
    (absent : occursIn needle cs = false) (rest : List Char) :
    ∃ before front more, cs = before ++ front ∧ front ++ needle = needle ++ more ∧
      front.length < needle.length ∧ breakOn needle (cs ++ (needle ++ rest)) = some (before, more ++ rest) := by
  have positive := List.length_pos_iff.mpr nonempty
  induction cs with
  | nil => exact ⟨[], [], [], rfl, (List.append_nil _).symm, positive, breakOn_append_self nonempty rest⟩
  | cons c cs ih =>
    rw [occursIn_cons, Bool.or_eq_false_iff] at absent
    obtain ⟨elsewhere, later⟩ := absent
    by_cases starts : needle.isPrefixOf (c :: (cs ++ (needle ++ rest))) = true
    · have short : (c :: cs).length < needle.length := by
        rcases Nat.lt_or_ge (c :: cs).length needle.length with short | long
        · exact short
        · have inside : needle <+: c :: cs :=
            List.prefix_of_prefix_length_le (List.isPrefixOf_iff_prefix.mp starts)
              (List.prefix_append (c :: cs) (needle ++ rest)) long
          rw [List.isPrefixOf_iff_prefix.mpr inside] at elsewhere
          cases elsewhere
      have inside : needle <+: c :: cs ++ needle := by
        refine List.prefix_of_prefix_length_le (List.isPrefixOf_iff_prefix.mp starts) ?_ ?_
        · exact ⟨rest, by simp⟩
        · rw [List.length_append]
          omega
      obtain ⟨more, same⟩ := inside
      refine ⟨[], c :: cs, more, rfl, same.symm, short, ?_⟩
      rw [List.cons_append, breakOn, if_pos starts]
      have whole : c :: (cs ++ (needle ++ rest)) = needle ++ (more ++ rest) := by
        rw [← List.append_assoc needle, same]
        simp
      rw [whole, List.drop_left]
    · obtain ⟨before, front, more, rfl, same, short, found⟩ := ih later
      refine ⟨c :: before, front, more, rfl, same, short, ?_⟩
      rw [List.cons_append, breakOn, if_neg starts, found]
      rfl

/-! ### Steps of a scan -/

theorem templateBlock?_eq_none {c : Char} {cs : List Char} (other : c ≠ '{') :
    templateBlock? (c :: cs) = none := by
  unfold templateBlock?
  split
  · next same => exact absurd (List.cons.inj same).1 other
  · rfl

variable {stop : List Char → Bool}

theorem scan_stop {c : Char} {cs : List Char} (other : c ≠ '{') (stops : stop (c :: cs) = true) :
    scan stop (c :: cs) = ([], c :: cs) := by
  rw [scan]
  split
  · next found => rw [templateBlock?_eq_none other] at found; cases found
  · rw [if_pos stops]

theorem scan_cons {c : Char} {cs : List Char} (other : c ≠ '{') (passes : stop (c :: cs) = false) :
    scan stop (c :: cs) = (c :: (scan stop cs).1, (scan stop cs).2) := by
  rw [scan]
  split
  · next found => rw [templateBlock?_eq_none other] at found; cases found
  · rw [if_neg (by rw [passes]; decide)]

theorem scan_of_templateBlock? {c : Char} {cs block rest : List Char}
    (found : templateBlock? (c :: cs) = some (block, rest)) :
    scan stop (c :: cs) = (block ++ (scan stop rest).1, (scan stop rest).2) := by
  rw [scan]
  split
  · next other => rw [found] at other; cases other; rfl
  · next other => rw [found] at other; cases other

theorem templateBlock?_of_breakOn {c : Char} {closer cs inner rest : List Char}
    (closes : blockCloser? c = some closer) (found : breakOn closer cs = some (inner, rest)) :
    templateBlock? ('{' :: c :: cs) = some ('{' :: c :: inner ++ closer, rest) := by
  simp only [templateBlock?, closes, found, Option.bind_eq_bind, Option.bind_some, Option.pure_def]

/-- The block as it is written. -/
def blockText (c : Char) (body closer : List Char) : List Char :=
  '{' :: c :: body ++ closer

/-- A scan passes over a block as a whole. If the body ends with a brace, the block is read up to the brace
before its end, and its last brace as any other character. -/
theorem scan_block {c : Char} {closer body : List Char} (closes : blockCloser? c = some closer)
    (closed : occursIn closer body = false) (brace : ∀ cs, stop ('}' :: cs) = false) (rest : List Char) :
    scan stop (blockText c body closer ++ rest) =
      (blockText c body closer ++ (scan stop rest).1, (scan stop rest).2) := by
  have shape : ∃ d, closer = [d, '}'] := by
    unfold blockCloser? at closes
    split at closes <;> cases closes <;> exact ⟨_, rfl⟩
  obtain ⟨d, rfl⟩ := shape
  obtain ⟨before, front, more, rfl, same, short, found⟩ := breakOn_append (by simp) closed rest
  have whole : blockText c (before ++ front) [d, '}'] ++ rest =
      '{' :: c :: (before ++ front ++ ([d, '}'] ++ rest)) := by
    simp [blockText]
  rw [whole, scan_of_templateBlock? (templateBlock?_of_breakOn closes found)]
  match front, same, short with
  | [], same, _ =>
    obtain rfl : more = [] := by simpa using same
    simp [blockText]
  | [e], same, _ =>
    -- The body ends with the first character of the closer, which is then the second one as well.
    obtain ⟨rfl, rfl, rfl⟩ : e = d ∧ d = '}' ∧ more = ['}'] := by
      simp only [List.cons_append, List.nil_append, List.cons.injEq] at same
      exact ⟨same.1, same.2.1, same.2.2.symm⟩
    have last : scan stop (['}'] ++ rest) = ('}' :: (scan stop rest).1, (scan stop rest).2) :=
      scan_cons (by decide) (brace rest)
    rw [last]
    simp [blockText]

/-! ### Templated texts -/

/-- Plain characters and closed blocks. The body of a block holds anything but what closes it. -/
inductive Templated (plain : Char → Bool) : List Char → Prop
  | nil : Templated plain []
  | char {c : Char} {cs : List Char} (isPlain : plain c = true) (noBrace : c ≠ '{')
      (rest : Templated plain cs) : Templated plain (c :: cs)
  | block {c : Char} {body closer cs : List Char} (closes : blockCloser? c = some closer)
      (closed : occursIn closer body = false) (rest : Templated plain cs) :
      Templated plain (blockText c body closer ++ cs)

theorem templated_of_forall {plain : Char → Bool} {cs : List Char}
    (isPlain : ∀ c ∈ cs, plain c = true ∧ c ≠ '{') : Templated plain cs := by
  induction cs with
  | nil => exact .nil
  | cons c cs ih =>
    obtain ⟨first, noBrace⟩ := isPlain c List.mem_cons_self
    exact .char first noBrace (ih fun d member => isPlain d (List.mem_cons_of_mem c member))

theorem scan_templated {plain : Char → Bool} {cs rest : List Char} (templated : Templated plain cs)
    (passes : ∀ c cs, plain c = true ∨ c = '}' → stop (c :: cs) = false)
    (stops : rest = [] ∨ ∃ c after, rest = c :: after ∧ c ≠ '{' ∧ stop rest = true) :
    scan stop (cs ++ rest) = (cs, rest) := by
  induction templated with
  | nil =>
    rcases stops with rfl | ⟨c, after, rfl, noBrace, stops⟩
    · rw [List.nil_append, scan]
    · exact scan_stop noBrace stops
  | char isPlain noBrace _ ih =>
    rw [List.cons_append, scan_cons noBrace (passes _ _ (Or.inl isPlain)), ih]
  | block closes closed _ ih =>
    rw [List.append_assoc, scan_block closes closed (fun cs => passes '}' cs (Or.inr rfl)), ih]

end MarkupFormat.Text
