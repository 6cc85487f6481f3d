import Mathlib.Data.List.Basic
import MarkupFormat.Text.Quoted
import Std.Data.String.ToNat

/-!
# Quoted text is read in one way

What stands between quotes is spelled so that no other text is spelled alike, and the quote that ends it can be told
from those in it. `quoted_append_inj` says so of a quoted text that is followed by anything.
-/

namespace MarkupFormat.Text

/-! ### Where a spelling ends -/

/-- Two runs of characters of one kind are the same if they are followed by others and the whole is the same. -/
theorem append_inj_of_run {p : Char → Bool} {cs ds rest more : List Char} (left : ∀ c ∈ cs, p c = true)
    (right : ∀ c ∈ ds, p c = true) (endsLeft : ∀ c ∈ rest.head?, p c = false)
    (endsRight : ∀ c ∈ more.head?, p c = false) (same : cs ++ rest = ds ++ more) : cs = ds ∧ rest = more := by
  have stops {rest : List Char} (ends : ∀ c ∈ rest.head?, p c = false) : rest.takeWhile p = [] := by
    cases rest with
    | nil => rfl
    | cons c rest => rw [List.takeWhile_cons, ends c rfl]; rfl
  have taken := congrArg (List.takeWhile p) same
  rw [List.takeWhile_append_of_pos left, List.takeWhile_append_of_pos right, stops endsLeft, stops endsRight,
    List.append_nil, List.append_nil] at taken
  exact ⟨taken, (List.append_inj same (congrArg List.length taken)).2⟩

/-! ### Decimal numbers -/

theorem isDigit_of_mem_toString {n : Nat} {c : Char} (member : c ∈ (toString n).toList) : c.isDigit = true := by
  rw [Nat.toString_eq_repr, Nat.toList_repr] at member
  exact Nat.isDigit_of_mem_toDigits (by decide) (by decide) member

theorem toString_append_inj {m n : Nat} {rest more : List Char} (ends : ∀ c ∈ rest.head?, c.isDigit = false)
    (otherEnds : ∀ c ∈ more.head?, c.isDigit = false)
    (same : (toString m).toList ++ rest = (toString n).toList ++ more) : m = n ∧ rest = more := by
  have digit (n : Nat) : ∀ c ∈ (toString n).toList, c.isDigit = true := fun _ => isDigit_of_mem_toString
  obtain ⟨digits, behind⟩ := append_inj_of_run (digit m) (digit n) ends otherEnds same
  exact ⟨Nat.repr_inj.mp (String.toList_inj.mp digits), behind⟩

/-! ### Hexadecimal digits -/

theorem hexDigits_eq (n : Nat) :
    hexDigits n = if n < 16 then [n.digitChar] else hexDigits (n / 16) ++ [(n % 16).digitChar] :=
  Nat.toDigits_eq_if (by decide)

theorem digitChar_inj {m n : Nat} (small : m < 16) (small' : n < 16) (same : m.digitChar = n.digitChar) : m = n := by
  have all : ∀ m < 16, ∀ n < 16, m.digitChar = n.digitChar → m = n := by decide
  exact all m small n small' same

theorem hexDigits_ne_nil (n : Nat) : hexDigits n ≠ [] := by
  rw [hexDigits_eq]
  split
  · exact List.cons_ne_nil _ _
  · exact List.append_ne_nil_of_right_ne_nil _ (List.cons_ne_nil _ _)

theorem hexDigits_inj {m n : Nat} (same : hexDigits m = hexDigits n) : m = n := by
  induction m using Nat.strongRecOn generalizing n with
  | ind m ih =>
    rw [hexDigits_eq m, hexDigits_eq n] at same
    split at same
    · next small =>
      split at same
      · next small' => exact digitChar_inj small small' (List.singleton_inj.mp same)
      · have front := (List.append_inj' (show [] ++ [m.digitChar] = _ from same) rfl).1
        exact absurd front.symm (hexDigits_ne_nil _)
    · next large =>
      split at same
      · have front := (List.append_inj' (show _ = [] ++ [n.digitChar] from same) rfl).1
        exact absurd front (hexDigits_ne_nil _)
      · obtain ⟨front, last⟩ := List.append_inj' same rfl
        have quotient : m / 16 = n / 16 := ih (m / 16) (by omega) front
        have remainder : m % 16 = n % 16 :=
          digitChar_inj (Nat.mod_lt _ (by decide)) (Nat.mod_lt _ (by decide)) (List.singleton_inj.mp last)
        omega

theorem ne_brace_of_mem_hexDigits {n : Nat} {c : Char} (member : c ∈ hexDigits n) : c ≠ '\x7d' := by
  have all : ∀ n < 16, n.digitChar ≠ '\x7d' := by decide
  induction n using Nat.strongRecOn with
  | ind n ih =>
    rw [hexDigits_eq] at member
    split at member
    · next small =>
      rw [List.mem_singleton.mp member]
      exact all n small
    · next large =>
      rcases List.mem_append.mp member with member | member
      · exact ih (n / 16) (by omega) member
      · rw [List.mem_singleton.mp member]
        exact all _ (Nat.mod_lt _ (by decide))

/-! ### Escapes -/

/-- The characters that are escaped by one character, with that character. -/
def shortEscapes : List (Char × Char) :=
  [('\x00', '0'), ('\t', 't'), ('\r', 'r'), ('\n', 'n'), ('\\', '\\'), ('"', '"')]

/-- A character stands for itself, or is escaped by a character or by its number. -/
inductive Escaped (c : Char) : List Char → Prop where
  | plain : c ≠ '\\' → c ≠ '"' → Escaped c [c]
  | short {d : Char} : (c, d) ∈ shortEscapes → Escaped c ['\\', d]
  | number : Escaped c ('\\' :: 'u' :: '\x7b' :: (hexDigits c.toNat ++ ['\x7d']))

theorem escaped_escapeChar (c : Char) : Escaped c (escapeChar c) := by
  unfold escapeChar
  split
  · exact .short (by decide)
  · exact .short (by decide)
  · exact .short (by decide)
  · exact .short (by decide)
  · exact .short (by decide)
  · exact .short (by decide)
  · next noSlash noQuote =>
    split
    · exact .plain noSlash noQuote
    · split
      · exact .number
      · exact .plain noSlash noQuote

theorem Escaped.head_ne_quote {c : Char} {cs : List Char} (escaped : Escaped c cs) :
    ∃ d ds, cs = d :: ds ∧ d ≠ '"' := by
  cases escaped with
  | plain _ noQuote => exact ⟨c, [], rfl, noQuote⟩
  | short => exact ⟨'\\', _, rfl, by decide⟩
  | number => exact ⟨'\\', _, rfl, by decide⟩

theorem Escaped.append_inj {c d : Char} {cs ds rest more : List Char} (escaped : Escaped c cs) (other : Escaped d ds)
    (same : cs ++ rest = ds ++ more) : c = d ∧ rest = more := by
  have noNumber : ∀ c d, (c, d) ∈ shortEscapes → d ≠ 'u' := by
    intro c d member
    have all : ∀ pair ∈ shortEscapes, pair.2 ≠ 'u' := by decide
    exact all (c, d) member
  cases escaped with
  | plain noSlash =>
    cases other with
    | plain => exact List.cons.inj same
    | short => exact absurd (List.cons.inj same).1 noSlash
    | number => exact absurd (List.cons.inj same).1 noSlash
  | short member =>
    cases other with
    | plain noSlash => exact absurd (List.cons.inj same).1.symm noSlash
    | short member' =>
      obtain ⟨code, rest⟩ := List.cons.inj (List.cons.inj same).2
      have all : ∀ pair ∈ shortEscapes, ∀ other ∈ shortEscapes, pair.2 = other.2 → pair.1 = other.1 := by decide
      exact ⟨all _ member _ member' code, rest⟩
    | number => exact absurd (List.cons.inj (List.cons.inj same).2).1 (noNumber _ _ member)
  | number =>
    cases other with
    | plain noSlash => exact absurd (List.cons.inj same).1.symm noSlash
    | short member => exact absurd (List.cons.inj (List.cons.inj same).2).1.symm (noNumber _ _ member)
    | number =>
      simp only [List.cons_append, List.cons.injEq, true_and, List.append_assoc] at same
      have digit {n : Nat} : ∀ c ∈ hexDigits n, (c != '\x7d') = true :=
        fun c member => bne_iff_ne.mpr (ne_brace_of_mem_hexDigits member)
      have brace {rest : List Char} : ∀ c ∈ ('\x7d' :: rest).head?, (c != '\x7d') = false := by
        intro c isHead
        cases isHead
        decide
      obtain ⟨digits, behind⟩ := append_inj_of_run digit digit brace brace same
      exact ⟨Char.toNat_inj.mp (hexDigits_inj digits), (List.cons.inj behind).2⟩

theorem escaped_append_inj {cs ds rest more : List Char}
    (same : cs.flatMap escapeChar ++ '"' :: rest = ds.flatMap escapeChar ++ '"' :: more) : cs = ds ∧ rest = more := by
  induction cs generalizing ds with
  | nil =>
    cases ds with
    | nil => exact ⟨rfl, (List.cons.inj same).2⟩
    | cons d ds =>
      obtain ⟨head, tail, spelled, noQuote⟩ := (escaped_escapeChar d).head_ne_quote
      rw [List.flatMap_cons, spelled] at same
      exact absurd (List.cons.inj same).1.symm noQuote
  | cons c cs ih =>
    cases ds with
    | nil =>
      obtain ⟨head, tail, spelled, noQuote⟩ := (escaped_escapeChar c).head_ne_quote
      rw [List.flatMap_cons, spelled] at same
      exact absurd (List.cons.inj same).1 noQuote
    | cons d ds =>
      rw [List.flatMap_cons, List.flatMap_cons, List.append_assoc, List.append_assoc] at same
      obtain ⟨rfl, behind⟩ := (escaped_escapeChar c).append_inj (escaped_escapeChar d) same
      obtain ⟨rfl, rest⟩ := ih behind
      exact ⟨rfl, rest⟩

/-- A quoted text is known, and so is what follows it. -/
theorem quoted_append_inj {s t : String} {rest more : List Char}
    (same : (quoted s).toList ++ rest = (quoted t).toList ++ more) : s = t ∧ rest = more := by
  unfold quoted at same
  simp only [String.toList_ofList, List.cons_append, List.append_assoc, List.cons.injEq, true_and,
    List.nil_append] at same
  obtain ⟨chars, behind⟩ := escaped_append_inj same
  exact ⟨String.toList_inj.mp chars, behind⟩

end MarkupFormat.Text
