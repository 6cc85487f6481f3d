import MarkupFormat.Proofs.Text.Quotation

/-!
# Phrases

A dump is made up of phrases: quoted texts, words, calls, lists and options. `Phrase.spelled_append_inj` says that a
phrase is known by its spelling, whatever follows it, as long as its names have none of the characters that stand
between words.
-/

namespace MarkupFormat.Layout

open Text (quoted append_inj_of_run)

inductive Phrase where
  | text (content : String)
  | word (name : String)
  /-- A name with a number that tells it from others. -/
  | reference (name : String) (number : Nat)
  | call (name : String) (arguments : List Phrase)
  | list (items : List Phrase)
  | options (fields : List Phrase)
  | field (name : String) (value : Phrase)

namespace Phrase

mutual

def spelled : Phrase → List Char
  | text content => (quoted content).toList
  | word name => name.toList
  | reference name number => name.toList ++ '#' :: (toString number).toList
  | call name arguments => name.toList ++ '(' :: (spelledAll arguments ++ [')'])
  | list items => '[' :: (spelledAll items ++ [']'])
  | options fields => '\x7b' :: ' ' :: (spelledAll fields ++ [' ', '\x7d'])
  | field name value => name.toList ++ ':' :: ' ' :: value.spelled

/-- Phrases with commas between them. -/
def spelledAll : List Phrase → List Char
  | [] => []
  | phrase :: phrases => phrase.spelled ++ spelledMore phrases

def spelledMore : List Phrase → List Char
  | [] => []
  | phrase :: phrases => ',' :: ' ' :: (phrase.spelled ++ spelledMore phrases)

end

/-- The characters that stand between words. -/
def isMark (c : Char) : Bool :=
  ['"', '#', '(', ')', '[', ']', '\x7b', '\x7d', ':', ',', ' '].contains c

/-- The characters that can follow a phrase. -/
def endsPhrase (c : Char) : Bool :=
  [',', ')', ']', ' '].contains c

/-- A name has no character that stands between words. -/
def Plain (name : String) : Prop :=
  ∀ c ∈ name.toList, isMark c = false

mutual

/-- The names in a phrase are plain, and no word is empty. -/
def Sound : Phrase → Prop
  | text _ => True
  | word name => name.toList ≠ [] ∧ Plain name
  | reference name _ => Plain name
  | call name arguments => Plain name ∧ AllSound arguments
  | list items | options items => AllSound items
  | field name value => Plain name ∧ value.Sound

def AllSound : List Phrase → Prop
  | [] => True
  | phrase :: phrases => phrase.Sound ∧ AllSound phrases

end

/-! ### How a phrase begins -/

/-- The word with which a phrase begins. -/
def start : Phrase → List Char
  | text _ | list _ | options _ => []
  | word name | reference name _ | call name _ | field name _ => name.toList

/-- The character that tells what the phrase is, after the word with which it begins. -/
def sign : Phrase → Option Char
  | text _ => some '"'
  | word _ => none
  | reference .. => some '#'
  | call .. => some '('
  | list _ => some '['
  | options _ => some '\x7b'
  | field .. => some ':'

def inside : Phrase → List Char
  | text content => content.toList.flatMap Text.escapeChar ++ ['"']
  | word _ => []
  | reference _ number => (toString number).toList
  | call _ arguments => spelledAll arguments ++ [')']
  | list items => spelledAll items ++ [']']
  | options fields => ' ' :: (spelledAll fields ++ [' ', '\x7d'])
  | field _ value => ' ' :: value.spelled

variable {phrase other : Phrase} {rest more : List Char}

theorem spelled_eq (phrase : Phrase) : phrase.spelled = phrase.start ++ (phrase.sign.toList ++ phrase.inside) := by
  cases phrase <;> simp [spelled, start, sign, inside, quoted]

theorem start_plain (sound : phrase.Sound) : ∀ c ∈ phrase.start, isMark c = false := by
  cases phrase with
  | text | list | options => nofun
  | word => exact sound.2
  | reference => exact sound
  | call => exact sound.1
  | field => exact sound.1

theorem of_sign {c : Char} (isSign : phrase.sign = some c) : isMark c = true ∧ endsPhrase c = false := by
  cases phrase <;> simp only [sign, Option.some.injEq, reduceCtorEq] at isSign <;> subst isSign <;> decide

theorem inside_of_sign (noSign : phrase.sign = none) : phrase.inside = [] := by
  cases phrase <;> simp [sign, inside] at noSign ⊢

/-- What can follow a phrase. -/
def Ends (rest : List Char) : Prop :=
  ∀ c ∈ rest.head?, endsPhrase c = true

theorem isMark_of_endsPhrase {c : Char} (ends : endsPhrase c = true) : isMark c = true := by
  have all : ∀ c ∈ [',', ')', ']', ' '], isMark c = true := by simp [isMark]
  exact all c (List.contains_iff_mem.mp ends)

theorem parts_of_spelled (sound : phrase.Sound) (otherSound : other.Sound) (ends : Ends rest) (otherEnds : Ends more)
    (same : phrase.spelled ++ rest = other.spelled ++ more) :
    phrase.start = other.start ∧ phrase.sign = other.sign ∧ phrase.inside ++ rest = other.inside ++ more := by
  have marked {phrase : Phrase} {rest : List Char} (ends : Ends rest) :
      ∀ c ∈ (phrase.sign.toList ++ phrase.inside ++ rest).head?, (!isMark c) = false := by
    intro c isHead
    rw [Bool.not_eq_false']
    cases isSign : phrase.sign with
    | none =>
      rw [isSign, inside_of_sign isSign] at isHead
      exact isMark_of_endsPhrase (ends c isHead)
    | some d =>
      rw [isSign] at isHead
      cases isHead
      exact (of_sign isSign).1
  have plain {phrase : Phrase} (sound : phrase.Sound) : ∀ c ∈ phrase.start, (!isMark c) = true := by
    intro c member
    rw [start_plain sound c member]
    rfl
  rw [spelled_eq phrase, spelled_eq other, List.append_assoc phrase.start, List.append_assoc other.start] at same
  -- The word at the beginning ends at a mark, be it the sign of the phrase or what follows the phrase.
  obtain ⟨starts, behind⟩ :=
    append_inj_of_run (plain sound) (plain otherSound) (marked ends) (marked otherEnds) same
  refine ⟨starts, ?_⟩
  cases isSign : phrase.sign with
  | none =>
    cases isOther : other.sign with
    | none =>
      rw [isSign, isOther] at behind
      exact ⟨rfl, behind⟩
    | some c =>
      rw [isSign, isOther, inside_of_sign isSign] at behind
      have ended : endsPhrase c = true := ends c (by rw [show rest = _ from behind]; rfl)
      rw [(of_sign isOther).2] at ended
      cases ended
  | some c =>
    cases isOther : other.sign with
    | none =>
      rw [isSign, isOther, inside_of_sign isOther] at behind
      have ended : endsPhrase c = true := otherEnds c (by rw [← show _ = more from behind]; rfl)
      rw [(of_sign isSign).2] at ended
      cases ended
    | some d =>
      rw [isSign, isOther] at behind
      obtain ⟨same, behind⟩ := List.cons.inj behind
      exact ⟨congrArg some same, behind⟩

theorem exists_spelled_cons (sound : phrase.Sound) :
    ∃ c cs, phrase.spelled = c :: cs ∧ endsPhrase c = false := by
  rw [spelled_eq]
  cases starts : phrase.start with
  | cons c cs =>
    refine ⟨c, _, rfl, Bool.eq_false_iff.mpr fun ends => ?_⟩
    have plain : isMark c = false := start_plain sound c (by rw [starts]; exact List.mem_cons_self)
    rw [isMark_of_endsPhrase ends] at plain
    cases plain
  | nil =>
    cases isSign : phrase.sign with
    | some c => exact ⟨c, _, rfl, (of_sign isSign).2⟩
    | none =>
      cases phrase with
      | word name => exact absurd starts sound.1
      | text | reference | call | list | options | field => cases isSign

/-! ### A phrase is known by its spelling -/

/-- What closes a list of phrases. -/
def Closes (rest : List Char) : Prop :=
  ∃ c cs, rest = c :: cs ∧ endsPhrase c = true ∧ c ≠ ','

theorem Closes.ne_spelled (closes : Closes rest) (sound : phrase.Sound) : rest ≠ phrase.spelled ++ more := by
  obtain ⟨c, cs, rfl, ends, -⟩ := closes
  obtain ⟨d, ds, spelled, starts⟩ := exists_spelled_cons sound
  rw [spelled]
  intro same
  rw [(List.cons.inj same).1, starts] at ends
  cases ends

theorem Closes.ne_comma (closes : Closes rest) : rest ≠ ',' :: more := by
  obtain ⟨c, cs, rfl, -, other⟩ := closes
  exact fun same => other (List.cons.inj same).1

theorem ends_more {phrases : List Phrase} (closes : Closes rest) : Ends (spelledMore phrases ++ rest) := by
  intro c isHead
  cases phrases with
  | nil =>
    obtain ⟨d, ds, rfl, ends, -⟩ := closes
    cases isHead
    exact ends
  | cons =>
    cases isHead
    rfl

theorem isDigit_of_isMark {c : Char} (mark : isMark c = true) : c.isDigit = false := by
  have all : ∀ c ∈ ['"', '#', '(', ')', '[', ']', '\x7b', '\x7d', ':', ',', ' '], c.isDigit = false := by simp
  exact all c (List.contains_iff_mem.mp mark)

theorem digits_append_inj {m n : Nat} (ends : Ends rest) (otherEnds : Ends more)
    (same : (toString m).toList ++ rest = (toString n).toList ++ more) : m = n ∧ rest = more := by
  have noDigit {rest : List Char} (ends : Ends rest) : ∀ c ∈ rest.head?, c.isDigit = false :=
    fun c isHead => isDigit_of_isMark (isMark_of_endsPhrase (ends c isHead))
  exact Text.toString_append_inj (noDigit ends) (noDigit otherEnds) same

mutual

/-- Phrases are the same if they are spelled alike, and so is what follows them. -/
theorem spelled_append_inj : ∀ (phrase other : Phrase) (rest more : List Char), phrase.Sound → other.Sound →
    Ends rest → Ends more → phrase.spelled ++ rest = other.spelled ++ more → phrase = other ∧ rest = more
  | .text content, other, rest, more, sound, otherSound, ends, otherEnds, same => by
    obtain ⟨_, signs, _⟩ := parts_of_spelled sound otherSound ends otherEnds same
    cases other with
    | text =>
      obtain ⟨chars, behind⟩ := Text.quoted_append_inj same
      exact ⟨congrArg text chars, behind⟩
    | word | reference | call | list | options | field => exact absurd signs (by simp [sign])
  | .word name, other, rest, more, sound, otherSound, ends, otherEnds, same => by
    obtain ⟨starts, signs, insides⟩ := parts_of_spelled sound otherSound ends otherEnds same
    cases other with
    | word => exact ⟨congrArg word (String.toList_inj.mp starts), insides⟩
    | text | reference | call | list | options | field => exact absurd signs (by simp [sign])
  | .reference name number, other, rest, more, sound, otherSound, ends, otherEnds, same => by
    obtain ⟨starts, signs, insides⟩ := parts_of_spelled sound otherSound ends otherEnds same
    cases other with
    | reference =>
      obtain ⟨numbers, behind⟩ := digits_append_inj ends otherEnds insides
      exact ⟨congrArg₂ reference (String.toList_inj.mp starts) numbers, behind⟩
    | text | word | call | list | options | field => exact absurd signs (by simp [sign])
  | .call name arguments, other, rest, more, sound, otherSound, ends, otherEnds, same => by
    obtain ⟨starts, signs, insides⟩ := parts_of_spelled sound otherSound ends otherEnds same
    cases other with
    | call otherName others =>
      have closes {rest : List Char} : Closes (')' :: rest) := ⟨_, _, rfl, rfl, by decide⟩
      simp only [inside, List.append_assoc] at insides
      obtain ⟨rfl, behind⟩ := spelledAll_append_inj arguments others _ _ sound.2 otherSound.2 closes closes insides
      exact ⟨congrArg (call · arguments) (String.toList_inj.mp starts), (List.cons.inj behind).2⟩
    | text | word | reference | list | options | field => exact absurd signs (by simp [sign])
  | .list items, other, rest, more, sound, otherSound, ends, otherEnds, same => by
    obtain ⟨_, signs, insides⟩ := parts_of_spelled sound otherSound ends otherEnds same
    cases other with
    | list others =>
      have closes {rest : List Char} : Closes (']' :: rest) := ⟨_, _, rfl, rfl, by decide⟩
      simp only [inside, List.append_assoc] at insides
      obtain ⟨rfl, behind⟩ := spelledAll_append_inj items others _ _ sound otherSound closes closes insides
      exact ⟨rfl, (List.cons.inj behind).2⟩
    | text | word | reference | call | options | field => exact absurd signs (by simp [sign])
  | .options fields, other, rest, more, sound, otherSound, ends, otherEnds, same => by
    obtain ⟨_, signs, insides⟩ := parts_of_spelled sound otherSound ends otherEnds same
    cases other with
    | options others =>
      have closes {rest : List Char} : Closes (' ' :: '\x7d' :: rest) := ⟨_, _, rfl, rfl, by decide⟩
      simp only [inside, List.cons_append, List.append_assoc] at insides
      obtain ⟨rfl, behind⟩ := spelledAll_append_inj fields others _ _ sound otherSound closes closes
        (List.cons.inj insides).2
      exact ⟨rfl, (List.cons.inj (List.cons.inj behind).2).2⟩
    | text | word | reference | call | list | field => exact absurd signs (by simp [sign])
  | .field name value, other, rest, more, sound, otherSound, ends, otherEnds, same => by
    obtain ⟨starts, signs, insides⟩ := parts_of_spelled sound otherSound ends otherEnds same
    cases other with
    | field otherName otherValue =>
      obtain ⟨values, behind⟩ := spelled_append_inj value otherValue rest more sound.2 otherSound.2 ends otherEnds
        (List.cons.inj insides).2
      exact ⟨congrArg₂ field (String.toList_inj.mp starts) values, behind⟩
    | text | word | reference | call | list | options => exact absurd signs (by simp [sign])

theorem spelledAll_append_inj : ∀ (phrases others : List Phrase) (rest more : List Char), AllSound phrases →
    AllSound others → Closes rest → Closes more → spelledAll phrases ++ rest = spelledAll others ++ more →
    phrases = others ∧ rest = more
  | [], [], rest, more, _, _, _, _, same => ⟨rfl, same⟩
  | [], other :: others, rest, more, _, otherSound, closes, _, same => by
    rw [spelledAll, spelledAll, List.append_assoc] at same
    exact absurd same (closes.ne_spelled otherSound.1)
  | phrase :: phrases, [], rest, more, sound, _, _, otherCloses, same => by
    rw [spelledAll, spelledAll, List.append_assoc] at same
    exact absurd same.symm (otherCloses.ne_spelled sound.1)
  | phrase :: phrases, other :: others, rest, more, sound, otherSound, closes, otherCloses, same => by
    rw [spelledAll, spelledAll, List.append_assoc, List.append_assoc] at same
    obtain ⟨rfl, behind⟩ := spelled_append_inj phrase other _ _ sound.1 otherSound.1 (ends_more closes)
      (ends_more otherCloses) same
    obtain ⟨rfl, rest⟩ := spelledMore_append_inj phrases others rest more sound.2 otherSound.2 closes otherCloses behind
    exact ⟨rfl, rest⟩

theorem spelledMore_append_inj : ∀ (phrases others : List Phrase) (rest more : List Char), AllSound phrases →
    AllSound others → Closes rest → Closes more → spelledMore phrases ++ rest = spelledMore others ++ more →
    phrases = others ∧ rest = more
  | [], [], rest, more, _, _, _, _, same => ⟨rfl, same⟩
  | [], _ :: _, rest, more, _, _, closes, _, same => absurd same closes.ne_comma
  | _ :: _, [], rest, more, _, _, _, otherCloses, same => absurd same.symm otherCloses.ne_comma
  | phrase :: phrases, other :: others, rest, more, sound, otherSound, closes, otherCloses, same => by
    simp only [spelledMore, List.cons_append, List.append_assoc, List.cons.injEq, true_and] at same
    obtain ⟨rfl, behind⟩ := spelled_append_inj phrase other _ _ sound.1 otherSound.1 (ends_more closes)
      (ends_more otherCloses) same
    obtain ⟨rfl, rest⟩ := spelledMore_append_inj phrases others rest more sound.2 otherSound.2 closes otherCloses behind
    exact ⟨rfl, rest⟩

end

end Phrase

end MarkupFormat.Layout
