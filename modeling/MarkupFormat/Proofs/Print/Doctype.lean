import MarkupFormat.Print.Text
import MarkupFormat.Proofs.Markup.Declaration
import MarkupFormat.Proofs.Text.Characters
import MarkupFormat.Proofs.Text.LineEndings

/-!
# Printed declarations

The normal form of what a declaration says, and of its line endings.

White space in a declaration is reduced to single spaces. Doing so twice is the same as once, and loses
none of the other characters (`length_solid_normalizeDoctype`).

A declaration is read with the line endings of its source, and is printed from the source with line feeds. Neither its
keyword nor its normal value depends on which they are (`normalizeDoctype_doctypeValue_normalizeChars`).
-/

namespace MarkupFormat.Text

variable {cs : List Char}

theorem mem_normalizeChars_iff {c : Char} (noReturn : c ≠ '\r') (noFeed : c ≠ '\n') :
    c ∈ normalizeChars cs ↔ c ∈ cs := by
  fun_induction normalizeChars cs with
  | case1 => exact Iff.rfl
  | case2 cs ih => simp [noReturn, noFeed, ih]
  | case3 cs _ ih => simp [noReturn, noFeed, ih]
  | case4 d cs _ _ ih => simp [ih]

theorem normalizeChars_append_cons {c : Char} (noFeed : c ≠ '\n') (cs ds : List Char) :
    normalizeChars (cs ++ c :: ds) = normalizeChars cs ++ normalizeChars (c :: ds) := by
  fun_induction normalizeChars cs with
  | case1 => rfl
  | case2 cs ih =>
    rw [List.cons_append, List.cons_append, normalizeChars, ih, List.cons_append]
  | case3 cs alone ih =>
    rw [List.cons_append, normalizeChars_return, ih, List.cons_append]
    cases cs with
    | nil => simpa using noFeed
    | cons d cs =>
      intro feed
      exact alone cs (congrArg (· :: cs) (Option.some.inj feed))
  | case4 d cs _ other ih => rw [List.cons_append, normalizeChars_cons other, ih, List.cons_append]

theorem normalizeChars_eq_nil_iff : normalizeChars cs = [] ↔ cs = [] := by
  fun_cases normalizeChars cs with
  | case1 => exact Iff.rfl
  | case2 | case3 | case4 => simp

/-- A front without line feeds is the front of the text as it is written. -/
theorem exists_of_normalizeChars_eq_append {word rest : List Char} (noFeed : '\n' ∉ word)
    (same : normalizeChars cs = word ++ rest) : ∃ after, cs = word ++ after ∧ rest = normalizeChars after := by
  have noReturn : '\r' ∉ word := by
    intro member
    have inside : '\r' ∈ normalizeChars cs := same ▸ List.mem_append_left rest member
    exact return_not_mem_normalizeChars cs inside
  have found : dropPrefix? word (normalizeChars cs) = some rest := by
    rw [same]
    simp [dropPrefix?]
  rw [dropPrefix?_normalizeChars noReturn noFeed, Option.map_eq_some_iff] at found
  obtain ⟨after, found, rfl⟩ := found
  refine ⟨after, ?_, rfl⟩
  unfold dropPrefix? at found
  split at found
  · next opens =>
    cases found
    exact isPrefixOf_append_drop opens
  · cases found

/-- A text that is free of line feeds once it is normal is normal. -/
theorem eq_of_normalizeChars_eq {ds : List Char} (noFeed : '\n' ∉ ds) (same : normalizeChars cs = ds) : cs = ds := by
  obtain ⟨after, rfl, none⟩ := exists_of_normalizeChars_eq_append noFeed (same.trans (List.append_nil ds).symm)
  rw [normalizeChars_eq_nil_iff.mp none.symm, List.append_nil]

theorem isPrefixOf_normalizeChars {needle : List Char} (noReturn : '\r' ∉ needle) (noFeed : '\n' ∉ needle) :
    needle.isPrefixOf (normalizeChars cs) = needle.isPrefixOf cs := by
  have same := congrArg Option.isSome (dropPrefix?_normalizeChars noReturn noFeed cs)
  rw [Option.isSome_map] at same
  unfold dropPrefix? at same
  rw [Bool.eq_iff_iff]
  simpa [apply_ite Option.isSome] using same

end MarkupFormat.Text

namespace MarkupFormat.Print

open Markup (declarationText doctypeValue)
open Text (byteLength isWhiteSpace normalizeChars normalizeChars_append)

/-- The characters that are no white space. -/
def solid (cs : List Char) : List Char :=
  cs.filter fun c => !isWhiteSpace c

theorem solid_append (cs ds : List Char) : solid (cs ++ ds) = solid cs ++ solid ds :=
  List.filter_append ..

theorem solid_eq_nil_iff {cs : List Char} : solid cs = [] ↔ cs.all isWhiteSpace = true := by
  simp [solid, List.filter_eq_nil_iff]

/-! ### Single spaces -/

variable {cs : List Char} {afterSpace : Bool}

theorem singleSpaces_space {c : Char} (space : isWhiteSpace c = true) :
    singleSpaces afterSpace (c :: cs) =
      if afterSpace then singleSpaces true cs else ' ' :: singleSpaces true cs := by
  rw [singleSpaces, if_pos space]

theorem singleSpaces_solid {c : Char} (noSpace : isWhiteSpace c = false) :
    singleSpaces afterSpace (c :: cs) = c :: singleSpaces false cs := by
  rw [singleSpaces, if_neg (ne_true_of_eq_false noSpace)]

/-- White space comes down to a space or to nothing. -/
theorem singleSpaces_cons (afterSpace : Bool) (c : Char) (cs : List Char) :
    (isWhiteSpace c = true ∧ afterSpace = true ∧
      singleSpaces afterSpace (c :: cs) = singleSpaces true cs) ∨
    (isWhiteSpace c = true ∧ afterSpace = false ∧
      singleSpaces afterSpace (c :: cs) = ' ' :: singleSpaces true cs) ∨
    (isWhiteSpace c = false ∧ singleSpaces afterSpace (c :: cs) = c :: singleSpaces false cs) := by
  by_cases space : isWhiteSpace c = true
  · rw [singleSpaces_space space]
    cases afterSpace with
    | true => exact Or.inl ⟨space, rfl, rfl⟩
    | false => exact Or.inr (Or.inl ⟨space, rfl, rfl⟩)
  · have noSpace : isWhiteSpace c = false := by simpa using space
    exact Or.inr (Or.inr ⟨noSpace, singleSpaces_solid noSpace⟩)

theorem singleSpaces_singleSpaces (afterSpace : Bool) (cs : List Char) :
    singleSpaces afterSpace (singleSpaces afterSpace cs) = singleSpaces afterSpace cs := by
  induction cs generalizing afterSpace with
  | nil => rfl
  | cons c cs ih =>
    rcases singleSpaces_cons afterSpace c cs with ⟨_, rfl, same⟩ | ⟨_, rfl, same⟩ | ⟨noSpace, same⟩
    · rw [same, ih]
    · rw [same, singleSpaces_space (by decide), ih]
      rfl
    · rw [same, singleSpaces_solid noSpace, ih]

theorem solid_singleSpaces (afterSpace : Bool) (cs : List Char) :
    solid (singleSpaces afterSpace cs) = solid cs := by
  induction cs generalizing afterSpace with
  | nil => rfl
  | cons c cs ih =>
    rcases singleSpaces_cons afterSpace c cs with ⟨space, rfl, same⟩ | ⟨space, rfl, same⟩ | ⟨noSpace, same⟩
    · rw [same, ih]
      simp [solid, space]
    · have blank : isWhiteSpace ' ' = true := by decide
      have rest := ih true
      unfold solid at rest ⊢
      rw [same, List.filter_cons, List.filter_cons, blank, space, rest]
      rfl
    · have rest := ih false
      unfold solid at rest ⊢
      rw [same, List.filter_cons, List.filter_cons, rest]

theorem byteLength_singleSpaces_le (afterSpace : Bool) (cs : List Char) :
    byteLength (singleSpaces afterSpace cs) ≤ byteLength cs := by
  induction cs generalizing afterSpace with
  | nil => exact Nat.le_refl _
  | cons c cs ih =>
    have inSpace := ih true
    have inText := ih false
    have positive := c.utf8Size_pos
    have single : (' ').utf8Size = 1 := by decide
    rcases singleSpaces_cons afterSpace c cs with ⟨_, rfl, same⟩ | ⟨_, rfl, same⟩ | ⟨_, same⟩
    · rw [same, Text.byteLength_cons]
      omega
    · rw [same, Text.byteLength_cons, Text.byteLength_cons]
      omega
    · rw [same, Text.byteLength_cons, Text.byteLength_cons]
      omega

theorem mem_singleSpaces {d : Char} (member : d ∈ singleSpaces afterSpace cs) : d = ' ' ∨ d ∈ cs := by
  induction cs generalizing afterSpace with
  | nil => cases member
  | cons c cs ih =>
    rcases singleSpaces_cons afterSpace c cs with ⟨_, rfl, same⟩ | ⟨_, rfl, same⟩ | ⟨_, same⟩
    · rw [same] at member
      exact (ih member).imp_right (List.mem_cons_of_mem c)
    · rw [same] at member
      rcases List.mem_cons.mp member with rfl | member
      · exact Or.inl rfl
      · exact (ih member).imp_right (List.mem_cons_of_mem c)
    · rw [same] at member
      rcases List.mem_cons.mp member with rfl | member
      · exact Or.inr List.mem_cons_self
      · exact (ih member).imp_right (List.mem_cons_of_mem c)

/-- After a space, more white space adds nothing. -/
theorem singleSpaces_append_of_all {front : List Char} (blank : front.all isWhiteSpace = true)
    (cs : List Char) : singleSpaces true (front ++ cs) = singleSpaces true cs := by
  induction front with
  | nil => rfl
  | cons c front ih =>
    rw [List.all_cons, Bool.and_eq_true] at blank
    rw [List.cons_append, singleSpaces_space blank.1]
    exact ih blank.2

/-! ### Declarations -/

/-- The code points of white space. -/
def spaceCodes : List Nat :=
  [0x09, 0x0A, 0x0B, 0x0C, 0x0D, 0x20, 0x85, 0xA0, 0x1680, 0x2000, 0x2001, 0x2002, 0x2003, 0x2004, 0x2005,
    0x2006, 0x2007, 0x2008, 0x2009, 0x200A, 0x2028, 0x2029, 0x202F, 0x205F, 0x3000]

theorem mem_spaceCodes {c : Char} (space : isWhiteSpace c = true) : c.toNat ∈ spaceCodes := by
  unfold isWhiteSpace at space
  simp only [Bool.or_eq_true, Bool.and_eq_true, decide_eq_true_eq] at space
  unfold spaceCodes
  simp only [List.mem_cons, List.not_mem_nil, or_false]
  omega

theorem alphanumeric_eq_false_of_space {c : Char} (space : isWhiteSpace c = true) :
    Text.alphanumeric.contains c = false := by
  have outside : ∀ code ∈ spaceCodes, Text.CodeSet.lookUp code false Text.alphanumeric.bounds = false := by
    decide +kernel
  exact outside c.toNat (mem_spaceCodes space)

/-- Whether a word may end before `rest`. -/
def endsWord (rest : List Char) : Bool :=
  !rest.head?.any fun c => Text.alphanumeric.contains c || c = '_'

theorem startsHtml_eq_true_iff {value : List Char} :
    startsHtml value = true ↔ ∃ word rest, value = word ++ rest ∧
      word.map Char.toLower = "html".toList ∧ endsWord rest = true := by
  unfold startsHtml endsWord
  rw [Bool.and_eq_true, decide_eq_true_eq]
  constructor
  · rintro ⟨lower, ends⟩
    exact ⟨value.take 4, value.drop 4, (List.take_append_drop ..).symm, lower, ends⟩
  · rintro ⟨word, rest, rfl, lower, ends⟩
    have four : word.length = 4 := by
      have same := congrArg List.length lower
      rwa [List.length_map] at same
    rw [List.take_left' four, List.drop_left' four]
    exact ⟨lower, ends⟩

theorem exists_of_singleSpaces_eq_append {word rest value : List Char}
    (noSpace : ∀ c ∈ word, isWhiteSpace c = false) (same : singleSpaces false value = word ++ rest) :
    ∃ after, value = word ++ after ∧ rest = singleSpaces false after := by
  induction word generalizing value with
  | nil => exact ⟨value, rfl, same.symm⟩
  | cons c word ih =>
    cases value with
    | nil => cases same
    | cons d value =>
      rcases singleSpaces_cons false d value with ⟨_, impossible, _⟩ | ⟨_, _, found⟩ | ⟨_, found⟩
      · cases impossible
      · rw [found] at same
        have space := noSpace c List.mem_cons_self
        rw [← (List.cons.inj same).1] at space
        exact absurd space (by decide)
      · rw [found] at same
        obtain ⟨rfl, later⟩ := List.cons.inj same
        obtain ⟨after, rfl, spaced⟩ := ih (fun e member => noSpace e (List.mem_cons_of_mem d member)) later
        exact ⟨after, rfl, spaced⟩

theorem singleSpaces_append_of_solid {word : List Char} (noSpace : ∀ c ∈ word, isWhiteSpace c = false)
    (rest : List Char) : singleSpaces false (word ++ rest) = word ++ singleSpaces false rest := by
  induction word with
  | nil => rfl
  | cons c word ih =>
    rw [List.cons_append, singleSpaces_solid (noSpace c List.mem_cons_self),
      ih fun d member => noSpace d (List.mem_cons_of_mem c member)]
    rfl

theorem endsWord_singleSpaces (rest : List Char) : endsWord (singleSpaces false rest) = endsWord rest := by
  cases rest with
  | nil => rfl
  | cons c rest =>
    rcases singleSpaces_cons false c rest with ⟨_, impossible, _⟩ | ⟨space, _, found⟩ | ⟨_, found⟩
    · cases impossible
    · have noLetter := alphanumeric_eq_false_of_space space
      have noBlank : Text.alphanumeric.contains ' ' = false := alphanumeric_eq_false_of_space (by decide)
      have other : c ≠ '_' := by
        rintro rfl
        exact absurd space (by decide)
      rw [found]
      simp [endsWord, noLetter, noBlank, other]
    · rw [found]
      rfl

theorem noSpace_html : ∀ c ∈ "html".toList, isWhiteSpace c = false := by
  have none : "html".toList.any isWhiteSpace = false := by decide
  simpa only [List.any_eq_false, Bool.not_eq_true] using none

theorem noSpace_of_map_toLower {word : List Char} (lower : word.map Char.toLower = "html".toList) :
    ∀ c ∈ word, isWhiteSpace c = false := by
  intro c member
  have inside : c.toLower ∈ "html".toList := lower ▸ List.mem_map_of_mem member
  rw [← Text.isWhiteSpace_toLower]
  exact noSpace_html _ inside

theorem startsHtml_singleSpaces (value : List Char) :
    startsHtml (singleSpaces false value) = startsHtml value := by
  rw [Bool.eq_iff_iff, startsHtml_eq_true_iff, startsHtml_eq_true_iff]
  constructor
  · rintro ⟨word, rest, same, lower, ends⟩
    obtain ⟨after, rfl, rfl⟩ := exists_of_singleSpaces_eq_append (noSpace_of_map_toLower lower) same
    exact ⟨word, after, rfl, lower, (endsWord_singleSpaces after) ▸ ends⟩
  · rintro ⟨word, rest, rfl, lower, ends⟩
    refine ⟨word, singleSpaces false rest, ?_, lower, (endsWord_singleSpaces rest).symm ▸ ends⟩
    exact singleSpaces_append_of_solid (noSpace_of_map_toLower lower) rest

theorem normalizeDoctype_of_startsHtml {word rest : List Char}
    (lower : word.map Char.toLower = "html".toList) (ends : endsWord rest = true) :
    normalizeDoctype (word ++ rest) = "html".toList ++ singleSpaces false rest := by
  have four : word.length = 4 := by
    have same := congrArg List.length lower
    rwa [List.length_map] at same
  unfold normalizeDoctype
  rw [startsHtml_eq_true_iff.mpr ⟨word, rest, rfl, lower, ends⟩, if_pos rfl, List.drop_left' four]
  exact singleSpaces_append_of_solid noSpace_html rest

theorem normalizeDoctype_of_not_startsHtml {value : List Char} (other : startsHtml value = false) :
    normalizeDoctype value = singleSpaces false value := by
  unfold normalizeDoctype
  rw [other]
  rfl

/-- Normalizing a declaration twice is the same as once. -/
theorem normalizeDoctype_normalizeDoctype (value : List Char) :
    normalizeDoctype (normalizeDoctype value) = normalizeDoctype value := by
  cases html : startsHtml value with
  | true =>
    obtain ⟨word, rest, rfl, lower, ends⟩ := startsHtml_eq_true_iff.mp html
    rw [normalizeDoctype_of_startsHtml lower ends,
      normalizeDoctype_of_startsHtml (by decide) ((endsWord_singleSpaces rest).trans ends),
      singleSpaces_singleSpaces]
  | false =>
    rw [normalizeDoctype_of_not_startsHtml html,
      normalizeDoctype_of_not_startsHtml ((startsHtml_singleSpaces value).trans html),
      singleSpaces_singleSpaces]

theorem dropWhile_eq_self {cs : List Char} (front : ∀ c ∈ cs.head?, isWhiteSpace c = false) :
    cs.dropWhile isWhiteSpace = cs := by
  cases cs with
  | nil => rfl
  | cons c cs => rw [List.dropWhile_cons, front c rfl]; rfl

theorem dropWhile_normalizeDoctype {value : List Char}
    (front : ∀ c ∈ value.head?, isWhiteSpace c = false) :
    (normalizeDoctype value).dropWhile isWhiteSpace = normalizeDoctype value := by
  cases html : startsHtml value with
  | true =>
    obtain ⟨word, rest, rfl, lower, ends⟩ := startsHtml_eq_true_iff.mp html
    rw [normalizeDoctype_of_startsHtml lower ends]
    exact dropWhile_eq_self (by rintro c ⟨⟩; decide)
  | false =>
    rw [normalizeDoctype_of_not_startsHtml html]
    apply dropWhile_eq_self
    cases value with
    | nil => nofun
    | cons c cs =>
      rw [singleSpaces_solid (front c rfl)]
      exact front

theorem startsHtml_of_space {c : Char} (space : isWhiteSpace c = true) (cs : List Char) :
    startsHtml (c :: cs) = false := by
  rw [Bool.eq_false_iff]
  intro html
  obtain ⟨word, rest, same, lower, _⟩ := startsHtml_eq_true_iff.mp html
  cases word with
  | nil => cases lower
  | cons d word =>
    have noSpace := noSpace_of_map_toLower lower d List.mem_cons_self
    rw [← (List.cons.inj same).1, space] at noSpace
    cases noSpace

theorem normalizeDoctype_of_space {front : List Char} (nonempty : front ≠ [])
    (blank : front.all isWhiteSpace = true) (rest : List Char) :
    normalizeDoctype (front ++ rest) = ' ' :: singleSpaces true rest := by
  obtain ⟨c, front, rfl⟩ := List.exists_cons_of_ne_nil nonempty
  rw [List.all_cons, Bool.and_eq_true] at blank
  rw [List.cons_append, normalizeDoctype_of_not_startsHtml (startsHtml_of_space blank.1 _),
    singleSpaces_space blank.1, singleSpaces_append_of_all blank.2]
  rfl

/-- Normalizing a declaration loses no character but white space. -/
theorem length_solid_normalizeDoctype (value : List Char) :
    (solid (normalizeDoctype value)).length = (solid value).length := by
  cases html : startsHtml value with
  | true =>
    obtain ⟨word, rest, rfl, lower, ends⟩ := startsHtml_eq_true_iff.mp html
    have kept : solid word = word := by
      unfold solid
      rw [List.filter_eq_self]
      intro c member
      rw [noSpace_of_map_toLower lower c member]
      rfl
    have same := congrArg List.length lower
    rw [List.length_map] at same
    rw [normalizeDoctype_of_startsHtml lower ends, solid_append, solid_append, solid_singleSpaces,
      List.length_append, List.length_append, kept, same]
    rfl
  | false => rw [normalizeDoctype_of_not_startsHtml html, solid_singleSpaces]

theorem byteLength_normalizeDoctype_le (value : List Char) :
    byteLength (normalizeDoctype value) ≤ byteLength value := by
  cases html : startsHtml value with
  | true =>
    obtain ⟨word, rest, rfl, lower, ends⟩ := startsHtml_eq_true_iff.mp html
    have shorter := byteLength_singleSpaces_le false rest
    have same := congrArg byteLength lower
    rw [Text.byteLength_map_toLower] at same
    rw [normalizeDoctype_of_startsHtml lower ends, Text.byteLength_append, Text.byteLength_append, same]
    omega
  | false =>
    rw [normalizeDoctype_of_not_startsHtml html]
    exact byteLength_singleSpaces_le false value

theorem mem_normalizeDoctype {c : Char} {value : List Char} (member : c ∈ normalizeDoctype value) :
    c ∈ "html ".toList ∨ c ∈ value := by
  cases html : startsHtml value with
  | true =>
    obtain ⟨word, rest, rfl, lower, ends⟩ := startsHtml_eq_true_iff.mp html
    rw [normalizeDoctype_of_startsHtml lower ends] at member
    rcases List.mem_append.mp member with member | member
    · exact Or.inl (List.mem_append_left [' '] member)
    · rcases mem_singleSpaces member with rfl | member
      · exact Or.inl (by decide)
      · exact Or.inr (List.mem_append_right word member)
  | false =>
    rw [normalizeDoctype_of_not_startsHtml html] at member
    rcases mem_singleSpaces member with rfl | member
    · exact Or.inl (by decide)
    · exact Or.inr member

/-! ### The keyword -/

theorem not_mem_of_map_toLower {c : Char} {word lower : List Char} (isLower : word.map Char.toLower = lower)
    (fixed : c.toLower = c) (absent : c ∉ lower) : c ∉ word := by
  intro member
  have inside : c.toLower ∈ lower := isLower ▸ List.mem_map_of_mem member
  rw [fixed] at inside
  exact absent inside

theorem length_of_map_toLower {word : List Char} (lower : word.map Char.toLower = "doctype".toList) :
    word.length = 7 := by
  have same := congrArg List.length lower
  rwa [List.length_map] at same

theorem doctypeValue_eq_iff {content value : List Char} : doctypeValue content = value ↔
    (∃ word rest, content = word ++ rest ∧ word.map Char.toLower = "doctype".toList ∧
      value = rest.dropWhile isWhiteSpace) ∨
    (content.take 7).map Char.toLower ≠ "doctype".toList ∧ value = content := by
  unfold doctypeValue
  split
  · next keyword =>
    constructor
    · rintro rfl
      exact .inl ⟨_, _, (List.take_append_drop 7 content).symm, keyword, rfl⟩
    · rintro (⟨word, rest, rfl, lower, rfl⟩ | ⟨other, _⟩)
      · rw [List.drop_left' (length_of_map_toLower lower)]
      · exact absurd keyword other
  · next other =>
    constructor
    · rintro rfl
      exact .inr ⟨other, rfl⟩
    · rintro (⟨word, rest, rfl, lower, _⟩ | ⟨_, rfl⟩)
      · rw [List.take_left' (length_of_map_toLower lower)] at other
        exact absurd lower other
      · rfl

/-- The keyword ends no line, so it is there with any line endings. -/
theorem doctypeValue_normalizeChars (content : List Char) :
    doctypeValue (normalizeChars content) = normalizeChars (doctypeValue content) := by
  rw [doctypeValue_eq_iff]
  rcases doctypeValue_eq_iff.mp (Eq.refl (doctypeValue content)) with
    ⟨word, rest, rfl, lower, value⟩ | ⟨other, value⟩
  · have noReturn : '\r' ∉ word := not_mem_of_map_toLower lower (by decide) (by decide)
    rw [value, ← Text.dropWhile_normalizeChars]
    exact .inl ⟨word, normalizeChars rest, normalizeChars_append noReturn, lower, rfl⟩
  · refine .inr ⟨?_, congrArg normalizeChars value⟩
    intro lower
    have noFeed : '\n' ∉ (normalizeChars content).take 7 := not_mem_of_map_toLower lower (by decide) (by decide)
    obtain ⟨after, same, _⟩ := Text.exists_of_normalizeChars_eq_append noFeed (List.take_append_drop 7 _).symm
    rw [same, List.take_left' (length_of_map_toLower lower)] at other
    exact other lower

/-! ### The normal value -/

theorem singleSpaces_normalizeChars (afterSpace : Bool) (cs : List Char) :
    singleSpaces afterSpace (normalizeChars cs) = singleSpaces afterSpace cs := by
  have feed : isWhiteSpace '\n' = true := by decide
  have return_ : isWhiteSpace '\r' = true := by decide
  fun_induction normalizeChars cs generalizing afterSpace with
  | case1 => rfl
  | case2 cs ih => rw [singleSpaces_space feed, singleSpaces_space return_, singleSpaces_space feed, if_pos rfl, ih]
  | case3 cs _ ih => rw [singleSpaces_space feed, singleSpaces_space return_, ih]
  | case4 c cs _ _ ih => rw [singleSpaces, singleSpaces, ih, ih]

theorem endsWord_normalizeChars (rest : List Char) : endsWord (normalizeChars rest) = endsWord rest := by
  rw [← endsWord_singleSpaces, singleSpaces_normalizeChars, endsWord_singleSpaces]

theorem startsHtml_normalizeChars (value : List Char) : startsHtml (normalizeChars value) = startsHtml value := by
  rw [← startsHtml_singleSpaces, singleSpaces_normalizeChars, startsHtml_singleSpaces]

theorem normalizeDoctype_normalizeChars (value : List Char) :
    normalizeDoctype (normalizeChars value) = normalizeDoctype value := by
  cases html : startsHtml value with
  | true =>
    obtain ⟨word, rest, rfl, lower, ends⟩ := startsHtml_eq_true_iff.mp html
    have noReturn : '\r' ∉ word := not_mem_of_map_toLower lower (by decide) (by decide)
    rw [normalizeChars_append noReturn, normalizeDoctype_of_startsHtml lower ends,
      normalizeDoctype_of_startsHtml lower ((endsWord_normalizeChars rest).trans ends), singleSpaces_normalizeChars]
  | false =>
    rw [normalizeDoctype_of_not_startsHtml html,
      normalizeDoctype_of_not_startsHtml ((startsHtml_normalizeChars value).trans html), singleSpaces_normalizeChars]

theorem normalizeDoctype_doctypeValue_normalizeChars (content : List Char) :
    normalizeDoctype (doctypeValue (normalizeChars content)) = normalizeDoctype (doctypeValue content) := by
  rw [doctypeValue_normalizeChars, normalizeDoctype_normalizeChars]

theorem normalizeChars_declarationText (content : List Char) :
    normalizeChars (declarationText content) = declarationText (normalizeChars content) := by
  have front : normalizeChars ("<!".toList ++ (content ++ ['>'])) = "<!".toList ++ normalizeChars (content ++ ['>']) :=
    normalizeChars_append (by decide)
  unfold declarationText
  rw [List.append_assoc, front, Text.normalizeChars_append_cons (by decide), List.append_assoc]
  rfl

/-! ### Characters of the normal value -/

theorem eq_space_of_mem_singleSpaces {c : Char} {cs : List Char} {afterSpace : Bool}
    (member : c ∈ singleSpaces afterSpace cs) (space : isWhiteSpace c = true) : c = ' ' := by
  induction cs generalizing afterSpace with
  | nil => cases member
  | cons d cs ih =>
    rcases singleSpaces_cons afterSpace d cs with ⟨_, _, same⟩ | ⟨_, _, same⟩ | ⟨solid, same⟩
    · rw [same] at member
      exact ih member
    · rw [same] at member
      rcases List.mem_cons.mp member with same | member
      · exact same
      · exact ih member
    · rw [same] at member
      rcases List.mem_cons.mp member with rfl | member
      · rw [space] at solid
        cases solid
      · exact ih member

theorem eq_space_of_mem_normalizeDoctype {c : Char} {value : List Char} (member : c ∈ normalizeDoctype value)
    (space : isWhiteSpace c = true) : c = ' ' :=
  eq_space_of_mem_singleSpaces member space

end MarkupFormat.Print
