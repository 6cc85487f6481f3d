import Mathlib.Data.List.DropRight
import MarkupFormat.Cli.Selection
import MarkupFormat.Proofs.Text.Blocks
import MarkupFormat.Proofs.Text.LineEndings

/-!
# Patterns and whole names

A pattern is compared with a path as text. What stands on either side of a double star loses its slashes there, so it
may fit a part of a name (`prefix_names_iff`, `suffix_names_iff`), and the two sides may fit the same part of a path
(`exists_between_iff`). A single star stands for a part of one name, as it should. `fits_iff_of_starless` has all four
forms.
-/

namespace MarkupFormat.Cli.IgnorePattern

open Text (breakOn dropEnd splitOnChars)

variable {path name before after start tail folder : List Char}

/-! ### The names of a path -/

/-- The names that a path is made of. Slashes beside each other count as one. -/
def names (path : List Char) : List (List Char) :=
  (splitOnChars (· = '/') path).filter (· ≠ [])

/-- No name reaches from one text into the next. -/
def Parted (before after : List Char) : Prop :=
  before = [] ∨ after = [] ∨ before.getLast? = some '/' ∨ after.head? = some '/'

instance (before after : List Char) : Decidable (Parted before after) :=
  inferInstanceAs (Decidable (_ ∨ _))

theorem Parted.of_append {rest : List Char} (parted : Parted before (after ++ rest)) : Parted before after := by
  by_cases none : after = []
  · exact .inr (.inl none)
  · rcases parted with empty | empty | slash | slash
    · exact .inl empty
    · exact absurd (List.append_eq_nil_iff.mp empty).1 none
    · exact .inr (.inr (.inl slash))
    · rw [List.head?_append_of_ne_nil _ none] at slash
      exact .inr (.inr (.inr slash))

theorem names_slash (before after : List Char) : names (before ++ '/' :: after) = names before ++ names after := by
  unfold names
  rw [Text.splitOnChars_append (by decide), List.filter_append]

theorem names_of_noSlash (nonempty : name ≠ []) (noSlash : '/' ∉ name) : names name = [name] := by
  have whole : ∀ c ∈ name, decide (c = '/') = false := by
    intro c member
    rw [decide_eq_false_iff_not]
    rintro rfl
    exact noSlash member
  unfold names
  rw [Text.splitOnChars_of_none whole, List.filter_cons_of_pos (by simpa using nonempty), List.filter_nil]

theorem names_append (parted : Parted before after) : names (before ++ after) = names before ++ names after := by
  rcases parted with rfl | rfl | last | first
  · rfl
  · rw [List.append_nil]
    exact (List.append_nil _).symm
  · obtain ⟨front, rfl⟩ := List.getLast?_eq_some_iff.mp last
    rw [List.append_assoc, List.singleton_append, names_slash, names_slash]
    exact congrArg (· ++ names after) (List.append_nil _).symm
  · obtain ⟨behind, rfl⟩ := List.head?_eq_some_iff.mp first
    rw [names_slash]
    exact congrArg (names before ++ ·) (names_slash [] behind).symm

theorem exists_first_name (nonempty : after ≠ []) (first : after.head? ≠ some '/') :
    ∃ name behind, after = name ++ behind ∧ name ≠ [] ∧ '/' ∉ name ∧ (behind = [] ∨ behind.head? = some '/') := by
  induction after with
  | nil => exact absurd rfl nonempty
  | cons c after ih =>
    have other : c ≠ '/' := by simpa using first
    by_cases begins : after = [] ∨ after.head? = some '/'
    · exact ⟨[c], after, rfl, List.cons_ne_nil c [], by simpa using other.symm, begins⟩
    · rw [not_or] at begins
      obtain ⟨name, behind, rfl, some, noSlash, begins⟩ := ih begins.1 begins.2
      refine ⟨c :: name, behind, rfl, List.cons_ne_nil c name, ?_, begins⟩
      simpa [noSlash] using other.symm

theorem exists_last_name (nonempty : before ≠ []) (last : before.getLast? ≠ some '/') :
    ∃ front name, before = front ++ name ∧ name ≠ [] ∧ '/' ∉ name ∧ (front = [] ∨ front.getLast? = some '/') := by
  have first : before.reverse.head? ≠ some '/' := by rwa [List.head?_reverse]
  obtain ⟨name, behind, same, some, noSlash, begins⟩ :=
    exists_first_name (mt List.reverse_eq_nil_iff.mp nonempty) first
  refine ⟨behind.reverse, name.reverse, ?_, by simpa using some, by simpa using noSlash, ?_⟩
  · rw [← List.reverse_append, ← same, List.reverse_reverse]
  · rwa [List.reverse_eq_nil_iff, List.getLast?_reverse]

/-- The name that reaches from one text into the next is one name, where each of them has a part of it. -/
theorem names_of_not_parted (joined : ¬Parted before after) :
    ∃ first left right others, left ≠ [] ∧ right ≠ [] ∧ names before = first ++ [left] ∧
      names after = right :: others ∧ names (before ++ after) = first ++ (left ++ right) :: others := by
  simp only [Parted, not_or] at joined
  obtain ⟨beforeSome, afterSome, last, first⟩ := joined
  obtain ⟨front, left, rfl, leftSome, leftWhole, ends⟩ := exists_last_name beforeSome last
  obtain ⟨right, behind, rfl, rightSome, rightWhole, begins⟩ := exists_first_name afterSome first
  have parts (name : List Char) : Parted front name := ends.imp_right fun slash => .inr (.inl slash)
  have parts' (name : List Char) : Parted name behind := .inr (begins.imp_right .inr)
  have both : '/' ∉ left ++ right := by simp [leftWhole, rightWhole]
  refine ⟨names front, left, right, names behind, leftSome, rightSome, ?_, ?_, ?_⟩
  · rw [names_append (parts left), names_of_noSlash leftSome leftWhole]
  · rw [names_append (parts' right), names_of_noSlash rightSome rightWhole]
    rfl
  · have regroup : front ++ left ++ (right ++ behind) = front ++ ((left ++ right) ++ behind) := by simp
    rw [regroup, names_append (parts _), names_append (parts' _), names_of_noSlash (by simp [leftSome]) both]
    rfl

theorem prefix_names_iff : names before <+: names (before ++ after) ↔ Parted before after := by
  constructor
  · refine fun within => Decidable.byContradiction fun joined => ?_
    obtain ⟨first, left, right, others, -, some, front, -, whole⟩ := names_of_not_parted joined
    rw [front, whole, List.prefix_append_right_inj, List.cons_prefix_cons] at within
    exact some (List.append_right_eq_self.mp within.1.symm)
  · intro parted
    rw [names_append parted]
    exact List.prefix_append _ _

theorem suffix_names_iff : names after <:+ names (before ++ after) ↔ Parted before after := by
  constructor
  · refine fun within => Decidable.byContradiction fun joined => ?_
    obtain ⟨first, left, right, others, some, -, -, behind, whole⟩ := names_of_not_parted joined
    rw [behind, whole] at within
    have last : right :: others <:+ (left ++ right) :: others :=
      List.suffix_of_suffix_length_le within (List.suffix_append _ _) (Nat.le_refl _)
    have same := last.eq_of_length rfl
    exact some (List.append_left_eq_self.mp (List.cons.inj same).1.symm)
  · intro parted
    rw [names_append parted]
    exact List.suffix_append _ _

/-! ### What stands beside a double star -/

/-- What a double star leaves of the text before it. -/
def beforeStars (folder : List Char) : List Char :=
  dropEnd (· = '/') folder

/-- What a double star leaves of the text behind it. -/
def afterStars (tail : List Char) : List Char :=
  tail.dropWhile (· = '/')

theorem beforeStars_slash (folder : List Char) : beforeStars (folder ++ ['/']) = beforeStars folder :=
  List.rdropWhile_concat_pos _ _ _ (by decide)

theorem getLast?_beforeStars (folder : List Char) : (beforeStars folder).getLast? ≠ some '/' := by
  intro slash
  have nonempty : beforeStars folder ≠ [] := by
    intro none
    rw [none] at slash
    cases slash
  rw [List.getLast?_eq_some_getLast nonempty] at slash
  exact List.rdropWhile_last_not _ folder nonempty (decide_eq_true (Option.some.inj slash))

theorem names_beforeStars (folder : List Char) : names (beforeStars folder) = names folder := by
  induction folder using List.reverseRecOn with
  | nil => rfl
  | append_singleton folder c ih =>
    by_cases slash : c = '/'
    · rw [slash, beforeStars_slash, ih, names_slash]
      exact (List.append_nil _).symm
    · have kept : beforeStars (folder ++ [c]) = folder ++ [c] :=
        List.rdropWhile_concat_neg _ _ _ (by simpa using slash)
      rw [kept]

theorem names_afterStars (tail : List Char) : names (afterStars tail) = names tail := by
  unfold afterStars
  induction tail with
  | nil => rfl
  | cons c tail ih =>
    by_cases slash : c = '/'
    · rw [List.dropWhile_cons_of_pos (by simpa using slash), ih, slash]
      exact (names_slash [] tail).symm
    · rw [List.dropWhile_cons_of_neg (by simpa using slash)]

theorem names_ne_nil {c : Char} (last : path.getLast? = some c) (other : c ≠ '/') : names path ≠ [] := by
  have nonempty : path ≠ [] := by
    rintro rfl
    cases last
  have noSlash : path.getLast? ≠ some '/' := by
    rw [last]
    exact fun same => other (Option.some.inj same)
  obtain ⟨front, name, rfl, some, whole, ends⟩ := exists_last_name nonempty noSlash
  rw [names_append (ends.imp_right fun slash => .inr (.inl slash)), names_of_noSlash some whole]
  simp

theorem length_names_of_overlap {more rest : List Char} (last : (before ++ more).getLast? ≠ some '/') (some : more ≠ [])
    (parted : Parted before (more ++ rest)) :
    (names (before ++ more ++ rest)).length < (names (before ++ more)).length + (names (more ++ rest)).length := by
  have shared : names more ≠ [] := by
    refine names_ne_nil (List.getLast?_eq_some_getLast some) fun slash => last ?_
    rw [List.getLast?_append_of_ne_nil _ some, List.getLast?_eq_some_getLast some, slash]
  have positive := List.length_pos_iff.mpr shared
  rw [List.append_assoc, names_append parted, names_append parted.of_append, List.length_append, List.length_append]
  omega

/-- What two texts fit at the two ends of a path are whole names with whole names between them exactly if they do not
fit the same part of it and each is parted from the rest. -/
theorem exists_between_iff (last : before.getLast? ≠ some '/') (front : before <+: path) (behind : after <:+ path) :
    (∃ between, names path = names before ++ between ++ names after) ↔
      ∃ middle, path = before ++ middle ++ after ∧
        Parted before (middle ++ after) ∧ Parted (before ++ middle) after := by
  constructor
  · rintro ⟨between, whole⟩
    obtain ⟨rest, rfl⟩ := front
    obtain ⟨first, same⟩ := behind
    have parted : Parted before rest := by
      rw [← prefix_names_iff, whole, List.append_assoc]
      exact List.prefix_append _ _
    have parted' : Parted first after := by
      rw [← suffix_names_iff, same, whole]
      exact List.suffix_append _ _
    rcases List.append_eq_append_iff.mp same with ⟨more, rfl, rfl⟩ | ⟨more, rfl, rfl⟩
    · by_cases none : more = []
      · subst none
        rw [List.append_nil] at parted ⊢
        exact ⟨[], by rw [List.append_nil]; rfl, parted, by rwa [List.append_nil]⟩
      · have shared := length_names_of_overlap last none parted'
        rw [whole, List.length_append, List.length_append] at shared
        omega
    · exact ⟨more, (List.append_assoc ..).symm, parted, parted'⟩
  · rintro ⟨middle, rfl, parted, parted'⟩
    exact ⟨names middle, by rw [names_append parted', names_append parted.of_append]⟩

/-! ### Patterns with stars -/

theorem ofChars_doubleStar (starless : '*' ∉ before) (starless' : '*' ∉ after) :
    ofChars (before ++ '*' :: '*' :: after) =
      anything (beforeStars before) (afterStars after) := by
  have found : breakOn ['*', '*'] ('*' :: '*' :: after) = some ([], after) :=
    Text.breakOn_append_self (List.cons_ne_nil _ _) after
  have single : Text.occursIn ['*', '*'] after = false := by
    rw [← Text.breakOn_eq_none_iff]
    exact Text.breakOn_eq_none starless' _
  unfold ofChars
  rw [Text.breakOn_append_of_not_mem starless, found]
  simp [single, beforeStars, afterStars]

theorem ofChars_star (starless : '*' ∉ before) (starless' : '*' ∉ after) :
    ofChars (before ++ '*' :: after) = withinName before after := by
  have single : breakOn ['*', '*'] ('*' :: after) = none := by
    have elsewhere : ['*', '*'].isPrefixOf ('*' :: after) = false := by
      refine Bool.eq_false_iff.mpr fun starts => starless' ?_
      obtain ⟨rest, same⟩ := List.isPrefixOf_iff_prefix.mp starts
      rw [← (List.cons.inj same).2]
      exact List.mem_cons_self
    rw [breakOn, elsewhere, Text.breakOn_eq_none starless']
    rfl
  have found : breakOn ['*'] ('*' :: after) = some ([], after) :=
    Text.breakOn_append_self (List.cons_ne_nil _ _) after
  unfold ofChars
  rw [Text.breakOn_append_of_not_mem starless, single, Text.breakOn_append_of_not_mem starless, found]
  simp [starless']

theorem fits_anything_iff : (anything before after).fits path name = true ↔ before <+: path ∧ after <:+ path := by
  rw [fits, Bool.and_eq_true, List.isPrefixOf_iff_prefix, List.isSuffixOf_iff_suffix]

theorem fits_withinName_iff :
    (withinName before after).fits path name = true ↔ ∃ between, path = before ++ between ++ after ∧ '/' ∉ between := by
  have middle (between : List Char) : ((before ++ between ++ after).drop before.length).take
      ((before ++ between ++ after).length - after.length - before.length) = between := by
    rw [List.append_assoc, List.drop_left]
    refine List.take_left' ?_
    simp only [List.length_append]
    omega
  simp only [fits, Bool.and_eq_true, Bool.not_eq_true', decide_eq_true_iff, List.isPrefixOf_iff_prefix,
    List.isSuffixOf_iff_suffix, List.contains_eq_mem, decide_eq_false_iff_not]
  constructor
  · rintro ⟨⟨⟨fewer, rest, rfl⟩, behind⟩, inside⟩
    rw [List.length_append] at fewer
    obtain ⟨between, rfl⟩ : after <:+ rest :=
      List.suffix_of_suffix_length_le behind (List.suffix_append _ _) (by omega)
    rw [← List.append_assoc, middle] at inside
    exact ⟨between, (List.append_assoc ..).symm, inside⟩
  · rintro ⟨between, rfl, inside⟩
    refine ⟨⟨⟨?_, ?_⟩, List.suffix_append _ _⟩, ?_⟩
    · simp only [List.length_append]
      omega
    · rw [List.append_assoc]
      exact List.prefix_append _ _
    · rwa [middle]

theorem fits_folder_iff (starless : '*' ∉ folder) :
    (ofChars (folder ++ "/**".toList)).fits path name = true ↔ beforeStars folder <+: path := by
  have written : folder ++ "/**".toList = (folder ++ ['/']) ++ '*' :: '*' :: [] := by simp
  rw [written, ofChars_doubleStar (by simpa using starless) List.not_mem_nil, beforeStars_slash, fits_anything_iff]
  exact and_iff_left List.nil_suffix

theorem fits_tail_iff (starless : '*' ∉ tail) :
    (ofChars ("**/".toList ++ tail)).fits path name = true ↔ afterStars tail <:+ path := by
  have written : "**/".toList ++ tail = [] ++ '*' :: '*' :: '/' :: tail := by simp
  rw [written, ofChars_doubleStar List.not_mem_nil (by simpa using starless), fits_anything_iff]
  exact and_iff_right List.nil_prefix

theorem fits_folder_tail_iff (starless : '*' ∉ folder) (starless' : '*' ∉ tail) :
    (ofChars (folder ++ "/**/".toList ++ tail)).fits path name = true ↔
      beforeStars folder <+: path ∧ afterStars tail <:+ path := by
  have written : folder ++ "/**/".toList ++ tail = (folder ++ ['/']) ++ '*' :: '*' :: '/' :: tail := by simp
  rw [written, ofChars_doubleStar (by simpa using starless) (by simpa using starless'), beforeStars_slash,
    fits_anything_iff]
  exact Iff.rfl

/-- What patterns with stars fit, and when that is whole names. A folder and an end of a path beside a double star fit
as text. What they fit are whole names exactly if it is parted from the rest of the path, and for both of them, if it is
also not the same part of the path. A single star stands for any part of a name. -/
theorem fits_iff_of_starless (folderStarless : '*' ∉ folder) (startStarless : '*' ∉ start) (tailStarless : '*' ∉ tail)
    (path name : List Char) :
    (((ofChars (folder ++ "/**".toList)).fits path name = true ↔ beforeStars folder <+: path) ∧
      ∀ rest, path = beforeStars folder ++ rest → (names folder <+: names path ↔ Parted (beforeStars folder) rest)) ∧
    (((ofChars ("**/".toList ++ tail)).fits path name = true ↔ afterStars tail <:+ path) ∧
      ∀ rest, path = rest ++ afterStars tail → (names tail <:+ names path ↔ Parted rest (afterStars tail))) ∧
    (((ofChars (folder ++ "/**/".toList ++ tail)).fits path name = true ↔
        beforeStars folder <+: path ∧ afterStars tail <:+ path) ∧
      (beforeStars folder <+: path → afterStars tail <:+ path →
        ((∃ between, names path = names folder ++ between ++ names tail) ↔
          ∃ middle, path = beforeStars folder ++ middle ++ afterStars tail ∧
            Parted (beforeStars folder) (middle ++ afterStars tail) ∧
            Parted (beforeStars folder ++ middle) (afterStars tail)))) ∧
    ((ofChars (start ++ '*' :: tail)).fits path name = true ↔
      ∃ between, path = start ++ between ++ tail ∧ '/' ∉ between) := by
  refine ⟨⟨fits_folder_iff folderStarless, ?_⟩, ⟨fits_tail_iff tailStarless, ?_⟩,
    ⟨fits_folder_tail_iff folderStarless tailStarless, fun front behind => ?_⟩, ?_⟩
  · rintro rest rfl
    rw [← names_beforeStars folder]
    exact prefix_names_iff
  · rintro rest rfl
    rw [← names_afterStars tail]
    exact suffix_names_iff
  · rw [← exists_between_iff (getLast?_beforeStars folder) front behind, names_beforeStars, names_afterStars]
  · rw [ofChars_star startStarless tailStarless, fits_withinName_iff]

/-- A folder whose name only begins with that of the folder that is meant. -/
example : (ofChars "vendor/**".toList).fits "vendor2/a.html".toList "a.html".toList = true ∧
    ¬names "vendor".toList <+: names "vendor2/a.html".toList := by
  decide

/-- A folder and an end of a path that fit the same name. -/
theorem fits_iff_of_starless_sharedName :
    ('*' ∉ "p/a".toList ∧ '*' ∉ "p/".toList ∧ '*' ∉ "a/x.html".toList) ∧
    (ofChars "p/a/**".toList).fits "p/a/x.html".toList "x.html".toList = true ∧
    names "p/a".toList <+: names "p/a/x.html".toList ∧
    (ofChars "p/a/**/a/x.html".toList).fits "p/a/x.html".toList "x.html".toList = true ∧
    ¬∃ between, names "p/a/x.html".toList = names "p/a".toList ++ between ++ names "a/x.html".toList := by
  have folder : '*' ∉ "p/a".toList := by decide
  have start : '*' ∉ "p/".toList := by decide
  have tail : '*' ∉ "a/x.html".toList := by decide
  have ⟨⟨under, whole⟩, _, ⟨both, between⟩, _⟩ :=
    fits_iff_of_starless folder start tail "p/a/x.html".toList "x.html".toList
  refine ⟨⟨folder, start, tail⟩, under.mpr ⟨"/x.html".toList, by decide⟩,
    (whole "/x.html".toList (by decide)).mpr (by decide), both.mpr (by decide), ?_⟩
  rw [between (by decide) (by decide)]
  rintro ⟨middle, same, _⟩
  have length := congrArg List.length same
  rw [List.length_append, List.length_append] at length
  have short : (beforeStars "p/a".toList).length = 3 ∧ (afterStars "a/x.html".toList).length = 8 ∧
      "p/a/x.html".toList.length = 10 := by decide
  omega

end MarkupFormat.Cli.IgnorePattern
