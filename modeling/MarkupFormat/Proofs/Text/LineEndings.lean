import MarkupFormat.Text.Blank
import MarkupFormat.Text.LineEnding
import MarkupFormat.Text.Search

/-!
# Line endings written and read back

A text without carriage returns can be written with any line ending. Reading it back finds the same
text, and guessing finds the ending it was written with.
-/

namespace MarkupFormat.Text

variable {cs ds : List Char}

/-! ### Normal line endings -/

theorem return_not_mem_normalizeChars (cs : List Char) : '\r' ∉ normalizeChars cs := by
  fun_induction normalizeChars cs with
  | case1 => nofun
  | case2 cs ih => simpa using ih
  | case3 cs _ ih => simpa using ih
  | case4 c cs _ other ih =>
    intro member
    rcases List.mem_cons.mp member with same | member
    · exact other same.symm
    · exact ih member

theorem normalizeChars_cons {c : Char} (other : c ≠ '\r') :
    normalizeChars (c :: cs) = c :: normalizeChars cs := by
  rw [normalizeChars]
  · intro _ same
    exact absurd same other
  · exact other

theorem normalizeChars_append {ds : List Char} (clean : '\r' ∉ cs) :
    normalizeChars (cs ++ ds) = cs ++ normalizeChars ds := by
  induction cs with
  | nil => rfl
  | cons c cs ih =>
    rw [List.mem_cons, not_or] at clean
    rw [List.cons_append, normalizeChars_cons (Ne.symm clean.1), ih clean.2]
    rfl

theorem normalizeChars_of_clean (clean : '\r' ∉ cs) : normalizeChars cs = cs := by
  have whole : normalizeChars (cs ++ []) = cs ++ [] := normalizeChars_append clean
  rwa [List.append_nil] at whole

theorem normalizeLineEndings_idem (s : String) :
    normalizeLineEndings (normalizeLineEndings s) = normalizeLineEndings s := by
  have clean := return_not_mem_normalizeChars s.toList
  unfold normalizeLineEndings
  rw [String.toList_ofList, normalizeChars_of_clean clean]

theorem normalizeChars_return (noFeed : cs.head? ≠ some '\n') :
    normalizeChars ('\r' :: cs) = '\n' :: normalizeChars cs := by
  rw [normalizeChars]
  rintro rest rfl
  exact noFeed rfl

theorem dropWhile_normalizeChars (cs : List Char) :
    (normalizeChars cs).dropWhile isWhiteSpace = normalizeChars (cs.dropWhile isWhiteSpace) := by
  fun_induction normalizeChars cs with
  | case1 => rfl
  | case2 cs ih => exact ih
  | case3 cs _ ih => exact ih
  | case4 c cs _ other ih =>
    rw [List.dropWhile_cons, List.dropWhile_cons]
    split
    · exact ih
    · exact (normalizeChars_cons other).symm

theorem dropPrefix?_cons (d c : Char) (needle cs : List Char) :
    dropPrefix? (d :: needle) (c :: cs) = if d = c then dropPrefix? needle cs else none := by
  unfold dropPrefix?
  by_cases same : d = c
  · simp [same]
  · simp [same]

/-- A text begins with any line endings as it begins with line feeds, up to where a line ends. -/
theorem dropPrefix?_normalizeChars {needle : List Char} (noReturn : '\r' ∉ needle) (noFeed : '\n' ∉ needle)
    (cs : List Char) : dropPrefix? needle (normalizeChars cs) = (dropPrefix? needle cs).map normalizeChars := by
  induction needle generalizing cs with
  | nil => rfl
  | cons d needle ih =>
    rw [List.mem_cons, not_or] at noReturn noFeed
    have notFeed : d ≠ '\n' := Ne.symm noFeed.1
    have notReturn : d ≠ '\r' := Ne.symm noReturn.1
    fun_cases normalizeChars cs with
    | case1 => rfl
    | case2 cs => rw [dropPrefix?_cons, dropPrefix?_cons, if_neg notFeed, if_neg notReturn, Option.map_none]
    | case3 cs _ => rw [dropPrefix?_cons, dropPrefix?_cons, if_neg notFeed, if_neg notReturn, Option.map_none]
    | case4 c cs _ other =>
      rw [dropPrefix?_cons, dropPrefix?_cons]
      split
      · exact ih noReturn.2 noFeed.2 cs
      · rfl

theorem guessChars_cons {c : Char} (other : c ≠ '\r') :
    LineEnding.guessChars (c :: cs) = LineEnding.guessChars cs := by
  rw [LineEnding.guessChars]
  · intro _ same
    exact absurd same other
  · exact other

theorem guessChars_return (noFeed : cs.head? ≠ some '\n') :
    LineEnding.guessChars ('\r' :: cs) = .cr := by
  rw [LineEnding.guessChars]
  rintro rest rfl
  exact noFeed rfl

/-! ### Written line endings -/

/-- The characters of a text written with a line ending. -/
def writtenChars (ending : LineEnding) (cs : List Char) : List Char :=
  cs.flatMap fun c => if c = '\n' then ending.text.toList else [c]

theorem writtenChars_cons (ending : LineEnding) (c : Char) (cs : List Char) :
    writtenChars ending (c :: cs) =
      (if c = '\n' then ending.text.toList else [c]) ++ writtenChars ending cs :=
  rfl

theorem writtenChars_append (ending : LineEnding) (cs ds : List Char) :
    writtenChars ending (cs ++ ds) = writtenChars ending cs ++ writtenChars ending ds :=
  List.flatMap_append

theorem writtenChars_of_not_mem (ending : LineEnding) (noFeed : '\n' ∉ cs) : writtenChars ending cs = cs := by
  induction cs with
  | nil => rfl
  | cons c cs ih =>
    rw [List.mem_cons, not_or] at noFeed
    rw [writtenChars_cons, if_neg (Ne.symm noFeed.1), ih noFeed.2]
    rfl

theorem toList_writeLineEndings (ending : LineEnding) (s : String) :
    (writeLineEndings ending s).toList = writtenChars ending s.toList := by
  unfold writeLineEndings writtenChars
  split
  · next same =>
    have alone : (fun c => if c = '\n' then ending.text.toList else [c]) = fun c => [c] := by
      funext c
      split
      · next feed => rw [feed, same]; rfl
      · rfl
    rw [alone, List.flatMap_singleton']
  · rw [String.toList_ofList]

/-- A return is never followed by a line feed where lines end with returns alone. -/
theorem head?_writtenChars_cr (cs : List Char) : (writtenChars .cr cs).head? ≠ some '\n' := by
  cases cs with
  | nil => nofun
  | cons c cs =>
    rw [writtenChars_cons]
    split
    · nofun
    · next other =>
      intro same
      exact other (Option.some.inj same)

/-- Written lines are read again, whatever follows them but a line feed. -/
theorem normalizeChars_writtenChars_append (ending : LineEnding) (clean : '\r' ∉ cs) (noFeed : ds.head? ≠ some '\n') :
    normalizeChars (writtenChars ending cs ++ ds) = cs ++ normalizeChars ds := by
  induction cs with
  | nil => rfl
  | cons c cs ih =>
    rw [List.mem_cons, not_or] at clean
    have rest := ih clean.2
    rw [writtenChars_cons]
    split
    · next feed =>
      subst feed
      cases ending with
      | lf => exact (normalizeChars_cons (by decide)).trans (congrArg _ rest)
      | auto => exact (normalizeChars_cons (by decide)).trans (congrArg _ rest)
      | crlf =>
        show normalizeChars ('\r' :: '\n' :: (writtenChars .crlf cs ++ ds)) = '\n' :: (cs ++ normalizeChars ds)
        rw [normalizeChars, rest]
      -- A return alone is read as one only if no line feed is written right after it.
      | cr =>
        have later : (writtenChars .cr cs ++ ds).head? ≠ some '\n' := by
          rw [List.head?_append, Ne, Option.or_eq_some_iff]
          exact fun feeds => feeds.elim (head?_writtenChars_cr cs) fun last => noFeed last.2
        exact (normalizeChars_return later).trans (congrArg _ rest)
    · exact (normalizeChars_cons (Ne.symm clean.1)).trans (congrArg _ rest)

theorem normalizeChars_writtenChars (ending : LineEnding) (clean : '\r' ∉ cs) :
    normalizeChars (writtenChars ending cs) = cs := by
  have whole := @normalizeChars_writtenChars_append cs [] ending clean nofun
  rwa [List.append_nil, normalizeChars, List.append_nil] at whole

theorem guessChars_of_clean (clean : '\r' ∉ cs) : LineEnding.guessChars cs = .lf := by
  induction cs with
  | nil => rfl
  | cons c cs ih =>
    rw [List.mem_cons, not_or] at clean
    rw [guessChars_cons (Ne.symm clean.1), ih clean.2]

theorem writtenChars_lf (cs : List Char) : writtenChars .lf cs = cs := by
  have same := toList_writeLineEndings .lf (String.ofList cs)
  rw [String.toList_ofList] at same
  exact same.symm.trans (String.toList_ofList ..)

/-- Guessing finds the line ending, once a line ends. -/
theorem guessChars_writtenChars {ending : LineEnding} (chosen : ending ≠ .auto) (clean : '\r' ∉ cs)
    (ends : '\n' ∈ cs) : LineEnding.guessChars (writtenChars ending cs) = ending := by
  induction cs with
  | nil => cases ends
  | cons c cs ih =>
    by_cases feed : c = '\n'
    · subst feed
      rw [writtenChars_cons, if_pos rfl]
      cases ending with
      | lf =>
        rw [writtenChars_lf]
        exact guessChars_of_clean clean
      | crlf =>
        show LineEnding.guessChars ('\r' :: '\n' :: writtenChars .crlf cs) = .crlf
        rw [LineEnding.guessChars]
      | cr => exact guessChars_return (head?_writtenChars_cr cs)
      | auto => exact absurd rfl chosen
    · rw [List.mem_cons, not_or] at clean
      have later : '\n' ∈ cs := (List.mem_cons.mp ends).resolve_left (Ne.symm feed)
      rw [writtenChars_cons, if_neg feed]
      exact (guessChars_cons (Ne.symm clean.1)).trans (ih clean.2 later)

theorem guess_ne_auto (cs : List Char) : LineEnding.guessChars cs ≠ .auto := by
  fun_induction LineEnding.guessChars cs with
  | case1 => nofun
  | case2 => nofun
  | case3 => nofun
  | case4 c cs _ _ ih => exact ih

theorem resolve_writeLineEndings {choice : LineEnding} {source s : String} (clean : '\r' ∉ s.toList)
    (ends : '\n' ∈ s.toList) :
    choice.resolve (writeLineEndings (choice.resolve source) s) = choice.resolve source := by
  cases choice with
  | auto =>
    show LineEnding.guessChars _ = LineEnding.guessChars source.toList
    rw [toList_writeLineEndings]
    exact guessChars_writtenChars (guess_ne_auto _) clean ends
  | lf => rfl
  | crlf => rfl
  | cr => rfl

theorem normalizeLineEndings_writeLineEndings {ending : LineEnding} {s : String}
    (clean : '\r' ∉ s.toList) : normalizeLineEndings (writeLineEndings ending s) = s := by
  unfold normalizeLineEndings
  rw [toList_writeLineEndings, normalizeChars_writtenChars ending clean, String.ofList_toList]

theorem writeLineEndings_inj {ending : LineEnding} {s t : String} (clean : '\r' ∉ s.toList)
    (clean' : '\r' ∉ t.toList) : writeLineEndings ending s = writeLineEndings ending t ↔ s = t := by
  constructor
  · intro same
    have read := congrArg normalizeLineEndings same
    rwa [normalizeLineEndings_writeLineEndings clean, normalizeLineEndings_writeLineEndings clean'] at read
  · rintro rfl
    rfl

/-! ### Lines -/

theorem splitOnChars_ne_nil (p : Char → Bool) (cs : List Char) : splitOnChars p cs ≠ [] := by
  fun_induction splitOnChars p cs with
  | case1 => nofun
  | case2 => nofun
  | case3 => nofun
  | case4 => nofun

theorem splitOnChars_append {p : Char → Bool} {c : Char} (splits : p c = true) (cs ds : List Char) :
    splitOnChars p (cs ++ c :: ds) = splitOnChars p cs ++ splitOnChars p ds := by
  induction cs with
  | nil => simp [splitOnChars, splits]
  | cons d cs ih =>
    rw [List.cons_append, splitOnChars, splitOnChars, ih]
    split
    · rfl
    · cases pieces : splitOnChars p cs with
      | nil => exact absurd pieces (splitOnChars_ne_nil p cs)
      | cons piece pieces => rfl

theorem splitOnChars_of_none {p : Char → Bool} {cs : List Char} (whole : ∀ c ∈ cs, p c = false) :
    splitOnChars p cs = [cs] := by
  induction cs with
  | nil => rfl
  | cons c cs ih =>
    obtain ⟨first, others⟩ := List.forall_mem_cons.mp whole
    simp [splitOnChars, first, ih others]

theorem eq_false_of_mem_splitOnChars {p : Char → Bool} {cs line : List Char} (isLine : line ∈ splitOnChars p cs) :
    ∀ c ∈ line, p c = false := by
  induction cs generalizing line with
  | nil =>
    rw [splitOnChars, List.mem_singleton] at isLine
    simp [isLine]
  | cons d cs ih =>
    rw [splitOnChars] at isLine
    split at isLine
    · rcases List.mem_cons.mp isLine with rfl | later
      · simp
      · exact ih later
    · next solid =>
      have solid : p d = false := by simpa using solid
      split at isLine
      · rw [List.mem_singleton.mp isLine]
        simp [solid]
      · next first lines same =>
        rw [same] at ih
        rcases List.mem_cons.mp isLine with rfl | later
        · exact List.forall_mem_cons.mpr ⟨solid, ih List.mem_cons_self⟩
        · exact ih (List.mem_cons_of_mem first later)

theorem splitOnChars_intercalate {p : Char → Bool} {c : Char} (splits : p c = true) {piece : List Char}
    {pieces : List (List Char)} (whole : ∀ one ∈ piece :: pieces, ∀ d ∈ one, p d = false) :
    splitOnChars p ([c].intercalate (piece :: pieces)) = piece :: pieces := by
  induction pieces generalizing piece with
  | nil => simpa [List.intercalate] using splitOnChars_of_none (whole piece List.mem_cons_self)
  | cons next pieces ih =>
    obtain ⟨first, others⟩ := List.forall_mem_cons.mp whole
    have split : [c].intercalate (piece :: next :: pieces) = piece ++ c :: [c].intercalate (next :: pieces) := by
      simp [List.intercalate]
    rw [split, splitOnChars_append splits, splitOnChars_of_none first, ih others]
    rfl

theorem intercalate_splitOnChars (cs : List Char) : ['\n'].intercalate (splitOnChars (· = '\n') cs) = cs := by
  induction cs with
  | nil => rfl
  | cons c cs ih =>
    have some_lines := splitOnChars_ne_nil (fun c => c = '\n') cs
    unfold splitOnChars
    split
    · next ends =>
      rw [List.intercalate_cons_of_ne_nil some_lines, ih, of_decide_eq_true ends]
      rfl
    · split
      · next same => exact absurd same some_lines
      · next line lines same =>
        rw [same] at ih
        cases lines with
        | nil =>
          rw [List.intercalate_singleton] at ih ⊢
          rw [ih]
        | cons next lines =>
          rw [List.intercalate_cons_cons] at ih ⊢
          rw [← ih]
          rfl

/-- Lines with a line feed after each. -/
def unlines (lines : List (List Char)) : List Char :=
  lines.flatMap (· ++ ['\n'])

theorem unlines_append (lines later : List (List Char)) : unlines (lines ++ later) = unlines lines ++ unlines later :=
  List.flatMap_append

theorem intercalate_concat (lines : List (List Char)) (last : List Char) :
    ['\n'].intercalate (lines ++ [last]) = unlines lines ++ last := by
  induction lines with
  | nil => exact List.append_nil last
  | cons line lines ih =>
    rw [List.cons_append, List.intercalate_cons_of_ne_nil (List.append_ne_nil_of_right_ne_nil _ (List.cons_ne_nil _ _)),
      ih, ← List.append_assoc]
    rfl

theorem unlines_eq_intercalate {lines : List (List Char)} (nonempty : lines ≠ []) :
    unlines lines = ['\n'].intercalate lines ++ ['\n'] := by
  rw [← List.dropLast_concat_getLast nonempty, intercalate_concat, unlines_append, List.append_assoc]
  exact congrArg (unlines lines.dropLast ++ ·) (List.append_nil _)

end MarkupFormat.Text
