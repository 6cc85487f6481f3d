import MarkupFormat.Text.Blank
import MarkupFormat.Text.Search

/-!
# Template blocks and words

A template block is an expression, a statement or a remark of a template language inside markup.
It is opaque: nothing in it is read as markup. `scan` reads up to a place that the caller
describes, and passes over closed blocks as a whole.

Text that flows is a list of words. White space between words counts as one space; inside a word
it can only stand in a closed template block, where it counts as one space as well.
-/

namespace MarkupFormat.Text

/-! ### Template blocks -/

/-- What closes a block whose opening brace is followed by the given character. -/
def blockCloser? : Char → Option (List Char)
  | '{' => some ['}', '}']
  | '%' => some ['%', '}']
  | '#' => some ['#', '}']
  | _ => none

/-- Whether `cs` begins with the opening of a block, closed or not. -/
def opensBlock : List Char → Bool
  | '{' :: c :: _ => (blockCloser? c).isSome
  | _ => false

/-- The closed block at the start of a text, and what follows it. -/
def templateBlock? : List Char → Option (List Char × List Char)
  | '{' :: c :: cs => do
    let closer ← blockCloser? c
    let (inner, rest) ← breakOn closer cs
    return ('{' :: c :: inner ++ closer, rest)
  | _ => none

/-- A block and what follows it make up the text. -/
theorem eq_of_templateBlock? {cs block rest : List Char}
    (h : templateBlock? cs = some (block, rest)) : cs = block ++ rest := by
  unfold templateBlock? at h
  split at h
  · simp only [Option.bind_eq_bind, Option.bind_eq_some_iff, Option.pure_def] at h
    obtain ⟨closer, -, ⟨inner, after⟩, found, same⟩ := h
    cases same
    rw [eq_of_breakOn found]
    simp
  · cases h

theorem templateBlock?_ne_nil {cs block rest : List Char}
    (h : templateBlock? cs = some (block, rest)) : block ≠ [] := by
  unfold templateBlock? at h
  split at h
  · simp only [Option.bind_eq_bind, Option.bind_eq_some_iff, Option.pure_def] at h
    obtain ⟨closer, -, ⟨inner, after⟩, -, same⟩ := h
    cases same
    simp
  · cases h

/-- What follows a block is shorter than the text. -/
theorem length_lt_of_templateBlock? {cs block rest : List Char}
    (h : templateBlock? cs = some (block, rest)) : rest.length < cs.length := by
  have nonempty := List.length_pos_iff.mpr (templateBlock?_ne_nil h)
  rw [eq_of_templateBlock? h, List.length_append]
  omega

/-- The characters before the first place where `stop` holds of the rest and that is not inside a
closed block, and the rest from there on. -/
def scan (stop : List Char → Bool) : List Char → List Char × List Char
  | [] => ([], [])
  | c :: cs =>
    match _h : templateBlock? (c :: cs) with
    | some (block, rest) =>
      let (taken, rest) := scan stop rest
      (block ++ taken, rest)
    | none =>
      if stop (c :: cs) then ([], c :: cs)
      else
        let (taken, rest) := scan stop cs
        (c :: taken, rest)
  termination_by cs => cs.length
  decreasing_by
    · exact length_lt_of_templateBlock? _h
    · simp

/-- A scan loses nothing. -/
theorem scan_append (stop : List Char → Bool) (cs : List Char) :
    (scan stop cs).1 ++ (scan stop cs).2 = cs := by
  fun_induction scan stop cs with
  | case1 => rfl
  | case2 c cs block after h taken rest same ih =>
    rw [same] at ih
    simp only [List.append_assoc]
    rw [ih]
    exact (eq_of_templateBlock? h).symm
  | case3 => rfl
  | case4 c cs h stopped taken rest same ih =>
    rw [same] at ih
    simpa using ih

theorem length_scan (stop : List Char → Bool) (cs : List Char) :
    (scan stop cs).1.length + (scan stop cs).2.length = cs.length := by
  rw [← List.length_append, scan_append]

/-- A scan that is not stopped at once takes something. -/
theorem scan_fst_ne_nil {stop : List Char → Bool} {c : Char} {cs : List Char}
    (h : stop (c :: cs) = false) : (scan stop (c :: cs)).1 ≠ [] := by
  unfold scan
  split
  · next block rest found => simp [templateBlock?_ne_nil found]
  · simp [h]

/-! ### Words -/

/-- `cs` with every run of white space as one space. A run at the end is dropped. `pending` tells
whether a run of white space is just before `cs`. -/
def collapseRuns (pending : Bool) : List Char → List Char
  | [] => []
  | c :: cs =>
    if isMarkupSpace c then collapseRuns true cs
    else if pending then ' ' :: c :: collapseRuns false cs
    else c :: collapseRuns false cs

/-- `cs` without white space at its ends and with single spaces inside. -/
def collapse (cs : List Char) : List Char :=
  collapseRuns false (dropEnds isMarkupSpace cs)

/-- Whether `cs` begins with white space. -/
def startsBlank (cs : List Char) : Bool :=
  cs.head?.any isMarkupSpace

/-- The words of a text. -/
def words : List Char → List (List Char)
  | [] => []
  | c :: cs =>
    if _h : isMarkupSpace c then words cs
    else
      collapseRuns false (scan startsBlank (c :: cs)).1 :: words (scan startsBlank (c :: cs)).2
  termination_by cs => cs.length
  decreasing_by
    · simp
    · have total := length_scan startsBlank (c :: cs)
      have stays : startsBlank (c :: cs) = false := by simpa [startsBlank] using _h
      have taken := List.length_pos_iff.mpr (scan_fst_ne_nil stays)
      omega

end MarkupFormat.Text
