import MarkupFormat.Proofs.Text.Templated

/-!
# The template blocks of a text

Where blocks begin and end is decided by four characters. A text in which everything else is replaced, stretch by
stretch, has its blocks in the same places (`Rewrites.templateBlock?`), so a change that works stretch by stretch
changes the blocks one by one (`Blockwise.blocks`). A block that begins in one text may end in the next one only if it
is left open (`Apart`).
-/

namespace MarkupFormat.Text

/-- The closed blocks of a text in order. -/
def blocks : List Char → List (List Char)
  | [] => []
  | c :: cs =>
    match _h : templateBlock? (c :: cs) with
    | some (block, rest) => block :: blocks rest
    | none => blocks cs
  termination_by cs => cs.length
  decreasing_by
    · exact length_lt_of_templateBlock? _h
    · simp

variable {cs ds block rest inner needle : List Char} {c : Char}

theorem blocks_of_templateBlock? (found : templateBlock? cs = some (block, rest)) :
    blocks cs = block :: blocks rest := by
  cases cs with
  | nil => cases found
  | cons c cs =>
    rw [blocks]
    split
    · next same =>
      rw [found] at same
      cases same
      rfl
    · next none =>
      rw [found] at none
      cases none

theorem blocks_cons (absent : templateBlock? (c :: cs) = none) : blocks (c :: cs) = blocks cs := by
  rw [blocks]
  split
  · next found =>
    rw [absent] at found
    cases found
  · rfl

/-! ### First occurrences -/

/-- A first occurrence stays the first one whatever comes after it. -/
theorem breakOn_of_breakOn (nonempty : needle ≠ []) (found : breakOn needle cs = some (inner, rest))
    (other : List Char) : breakOn needle (inner ++ needle ++ other) = some (inner, other) := by
  induction cs generalizing inner with
  | nil =>
    rw [breakOn, if_neg nonempty] at found
    cases found
  | cons c cs ih =>
    rw [breakOn] at found
    split at found
    · cases found
      exact breakOn_append_self nonempty other
    · next elsewhere =>
      obtain ⟨⟨before, after⟩, later, same⟩ := Option.map_eq_some_iff.mp found
      cases same
      have whole := eq_of_breakOn later
      have here : needle.isPrefixOf (c :: (before ++ needle ++ other)) = false := by
        refine Bool.eq_false_iff.mpr fun starts => elsewhere ?_
        have inside : needle <+: c :: (before ++ needle) := by
          refine List.prefix_of_prefix_length_le (List.isPrefixOf_iff_prefix.mp starts) ⟨other, by simp⟩ ?_
          simp only [List.length_cons, List.length_append]
          omega
        rw [List.isPrefixOf_iff_prefix, whole]
        exact inside.trans ⟨rest, by simp⟩
      rw [List.append_assoc, List.cons_append, ← List.append_assoc, breakOn, if_neg (by rw [here]; decide), ih later]
      rfl

theorem breakOn_eq_none_iff : breakOn needle cs = none ↔ occursIn needle cs = false :=
  (Option.isSome_eq_false_iff.trans Option.isNone_iff_eq_none).symm

theorem occursIn_iff_infix : occursIn needle cs = true ↔ needle <:+: cs := by
  constructor
  · intro occurs
    obtain ⟨⟨before, after⟩, found⟩ := Option.isSome_iff_exists.mp occurs
    exact ⟨before, after, (eq_of_breakOn found).symm⟩
  · intro inside
    induction cs with
    | nil =>
      rw [List.infix_nil.mp inside]
      rfl
    | cons c cs ih =>
      rw [occursIn_cons, Bool.or_eq_true, List.isPrefixOf_iff_prefix]
      exact (List.infix_cons_iff.mp inside).imp_right ih

/-- A block is a block whatever comes after it. -/
theorem templateBlock?_append (found : templateBlock? cs = some (block, rest)) (other : List Char) :
    templateBlock? (block ++ other) = some (block, other) := by
  unfold templateBlock? at found
  split at found
  · next c cs =>
    simp only [Option.bind_eq_bind, Option.bind_eq_some_iff, Option.pure_def] at found
    obtain ⟨closer, closes, ⟨inner, after⟩, broken, same⟩ := found
    cases same
    have nonempty : closer ≠ [] := by
      unfold blockCloser? at closes
      split at closes <;> cases closes <;> exact List.cons_ne_nil _ _
    exact templateBlock?_of_breakOn closes (breakOn_of_breakOn nonempty broken other)
  · cases found

/-! ### Marks -/

/-- The characters that blocks begin and end with. -/
def isMark (c : Char) : Bool :=
  c = '{' || c = '}' || c = '%' || c = '#'

/-- A text without them. -/
def Unmarked (cs : List Char) : Prop :=
  ∀ c ∈ cs, isMark c = false

theorem unmarked_nil : Unmarked [] :=
  fun _ member => absurd member List.not_mem_nil

theorem unmarked_cons : Unmarked (c :: cs) ↔ isMark c = false ∧ Unmarked cs :=
  List.forall_mem_cons

theorem unmarked_head (first : isMark c = false) (cs : List Char) : ∀ d ∈ (c :: cs).head?, isMark d = false := by
  rintro d same
  cases same
  exact first

theorem exists_of_blockCloser? {closer : List Char} (closes : blockCloser? c = some closer) :
    isMark c = true ∧ ∃ mark, isMark mark = true ∧ closer = [mark, '}'] := by
  unfold blockCloser? at closes
  split at closes <;> cases closes <;> exact ⟨rfl, _, by decide, rfl⟩

theorem templateBlock?_eq_some : templateBlock? cs = some (block, rest) ↔
    ∃ c mark after inner, cs = '{' :: c :: after ∧ blockCloser? c = some [mark, '}'] ∧
      breakOn [mark, '}'] after = some (inner, rest) ∧ block = '{' :: c :: (inner ++ [mark, '}']) := by
  constructor
  · intro found
    unfold templateBlock? at found
    split at found
    · next c after =>
      simp only [Option.bind_eq_bind, Option.bind_eq_some_iff, Option.pure_def] at found
      obtain ⟨closer, closes, ⟨inner, behind⟩, broken, same⟩ := found
      obtain ⟨-, mark, -, rfl⟩ := exists_of_blockCloser? closes
      cases same
      exact ⟨c, mark, after, inner, rfl, closes, broken, rfl⟩
    · cases found
  · rintro ⟨c, mark, after, inner, rfl, closes, broken, rfl⟩
    exact templateBlock?_of_breakOn closes broken

theorem Unmarked.not_mem (unmarked : Unmarked cs) (mark : isMark c = true) : c ∉ cs := by
  intro member
  rw [unmarked c member] at mark
  cases mark

theorem breakOn_append_unmarked {front : List Char} (unmarked : Unmarked front) (mark : isMark c = true)
    (needle cs : List Char) :
    breakOn (c :: needle) (front ++ cs) = (breakOn (c :: needle) cs).map fun found => (front ++ found.1, found.2) :=
  breakOn_append_of_not_mem (unmarked.not_mem mark) needle cs

theorem breakOn_unmarked (unmarked : Unmarked cs) (mark : isMark c = true) : breakOn (c :: needle) cs = none :=
  breakOn_eq_none (unmarked.not_mem mark) needle

theorem occursIn_append_of_unmarked {front : List Char} (unmarked : Unmarked front) (mark : isMark c = true)
    (needle cs : List Char) : occursIn (c :: needle) (front ++ cs) = occursIn (c :: needle) cs := by
  unfold occursIn
  rw [breakOn_append_unmarked unmarked mark, Option.isSome_map]

theorem templateBlock?_of_unmarked (unmarked : isMark c = false) : templateBlock? (c :: cs) = none := by
  refine templateBlock?_eq_none ?_
  rintro rfl
  cases unmarked

theorem blocks_append_of_unmarked {front : List Char} (unmarked : Unmarked front) (cs : List Char) :
    blocks (front ++ cs) = blocks cs := by
  induction front with
  | nil => rfl
  | cons c front ih =>
    obtain ⟨first, others⟩ := unmarked_cons.mp unmarked
    rw [List.cons_append, blocks_cons (templateBlock?_of_unmarked first), ih others]

theorem blocks_of_unmarked (unmarked : Unmarked cs) : blocks cs = [] := by
  have all := blocks_append_of_unmarked unmarked []
  rw [List.append_nil] at all
  rw [all, blocks]

theorem of_mem_blocks (member : block ∈ blocks cs) : block <:+: cs ∧ ∃ inner, block = '{' :: (inner ++ ['}']) := by
  induction length : cs.length using Nat.strongRecOn generalizing cs with
  | ind n ih =>
    cases cs with
    | nil =>
      rw [blocks] at member
      cases member
    | cons c cs =>
      cases found : templateBlock? (c :: cs) with
      | some parts =>
        rw [blocks_of_templateBlock? found] at member
        rcases List.mem_cons.mp member with rfl | later
        · obtain ⟨d, mark, after, inner, _, _, _, same⟩ := templateBlock?_eq_some.mp found
          exact ⟨⟨[], parts.2, (eq_of_templateBlock? found).symm⟩, d :: (inner ++ [mark]), by simp [same]⟩
        · obtain ⟨inside, braces⟩ := ih _ (length ▸ length_lt_of_templateBlock? found) later rfl
          rw [eq_of_templateBlock? found]
          exact ⟨List.infix_append_of_infix_right inside, braces⟩
      | none =>
        rw [blocks_cons found] at member
        obtain ⟨inside, braces⟩ := ih cs.length (by rw [← length]; simp) member rfl
        exact ⟨List.infix_cons inside, braces⟩

/-! ### Rewriting between marks -/

/-- A text and what becomes of it if stretches without marks are replaced by others. None is taken away, but for one at
the end. -/
inductive Rewrites : List Char → List Char → Prop
  | last {cs ds : List Char} (unmarked : Unmarked cs) (unmarked' : Unmarked ds) : Rewrites cs ds
  | keep (c : Char) {cs ds : List Char} (rest : Rewrites cs ds) : Rewrites (c :: cs) (c :: ds)
  | change {xs ys cs ds : List Char} (nonempty : xs ≠ []) (nonempty' : ys ≠ []) (unmarked : Unmarked xs)
      (unmarked' : Unmarked ys) (rest : Rewrites cs ds) : Rewrites (xs ++ cs) (ys ++ ds)

namespace Rewrites

theorem refl (cs : List Char) : Rewrites cs cs := by
  induction cs with
  | nil => exact .last unmarked_nil unmarked_nil
  | cons c cs ih => exact .keep c ih

theorem symm (rewrites : Rewrites cs ds) : Rewrites ds cs := by
  induction rewrites with
  | last unmarked unmarked' => exact .last unmarked' unmarked
  | keep c _ ih => exact .keep c ih
  | change nonempty nonempty' unmarked unmarked' _ ih => exact .change nonempty' nonempty unmarked' unmarked ih

theorem append_unmarked {back : List Char} (unmarked : Unmarked back) (cs : List Char) : Rewrites (cs ++ back) cs := by
  induction cs with
  | nil => exact .last unmarked unmarked_nil
  | cons c cs ih => exact .keep c ih

theorem unmarked_of_nil (rewrites : Rewrites [] ds) : Unmarked ds := by
  generalize empty : [] = cs at rewrites
  cases rewrites with
  | last _ unmarked => exact unmarked
  | keep => cases empty
  | change nonempty => exact absurd (List.append_eq_nil_iff.mp empty.symm).1 nonempty

theorem of_mark (rewrites : Rewrites (c :: cs) ds) (mark : isMark c = true) :
    ∃ after, ds = c :: after ∧ Rewrites cs after := by
  generalize whole : c :: cs = text at rewrites
  have marked {front : List Char} (unmarked : Unmarked front) (nonempty : front ≠ []) {more : List Char}
      (same : c :: cs = front ++ more) : False := by
    cases front with
    | nil => exact nonempty rfl
    | cons d front =>
      cases same
      rw [(unmarked_cons.mp unmarked).1] at mark
      cases mark
  cases rewrites with
  | last unmarked =>
    have nonempty : text ≠ [] := whole ▸ List.cons_ne_nil _ _
    have same : c :: cs = text ++ [] := whole.trans (List.append_nil text).symm
    exact (marked unmarked nonempty same).elim
  | keep _ rest =>
    cases whole
    exact ⟨_, rfl, rest⟩
  | change nonempty _ unmarked => exact (marked unmarked nonempty whole).elim

theorem isPrefixOf {a b : Char} (rewrites : Rewrites cs ds) (first : isMark a = true) (second : isMark b = true)
    (starts : [a, b].isPrefixOf cs = true) : ∃ rest more, cs = a :: b :: rest ∧ ds = a :: b :: more ∧
      Rewrites rest more := by
  obtain ⟨rest, rfl⟩ := List.isPrefixOf_iff_prefix.mp starts
  obtain ⟨behind, rfl, later⟩ := rewrites.of_mark first
  obtain ⟨more, rfl, others⟩ := later.of_mark second
  exact ⟨rest, more, rfl, rfl, others⟩

theorem breakOn {a b : Char} (rewrites : Rewrites cs ds) (first : isMark a = true) (second : isMark b = true)
    (found : Text.breakOn [a, b] cs = some (inner, rest)) : ∃ inner' rest',
      Text.breakOn [a, b] ds = some (inner', rest') ∧ Rewrites (inner ++ [a, b]) (inner' ++ [a, b]) ∧
        Rewrites rest rest' := by
  induction rewrites generalizing inner with
  | last unmarked =>
    rw [breakOn_unmarked unmarked first] at found
    cases found
  | @keep c cs ds others ih =>
    rw [Text.breakOn] at found
    split at found
    · next starts =>
      cases found
      obtain ⟨rest, more, same, same', rewrites⟩ := (Rewrites.keep c others).isPrefixOf first second starts
      refine ⟨[], more, ?_, refl _, ?_⟩
      · rw [same']
        exact breakOn_append_self (List.cons_ne_nil a [b]) more
      · rwa [same]
    · next elsewhere =>
      obtain ⟨⟨before, after⟩, later, same⟩ := Option.map_eq_some_iff.mp found
      cases same
      obtain ⟨inner', rest', found', rewritesInner, rewritesRest⟩ := ih later
      have elsewhere' : ¬[a, b].isPrefixOf (c :: ds) = true := fun starts => elsewhere <| by
        obtain ⟨_, more, _, same, _⟩ := (Rewrites.keep c others).symm.isPrefixOf first second starts
        rw [same, List.isPrefixOf_iff_prefix]
        exact ⟨more, rfl⟩
      refine ⟨c :: inner', rest', ?_, .keep c rewritesInner, rewritesRest⟩
      rw [Text.breakOn, if_neg elsewhere', found']
      rfl
  | @change xs ys cs ds nonempty nonempty' unmarked unmarked' others ih =>
    rw [breakOn_append_unmarked unmarked first] at found
    obtain ⟨⟨before, after⟩, later, same⟩ := Option.map_eq_some_iff.mp found
    cases same
    obtain ⟨inner', rest', found', rewritesInner, rewritesRest⟩ := ih later
    refine ⟨ys ++ inner', rest', ?_, ?_, rewritesRest⟩
    · rw [breakOn_append_unmarked unmarked' first, found']
      rfl
    · rw [List.append_assoc, List.append_assoc]
      exact .change nonempty nonempty' unmarked unmarked' rewritesInner

theorem occursIn_eq {a b : Char} (rewrites : Rewrites cs ds) (first : isMark a = true) (second : isMark b = true) :
    occursIn [a, b] cs = occursIn [a, b] ds := by
  have one {cs ds : List Char} (rewrites : Rewrites cs ds) (occurs : occursIn [a, b] cs = true) :
      occursIn [a, b] ds = true := by
    obtain ⟨⟨inner, rest⟩, found⟩ := Option.isSome_iff_exists.mp occurs
    obtain ⟨_, _, found', _⟩ := rewrites.breakOn first second found
    exact Option.isSome_of_eq_some found'
  exact Bool.eq_iff_iff.mpr ⟨one rewrites, one rewrites.symm⟩

theorem templateBlock? (rewrites : Rewrites cs ds) (found : Text.templateBlock? cs = some (block, rest)) :
    ∃ block' rest', Text.templateBlock? ds = some (block', rest') ∧ Rewrites block block' ∧
      Rewrites rest rest' := by
  obtain ⟨c, mark, after, inner, rfl, closes, broken, rfl⟩ := templateBlock?_eq_some.mp found
  obtain ⟨opens, mark', closing, same⟩ := exists_of_blockCloser? closes
  obtain rfl : mark = mark' := by simpa using same
  obtain ⟨behind, rfl, later⟩ := rewrites.of_mark (by decide)
  obtain ⟨after', rfl, others⟩ := later.of_mark opens
  obtain ⟨inner', rest', found', rewritesInner, rewritesRest⟩ := others.breakOn closing (by decide) broken
  exact ⟨_, rest', templateBlock?_eq_some.mpr ⟨c, mark, after', inner', rfl, closes, found', rfl⟩,
    .keep _ (.keep _ rewritesInner), rewritesRest⟩

theorem templateBlock?_eq_none (rewrites : Rewrites cs ds) (absent : Text.templateBlock? cs = none) :
    Text.templateBlock? ds = none := by
  refine Option.eq_none_iff_forall_ne_some.mpr fun parts found => ?_
  obtain ⟨_, _, found', _⟩ := rewrites.symm.templateBlock? found
  rw [absent] at found'
  cases found'

end Rewrites

/-! ### Changes of a text stretch by stretch -/

/-- The first step of a change: it ends, keeps a character, or replaces a stretch without marks. -/
inductive Step (change : List Char → List Char) : List Char → Prop
  | last {cs : List Char} (unmarked : Unmarked cs) (unmarked' : Unmarked (change cs)) : Step change cs
  | keep {c : Char} {cs : List Char} (same : change (c :: cs) = c :: change cs) : Step change (c :: cs)
  | change {xs ys cs : List Char} (nonempty : xs ≠ []) (nonempty' : ys ≠ []) (unmarked : Unmarked xs)
      (unmarked' : Unmarked ys) (same : change (xs ++ cs) = ys ++ change cs) : Step change (xs ++ cs)

/-- A change that works in steps and begins anew after a closing brace. -/
structure Blockwise (change : List Char → List Char) : Prop where
  step : ∀ cs, Step change cs
  nil : change [] = []
  anew : ∀ front, ∃ changed, ∀ cs, change (front ++ '}' :: cs) = changed ++ '}' :: change cs

namespace Blockwise

variable {change : List Char → List Char}

theorem rewrites (blockwise : Blockwise change) (cs : List Char) : Rewrites cs (change cs) := by
  induction length : cs.length using Nat.strongRecOn generalizing cs with
  | ind n ih =>
    cases blockwise.step cs with
    | last unmarked unmarked' => exact .last unmarked unmarked'
    | @keep c cs same =>
      rw [same]
      exact .keep c (ih cs.length (by rw [← length]; simp) cs rfl)
    | @change xs ys cs nonempty nonempty' unmarked unmarked' same =>
      rw [same]
      have shorter : cs.length < n := by
        have := List.length_pos_iff.mpr nonempty
        rw [← length, List.length_append]
        omega
      exact .change nonempty nonempty' unmarked unmarked' (ih cs.length shorter cs rfl)

theorem templateBlock? (blockwise : Blockwise change) (found : Text.templateBlock? cs = some (block, rest)) :
    Text.templateBlock? (change cs) = some (change block, change rest) := by
  obtain ⟨front, rfl⟩ : ∃ front, block = front ++ ['}'] := by
    obtain ⟨c, mark, after, inner, _, _, _, rfl⟩ := templateBlock?_eq_some.mp found
    exact ⟨'{' :: c :: (inner ++ [mark]), by simp⟩
  obtain ⟨changed, anew⟩ := blockwise.anew front
  have alone : change (front ++ ['}']) = changed ++ ['}'] := by rw [anew, blockwise.nil]
  have whole : change cs = change (front ++ ['}']) ++ change rest := by
    rw [eq_of_templateBlock? found, alone, List.append_assoc, List.append_assoc]
    exact anew rest
  have itself := templateBlock?_append found []
  rw [List.append_nil] at itself
  obtain ⟨block', rest', found', _, nothing⟩ := (blockwise.rewrites _).templateBlock? itself
  -- Behind the closing brace there is nothing, so the block found in the changed block is all of it.
  have empty : rest' = [] := by
    have split := eq_of_templateBlock? found'
    rw [alone] at split
    rcases List.eq_nil_or_concat rest' with empty | ⟨more, last, rfl⟩
    · exact empty
    · rw [List.concat_eq_append, ← List.append_assoc] at split
      have same : ['}'] = [last] := List.append_inj_right' split rfl
      cases same
      cases nothing.unmarked_of_nil '}' (by simp)
  subst empty
  have all := eq_of_templateBlock? found'
  rw [List.append_nil] at all
  rw [← all] at found'
  rw [whole, templateBlock?_append found']

theorem blocks (blockwise : Blockwise change) (cs : List Char) :
    Text.blocks (change cs) = (Text.blocks cs).map change := by
  induction length : cs.length using Nat.strongRecOn generalizing cs with
  | ind n ih =>
    have shorter {front behind : List Char} (nonempty : front ≠ []) (same : cs = front ++ behind) :
        behind.length < n := by
      have := List.length_pos_iff.mpr nonempty
      rw [← length, same, List.length_append]
      omega
    cases blockwise.step cs with
    | last unmarked unmarked' => rw [blocks_of_unmarked unmarked, blocks_of_unmarked unmarked', List.map_nil]
    | @keep c cs same =>
      cases found : Text.templateBlock? (c :: cs) with
      | some parts =>
        obtain ⟨block, rest⟩ := parts
        have fewer := shorter (templateBlock?_ne_nil found) (eq_of_templateBlock? found)
        rw [blocks_of_templateBlock? found, blocks_of_templateBlock? (blockwise.templateBlock? found), List.map_cons,
          ih rest.length fewer rest rfl]
      | none =>
        have absent := (blockwise.rewrites (c :: cs)).templateBlock?_eq_none found
        rw [same] at absent ⊢
        rw [blocks_cons found, blocks_cons absent]
        exact ih cs.length (shorter (List.cons_ne_nil c []) rfl) cs rfl
    | @change xs ys cs nonempty nonempty' unmarked unmarked' same =>
      rw [same, blocks_append_of_unmarked unmarked, blocks_append_of_unmarked unmarked']
      exact ih cs.length (shorter nonempty rfl) cs rfl

end Blockwise

/-! ### Blocks that are left open -/

/-- No block begins in a text and ends in the other one behind it. -/
def Apart (other : List Char) : List Char → Prop
  | [] => True
  | c :: cs =>
    match _h : templateBlock? (c :: cs) with
    | some (_, rest) => Apart other rest
    | none => templateBlock? (c :: cs ++ other) = none ∧ Apart other cs
  termination_by cs => cs.length
  decreasing_by
    · exact length_lt_of_templateBlock? _h
    · simp

variable {other more : List Char}

theorem apart_nil : Apart other [] := by
  rw [Apart]
  trivial

theorem apart_of_templateBlock? (found : templateBlock? cs = some (block, rest)) :
    Apart other cs ↔ Apart other rest := by
  cases cs with
  | nil => cases found
  | cons c cs =>
    rw [Apart]
    split
    · next same =>
      rw [found] at same
      cases same
      rfl
    · next none =>
      rw [found] at none
      cases none

theorem apart_cons (absent : templateBlock? (c :: cs) = none) :
    Apart other (c :: cs) ↔ templateBlock? (c :: cs ++ other) = none ∧ Apart other cs := by
  rw [Apart]
  split
  · next found =>
    rw [absent] at found
    cases found
  · rfl

/-- What holds for the texts that a block begins with, or that none begins with, holds for all texts. -/
theorem block_induction {motive : List Char → Prop} (nil : motive [])
    (block : ∀ cs block rest, templateBlock? cs = some (block, rest) → motive rest → motive cs)
    (cons : ∀ c cs, templateBlock? (c :: cs) = none → motive cs → motive (c :: cs)) (cs : List Char) :
    motive cs := by
  induction length : cs.length using Nat.strongRecOn generalizing cs with
  | ind n ih =>
    cases cs with
    | nil => exact nil
    | cons c cs =>
      cases found : templateBlock? (c :: cs) with
      | some parts => exact block _ _ _ found (ih _ (length ▸ length_lt_of_templateBlock? found) _ rfl)
      | none => exact cons c cs found (ih _ (by rw [← length]; simp) _ rfl)

/-- A block that is found in a text is found whatever comes behind the text. -/
theorem templateBlock?_append_of_some (found : templateBlock? cs = some (block, rest)) (other : List Char) :
    templateBlock? (cs ++ other) = some (block, rest ++ other) := by
  rw [eq_of_templateBlock? found, List.append_assoc]
  exact templateBlock?_append found (rest ++ other)

/-- If no block begins in the first of two texts and ends in the second, those that end in a third one begin in
either of them. -/
theorem apart_append (apart : Apart more cs) :
    Apart other (cs ++ more) ↔ Apart (more ++ other) cs ∧ Apart other more := by
  induction cs using block_induction with
  | nil => simp [apart_nil]
  | block cs block rest found ih =>
    rw [apart_of_templateBlock? (templateBlock?_append_of_some found more), apart_of_templateBlock? found]
    exact ih ((apart_of_templateBlock? found).mp apart)
  | cons c cs absent ih =>
    obtain ⟨here, later⟩ := (apart_cons absent).mp apart
    rw [List.cons_append] at here ⊢
    rw [apart_cons here, apart_cons absent, ih later, and_assoc, List.cons_append, List.cons_append,
      List.append_assoc]

theorem apart_cons_of_unmarked (unmarked : isMark c = false) : Apart other (c :: cs) ↔ Apart other cs := by
  have absent (cs : List Char) : templateBlock? (c :: cs) = none := templateBlock?_of_unmarked unmarked
  rw [apart_cons (absent cs)]
  exact and_iff_right (absent _)

theorem apart_empty (cs : List Char) : Apart [] cs := by
  induction cs using block_induction with
  | nil => exact apart_nil
  | block cs block rest found ih => exact (apart_of_templateBlock? found).mpr ih
  | cons c cs absent ih => exact (apart_cons absent).mpr ⟨by rwa [List.append_nil], ih⟩

/-! ### Scans up to a place -/

theorem scan_stops (stop : List Char → Bool) (cs : List Char) :
    (scan stop cs).2 = [] ∨ stop (scan stop cs).2 = true := by
  fun_induction scan stop cs with
  | case1 => exact Or.inl rfl
  | case2 c cs block after found taken rest same ih =>
    rw [same] at ih
    exact ih
  | case3 c cs _ stops => exact Or.inr stops
  | case4 c cs _ _ taken rest same ih =>
    rw [same] at ih
    exact ih

theorem scan_of_stops {stop : List Char → Bool} (unmarked : ∀ c ∈ cs.head?, isMark c = false) (stops : stop cs = true) :
    scan stop cs = ([], cs) := by
  cases cs with
  | nil => rw [scan]
  | cons c cs =>
    rw [scan]
    split
    · next found =>
      rw [templateBlock?_of_unmarked (unmarked c rfl)] at found
      cases found
    · rw [if_pos stops]

theorem scan_append_of_some {stop : List Char → Bool} (found : templateBlock? cs = some (block, rest))
    (other : List Char) :
    scan stop (cs ++ other) = (block ++ (scan stop (rest ++ other)).1, (scan stop (rest ++ other)).2) := by
  have longer := templateBlock?_append_of_some found other
  cases cs with
  | nil => cases found
  | cons c cs => exact scan_of_templateBlock? longer

theorem scan_of_none {stop : List Char → Bool} (absent : templateBlock? (c :: cs) = none) :
    scan stop (c :: cs) =
      if stop (c :: cs) then ([], c :: cs) else (c :: (scan stop cs).1, (scan stop cs).2) := by
  rw [scan]
  split
  · next found =>
    rw [absent] at found
    cases found
  · rfl

theorem scan_cons_cases {stop : List Char → Bool} (absent : templateBlock? (c :: cs) = none)
    (scanned : scan stop (c :: cs ++ other) = (c :: cs, other)) :
    templateBlock? (c :: cs ++ other) = none ∧ stop (c :: cs ++ other) = false ∧
      scan stop (cs ++ other) = (cs, other) := by
  cases found : templateBlock? (c :: cs ++ other) with
  | some parts =>
    -- A block that ends behind the text would have been passed as a whole.
    obtain ⟨block, rest⟩ := parts
    rw [List.cons_append] at found scanned
    rw [scan_of_templateBlock? found] at scanned
    have whole := congrArg Prod.fst scanned
    have inside := templateBlock?_append found (scan stop rest).1
    rw [show block ++ (scan stop rest).1 = c :: cs from whole, absent] at inside
    cases inside
  | none =>
    rw [List.cons_append] at found scanned ⊢
    rw [scan_of_none found] at scanned
    split at scanned
    · cases congrArg Prod.fst scanned
    · next passes =>
      obtain ⟨first, second⟩ := Prod.ext_iff.mp scanned
      exact ⟨rfl, Bool.eq_false_iff.mpr passes, Prod.ext (List.cons.inj first).2 second⟩

theorem scan_block_cases {stop : List Char → Bool} (found : templateBlock? cs = some (block, rest))
    (scanned : scan stop (cs ++ other) = (cs, other)) : scan stop (rest ++ other) = (rest, other) := by
  rw [scan_append_of_some found, eq_of_templateBlock? found] at scanned
  obtain ⟨first, second⟩ := Prod.ext_iff.mp scanned
  exact Prod.ext (List.append_cancel_left first) second

theorem apart_of_scan {stop : List Char → Bool} (scanned : scan stop (cs ++ other) = (cs, other)) :
    Apart other cs := by
  induction cs using block_induction with
  | nil => exact apart_nil
  | block cs block rest found ih => exact (apart_of_templateBlock? found).mpr (ih (scan_block_cases found scanned))
  | cons c cs absent ih =>
    obtain ⟨here, _, later⟩ := scan_cons_cases absent scanned
    exact (apart_cons absent).mpr ⟨here, ih later⟩

/-- A scan that stops behind a text stops there as well if something else comes behind it, unless that closes a block
that was left open or lets the scan go on. -/
theorem scan_again {stop : List Char → Bool} (scanned : scan stop (cs ++ other) = (cs, other)) (apart : Apart more cs)
    (alike : ∀ c back, stop (c :: back ++ other) = stop (c :: back ++ more)) (stops : scan stop more = ([], more)) :
    scan stop (cs ++ more) = (cs, more) := by
  induction cs using block_induction with
  | nil => exact stops
  | block cs block rest found ih =>
    have later := ih (scan_block_cases found scanned) ((apart_of_templateBlock? found).mp apart)
    rw [scan_append_of_some found, later, ← eq_of_templateBlock? found]
  | cons c cs absent ih =>
    obtain ⟨_, passes, scanned⟩ := scan_cons_cases absent scanned
    obtain ⟨here, apart⟩ := (apart_cons absent).mp apart
    rw [alike] at passes
    rw [List.cons_append] at here passes ⊢
    rw [scan_of_none here, passes, if_neg Bool.false_ne_true, ih scanned apart]

theorem scan_passes {stop : List Char → Bool} (apart : Apart more cs)
    (passes : ∀ c ∈ cs, ∀ back, stop (c :: back) = false)
    (stops : scan stop more = ([], more)) : scan stop (cs ++ more) = (cs, more) := by
  induction cs using block_induction with
  | nil => exact stops
  | block cs block rest found ih =>
    have inside : rest ⊆ cs := eq_of_templateBlock? found ▸ List.subset_append_right block rest
    have later := ih ((apart_of_templateBlock? found).mp apart) fun c member => passes c (inside member)
    rw [scan_append_of_some found, later, ← eq_of_templateBlock? found]
  | cons c cs absent ih =>
    obtain ⟨here, apart⟩ := (apart_cons absent).mp apart
    have first := passes c List.mem_cons_self (cs ++ more)
    rw [List.cons_append] at here ⊢
    rw [scan_of_none here, first, if_neg Bool.false_ne_true,
      ih apart fun d member => passes d (List.mem_cons_of_mem c member)]

/-! ### What keeps texts apart -/

/-- Behind a text, an opening in it is closed only by what is found behind it. -/
theorem breakOn_append_of_absent {mark : Char} (absent : breakOn [mark, '}'] cs = none)
    (apart : other.head? ≠ some '}') :
    breakOn [mark, '}'] (cs ++ other) = (breakOn [mark, '}'] other).map fun found => (cs ++ found.1, found.2) := by
  induction cs with
  | nil => simp
  | cons c cs ih =>
    rw [breakOn] at absent
    split at absent
    · cases absent
    · next elsewhere =>
      have elsewhere' : ¬[mark, '}'].isPrefixOf (c :: (cs ++ other)) = true := fun starts => elsewhere <| by
        cases cs with
        | nil =>
          obtain ⟨rest, same⟩ := List.isPrefixOf_iff_prefix.mp starts
          cases same
          exact absurd rfl apart
        | cons d cs =>
          obtain ⟨rest, same⟩ := List.isPrefixOf_iff_prefix.mp starts
          cases same
          exact List.isPrefixOf_iff_prefix.mpr ⟨cs, rfl⟩
      rw [List.cons_append, breakOn, if_neg elsewhere', ih (Option.map_eq_none_iff.mp absent), Option.map_map]
      rfl

theorem apart_of_closers (begins : ∀ c ∈ other.head?, isMark c = false)
    (begins' : ∀ c ∈ more.head?, isMark c = false)
    (closers : ∀ mark, isMark mark = true → occursIn [mark, '}'] more = true → occursIn [mark, '}'] other = true)
    (apart : Apart other cs) : Apart more cs := by
  have noBrace {cs : List Char} (begins : ∀ c ∈ cs.head?, isMark c = false) : cs.head? ≠ some '}' :=
    fun brace => absurd (begins '}' brace) (by decide)
  induction cs using block_induction with
  | nil => exact apart_nil
  | block cs block rest found ih =>
    exact (apart_of_templateBlock? found).mpr (ih ((apart_of_templateBlock? found).mp apart))
  | cons c cs absent ih =>
    obtain ⟨here, later⟩ := (apart_cons absent).mp apart
    refine (apart_cons absent).mpr ⟨?_, ih later⟩
    refine Option.eq_none_iff_forall_ne_some.mpr fun parts found => ?_
    obtain ⟨block, rest⟩ := parts
    obtain ⟨d, mark, after, inner, same, closes, broken, rfl⟩ := templateBlock?_eq_some.mp found
    obtain ⟨opens, mark', marked, sameCloser⟩ := exists_of_blockCloser? closes
    obtain rfl : mark = mark' := by simpa using sameCloser
    obtain ⟨rfl, behind⟩ := List.cons.inj same
    cases cs with
    | nil =>
      obtain rfl : more = d :: after := behind
      rw [begins' d rfl] at opens
      cases opens
    | cons e cs =>
      obtain ⟨rfl, rfl⟩ := List.cons.inj behind
      have inside : breakOn [mark, '}'] cs = none := by
        refine Option.eq_none_iff_forall_ne_some.mpr fun parts closed => ?_
        rw [templateBlock?_of_breakOn closes closed] at absent
        cases absent
      have broken : breakOn [mark, '}'] (cs ++ more) = some (inner, rest) := broken
      rw [breakOn_append_of_absent inside (noBrace begins')] at broken
      obtain ⟨_, closed, _⟩ := Option.map_eq_some_iff.mp broken
      obtain ⟨_, open_⟩ := Option.isSome_iff_exists.mp (closers mark marked (Option.isSome_of_eq_some closed))
      have reached : breakOn [mark, '}'] (cs ++ other) = _ := breakOn_append_of_absent inside (noBrace begins)
      rw [open_] at reached
      rw [List.cons_append, List.cons_append, templateBlock?_of_breakOn closes reached] at here
      cases here

theorem apart_of_no_closer (begins : ∀ c ∈ more.head?, isMark c = false)
    (closers : ∀ mark, isMark mark = true → occursIn [mark, '}'] more = false) (cs : List Char) : Apart more cs := by
  refine apart_of_closers (by simp) begins (fun mark marked closes => ?_) (apart_empty cs)
  rw [closers mark marked] at closes
  cases closes

theorem apart_of_unmarked (unmarked : Unmarked more) (cs : List Char) : Apart more cs := by
  refine apart_of_no_closer (fun c first => unmarked c (List.mem_of_mem_head? first)) (fun mark marked => ?_) cs
  exact breakOn_eq_none_iff.mp (breakOn_unmarked unmarked marked)

end MarkupFormat.Text
