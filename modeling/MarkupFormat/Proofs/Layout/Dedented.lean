import MarkupFormat.Layout.Indentation

/-!
# Steps of indentation undone

Whatever led to an indentation, its text is that of its recorded steps (`Replayed`). So a dedent undoes the move before
it if that left a step (`align_dedent_move`). An alignment by nothing leaves none, and the dedent takes the step before.
-/

namespace MarkupFormat.Layout

/-- What a node does to the indentation of its body. -/
inductive Move where
  | indent
  | align (kind : AlignKind)
  deriving DecidableEq, Repr

/-- The step that a move records. -/
def Move.step? : Move → Option IndentStep
  | .indent => some .indent
  | .align (.width columns) => if columns = 0 then none else some (.columns columns)
  | .align (.text content) => if content = "" then none else some (.text content)
  | .align _ => none

namespace Indentation

variable {config : Config} {ind : Indentation}

/-- The indentation after a move. -/
def move (config : Config) (ind : Indentation) : Move → Indentation
  | .indent => ind.indent config
  | .align kind => ind.align config kind

/-- The indentation after several moves from the first column. -/
def reached (config : Config) (moves : List Move) : Indentation :=
  moves.foldl (move config) none

/-- The same is written after a new line, and there is the same to go back to. -/
def Alike (ind other : Indentation) : Prop :=
  ind.value = other.value ∧ ind.length = other.length ∧ ind.root = other.root

/-- Steps that add something. -/
def IsProper : IndentStep → Prop
  | .indent => True
  | .columns count => count ≠ 0
  | .text content => content ≠ ""

/-! ### Recorded steps -/

/-- The text of an indentation is that of its steps, as is that of every root it can go back to. -/
inductive Replayed (config : Config) : Indentation → Prop where
  | intro {steps : List IndentStep} {root : Option Indentation} (proper : ∀ step ∈ steps, IsProper step)
      (around : ∀ outer, root = some outer → Replayed config outer) : Replayed config (ofSteps config steps root)

theorem Replayed.eq_ofSteps (replayed : ind.Replayed config) : ind = ofSteps config ind.steps ind.root := by
  cases replayed with
  | intro => rfl

theorem Replayed.proper (replayed : ind.Replayed config) : ∀ step ∈ ind.steps, IsProper step := by
  cases replayed with
  | intro proper => exact proper

theorem Replayed.around (replayed : ind.Replayed config) {outer : Indentation} (root : ind.root = some outer) :
    outer.Replayed config := by
  cases replayed with
  | intro _ around => exact around outer root

theorem replayed_none : none.Replayed config := by
  have proper : ∀ step ∈ ([] : List IndentStep), IsProper step := fun _ member => absurd member List.not_mem_nil
  exact .intro proper nofun

theorem Replayed.push {step : IndentStep} (replayed : ind.Replayed config) (proper : IsProper step) :
    (ind.push config step).Replayed config := by
  refine .intro (fun other member => ?_) fun outer root => replayed.around root
  rcases List.mem_append.mp member with member | member
  · exact replayed.proper other member
  · rw [List.mem_singleton.mp member]
    exact proper

/-- A move adds a step, or it is an alignment by nothing, or it goes back or marks a root. -/
theorem move_cases (config : Config) (move : Move) :
    (∃ step, move.step? = some step ∧ IsProper step ∧ ∀ ind, Indentation.move config ind move = ind.push config step) ∨
    (move.step? = .none ∧ ∀ ind, Indentation.move config ind move = ind) ∨
    move = .align .dedent ∨ move = .align .dedentToRoot ∨ move = .align .markAsRoot := by
  cases move with
  | indent => exact .inl ⟨.indent, rfl, trivial, fun _ => rfl⟩
  | align kind =>
    cases kind with
    | width columns =>
      by_cases nothing : columns = 0
      · exact .inr (.inl ⟨if_pos nothing, fun _ => if_pos nothing⟩)
      · exact .inl ⟨.columns columns, if_neg nothing, nothing, fun _ => if_neg nothing⟩
    | text content =>
      by_cases nothing : content = ""
      · exact .inr (.inl ⟨if_pos nothing, fun _ => if_pos nothing⟩)
      · exact .inl ⟨.text content, if_neg nothing, nothing, fun _ => if_neg nothing⟩
    | dedent => exact .inr (.inr (.inl rfl))
    | dedentToRoot => exact .inr (.inr (.inr (.inl rfl)))
    | markAsRoot => exact .inr (.inr (.inr (.inr rfl)))

theorem Replayed.move (replayed : ind.Replayed config) (move : Move) : (ind.move config move).Replayed config := by
  rcases move_cases config move with ⟨step, -, proper, pushes⟩ | ⟨-, stays⟩ | rfl | rfl | rfl
  · rw [pushes]
    exact replayed.push proper
  · rwa [stays]
  · refine .intro (fun step member => ?_) fun outer root => replayed.around root
    exact replayed.proper step (List.dropLast_subset _ member)
  · show (ind.root.getD .none).Replayed config
    cases root : ind.root with
    | none => exact replayed_none
    | some outer => exact replayed.around root
  · show Replayed config { ind with root := some ind }
    cases replayed with
    | intro proper around =>
      refine .intro proper fun outer isRoot => ?_
      cases isRoot
      exact .intro proper around

theorem replayed_reached (config : Config) (moves : List Move) : (reached config moves).Replayed config := by
  have onwards (ind : Indentation) (replayed : ind.Replayed config) :
      (moves.foldl (move config) ind).Replayed config := by
    induction moves generalizing ind with
    | nil => exact replayed
    | cons first moves ih => exact ih _ (replayed.move first)
  exact onwards none replayed_none

/-! ### Steps undone -/

theorem Replayed.align_dedent_push (replayed : ind.Replayed config) (step : IndentStep) :
    (ind.push config step).align config .dedent = ind := by
  show ofSteps config (ind.steps ++ [step]).dropLast ind.root = ind
  rw [List.dropLast_concat]
  exact replayed.eq_ofSteps.symm

namespace Replay

variable {replay : Replay}

theorem toList_run (c : Char) (count : Nat) : (run c count).toList = List.replicate count c := by
  unfold run
  rw [String.toList_ofList]

theorem spaces_flush (config : Config) (replay : Replay) : (replay.flush config).spaces = 0 := by
  unfold flush
  split <;> rfl

/-- Columns are pending only if steps are. -/
theorem spaces_eq_zero (config : Config) (steps : List IndentStep)
    (none : (steps.foldl (step config) {}).tabs = 0) : (steps.foldl (step config) {}).spaces = 0 := by
  rcases List.eq_nil_or_concat steps with rfl | ⟨before, last, rfl⟩
  · rfl
  · rw [List.concat_eq_append, List.foldl_append] at none ⊢
    cases last with
    | columns count => exact absurd none (Nat.succ_ne_zero _)
    | indent =>
      unfold step
      dsimp only
      split <;> exact spaces_flush _ _
    | text content => exact spaces_flush _ _

/-- The characters of a text whose pending columns are written as spaces. -/
theorem toList_flushSpaces (replay : Replay) :
    replay.flushSpaces.value.toList = replay.value.toList ++ List.replicate replay.spaces ' ' := by
  show (replay.value ++ run ' ' replay.spaces).toList = _
  rw [String.toList_append, toList_run]

theorem toList_flush (config : Config) (replay : Replay) :
    (replay.flush config).value.toList = replay.value.toList ++
      if config.useTabs then List.replicate replay.tabs '\t' else List.replicate replay.spaces ' ' := by
  unfold flush
  split
  · show (replay.value ++ run '\t' replay.tabs).toList = _
    rw [String.toList_append, toList_run]
  · exact replay.toList_flushSpaces

/-- Pending columns that become tabs are not written as they were. -/
theorem tabs_append_eq_spaces_iff {tabs spaces : Nat} {rest : List Char} (pending : tabs = 0 → spaces = 0) :
    List.replicate tabs '\t' ++ rest = List.replicate spaces ' ' ↔ tabs = 0 ∧ rest = [] := by
  constructor
  · intro same
    cases tabs with
    | zero =>
      rw [pending rfl] at same
      exact ⟨rfl, (List.append_eq_nil_iff.mp same).2⟩
    | succ tabs =>
      have tab : '\t' ∈ List.replicate spaces ' ' := by
        rw [← same]
        exact List.mem_append_left _ (List.mem_replicate.mpr ⟨Nat.succ_ne_zero _, rfl⟩)
      cases List.eq_of_mem_replicate tab
  · rintro ⟨rfl, rfl⟩
    rw [pending rfl]
    rfl

/-- What is written after the pending columns shows, and so do these if they become tabs. -/
theorem flush_append_eq_iff {rest : List Char} (pending : replay.tabs = 0 → replay.spaces = 0) :
    (replay.flush config).value.toList ++ rest = replay.flushSpaces.value.toList ↔
      rest = [] ∧ (config.useTabs = true → replay.tabs = 0) := by
  rw [toList_flush, toList_flushSpaces, List.append_assoc, List.append_cancel_left_eq]
  split
  · next useTabs => rw [tabs_append_eq_spaces_iff pending, and_comm, useTabs, imp_iff_right rfl]
  · next useSpaces => rw [List.append_right_eq_self, and_iff_left fun useTabs => absurd useTabs useSpaces]

theorem toList_step_indent (config : Config) (replay : Replay) :
    (replay.step config .indent).flushSpaces.value.toList = (replay.flush config).value.toList ++
      if config.useTabs then ['\t'] else List.replicate config.tabWidth ' ' := by
  rw [toList_flushSpaces]
  unfold step
  dsimp only
  split
  · show ((replay.flush config).value ++ run '\t' 1).toList ++ List.replicate (replay.flush config).spaces ' ' = _
    rw [String.toList_append, toList_run, spaces_flush]
    exact List.append_nil _
  · show ((replay.flush config).value ++ run ' ' config.tabWidth).toList ++
      List.replicate (replay.flush config).spaces ' ' = _
    rw [String.toList_append, toList_run, spaces_flush]
    exact List.append_nil _

theorem toList_step_text (config : Config) (replay : Replay) (content : String) :
    (replay.step config (.text content)).flushSpaces.value.toList =
      (replay.flush config).value.toList ++ content.toList := by
  rw [toList_flushSpaces]
  show ((replay.flush config).value ++ content).toList ++ List.replicate (replay.flush config).spaces ' ' = _
  rw [String.toList_append, spaces_flush]
  exact List.append_nil _

/-- What a proper step adds is seen, unless it is a step of indentation of no width. -/
theorem toList_step_eq_iff {added : IndentStep} (proper : IsProper added)
    (pending : replay.tabs = 0 → replay.spaces = 0) :
    (replay.step config added).flushSpaces.value.toList = replay.flushSpaces.value.toList ↔
      added = .indent ∧ config.useTabs = false ∧ config.tabWidth = 0 := by
  cases added with
  | indent =>
    rw [toList_step_indent, flush_append_eq_iff pending]
    cases config.useTabs with
    | true => simp
    | false => simp
  | columns count =>
    rw [toList_flushSpaces, toList_flushSpaces]
    show replay.value.toList ++ List.replicate (replay.spaces + count) ' ' = _ ↔ _
    rw [List.append_cancel_left_eq]
    refine iff_of_false (fun same => proper ?_) nofun
    have lengths := congrArg List.length same
    rw [List.length_replicate, List.length_replicate] at lengths
    omega
  | text content =>
    rw [toList_step_text, flush_append_eq_iff pending]
    exact iff_of_false (fun same => proper (String.toList_eq_nil_iff.mp same.1)) nofun

end Replay

/-! ### Dedents -/

theorem value_ofSteps_concat_iff (config : Config) (steps : List IndentStep) (root : Option Indentation)
    {step : IndentStep} (proper : IsProper step) :
    (ofSteps config (steps ++ [step]) root).value = (ofSteps config steps root).value ↔
      step = .indent ∧ config.useTabs = false ∧ config.tabWidth = 0 := by
  rw [← Replay.toList_step_eq_iff proper (Replay.spaces_eq_zero config steps), String.toList_inj]
  unfold ofSteps
  rw [List.foldl_append]
  rfl

theorem length_ofSteps_concat {steps : List IndentStep} {root : Option Indentation} (useSpaces : config.useTabs = false)
    (none : config.tabWidth = 0) :
    (ofSteps config (steps ++ [.indent]) root).length = (ofSteps config steps root).length := by
  unfold ofSteps
  rw [List.foldl_append]
  simp [Replay.step, Replay.flush, Replay.flushSpaces, Replay.addSpaces, useSpaces, none]

/-- Without a step before it, a dedent takes one of the steps that led to the indentation. This shows unless there is no
such step, or it has no width. -/
theorem Replayed.alike_dedent_iff (replayed : ind.Replayed config) :
    (ind.align config .dedent).Alike ind ↔
      ind.steps = [] ∨ ind.steps.getLast? = some .indent ∧ config.useTabs = false ∧ config.tabWidth = 0 := by
  cases replayed with
  | @intro steps root proper around =>
    show (ofSteps config steps.dropLast root).Alike (ofSteps config steps root) ↔ steps = [] ∨ _
    rcases List.eq_nil_or_concat steps with rfl | ⟨before, step, rfl⟩
    · exact iff_of_true ⟨rfl, rfl, rfl⟩ (.inl rfl)
    · have added := value_ofSteps_concat_iff config before root (proper step (by simp))
      rw [List.concat_eq_append, List.dropLast_concat, or_iff_right (by simp)]
      show _ ↔ (before ++ [step]).getLast? = _ ∧ _
      rw [List.getLast?_concat, Option.some.injEq, ← added]
      refine ⟨fun alike => alike.1.symm, fun same => ⟨same.symm, ?_, rfl⟩⟩
      obtain ⟨rfl, useSpaces, none⟩ := added.mp same
      exact (length_ofSteps_concat useSpaces none).symm

/-- However an indentation was reached, its text is that of its steps, and a dedent undoes whatever move left a step. An
alignment by nothing changes nothing, so a dedent within it undoes the move before. -/
theorem align_dedent_move (config : Config) (moves : List Move) :
    reached config moves = ofSteps config (reached config moves).steps (reached config moves).root ∧
    (∀ move step, move.step? = some step →
      ((reached config moves).move config move).align config .dedent = reached config moves) ∧
    ∀ kind, kind = .width 0 ∨ kind = .text "" →
      (reached config moves).align config kind = reached config moves ∧
      ((((reached config moves).align config kind).align config .dedent).Alike (reached config moves) ↔
        (reached config moves).steps = [] ∨
          (reached config moves).steps.getLast? = some .indent ∧ config.useTabs = false ∧ config.tabWidth = 0) := by
  have replayed := replayed_reached config moves
  refine ⟨replayed.eq_ofSteps, fun move step records => ?_, fun kind nothing => ?_⟩
  · rcases move_cases config move with ⟨_, _, _, pushes⟩ | ⟨none, _⟩ | rfl | rfl | rfl
    · rw [pushes]
      exact replayed.align_dedent_push _
    · rw [none] at records
      cases records
    all_goals cases records
  · have stays : (reached config moves).align config kind = reached config moves := by
      rcases nothing with rfl | rfl <;> rfl
    rw [stays]
    exact ⟨rfl, replayed.alike_dedent_iff⟩

/-- A dedent in an alignment by nothing undoes the step around it. -/
theorem not_alike_dedent_width_zero : ¬∀ (config : Config) (moves : List Move) (kind : AlignKind),
    (∃ columns, kind = .width columns) ∨ (∃ content, kind = .text content) →
      (((reached config moves).align config kind).align config .dedent).Alike (reached config moves) := by
  intro undoes
  have alike := undoes {} [.indent] (.width 0) (.inl ⟨0, rfl⟩)
  exact absurd alike.1 (by decide)

end Indentation

end MarkupFormat.Layout
