import MarkupFormat.Layout.Render

/-!
# Moments of a rendering

A moment is what a renderer carries together with the commands that wait. `Reaches` follows the
renderer from moment to moment, and `StaysOnLine` does so until a line breaks.
`run_eq_of_reaches` shows that these are the moments that `RenderContext.run` passes through.
-/

namespace MarkupFormat.Layout

/-- What a renderer carries, and the commands that wait. -/
structure Moment where
  state : RenderState
  pending : List Command
  deriving Inhabited

/-- The moment at which the rendering of `doc` begins, after the text that `out` holds. -/
def Moment.start (doc : Doc) (out : Emitter) : Moment :=
  ⟨{ out := out }, [⟨.none, .broken, doc⟩]⟩

/-- Whether rendering the command ends a line. -/
def Command.breaksLine (command : Command) : Bool :=
  match command.doc with
  | .line _ kind => command.mode = .broken || kind.isHard
  | _ => false

namespace RenderContext

variable {context : RenderContext}

/-- The moment after one command is rendered. -/
def advance (context : RenderContext) (state : RenderState) (command : Command)
    (rest : List Command) : Moment :=
  let step := context.renderStep state rest command
  ⟨step.1, step.2 ++ rest⟩

theorem mem_openFill {state : RenderState} {command other : Command} {mark : Mark} {parts : List Doc}
    (member : other ∈ context.openFill state command mark parts) :
    (∃ mode, ∃ part ∈ parts, other = command.on mode part) ∨
      ∃ before later, parts = before ++ later ∧ other = command.on command.mode (.fill mark later) := by
  unfold openFill at member
  split at member
  · cases member
  · next content =>
    rw [List.mem_singleton.mp member]
    split
    · exact .inl ⟨.flat, content, List.mem_cons_self, rfl⟩
    · exact .inl ⟨.broken, content, List.mem_cons_self, rfl⟩
  · next content separator =>
    simp only [List.mem_cons, List.not_mem_nil, or_false] at member
    rcases member with rfl | rfl
    · exact .inl ⟨_, content, List.mem_cons_self, rfl⟩
    · exact .inl ⟨_, separator, List.mem_cons_of_mem _ List.mem_cons_self, rfl⟩
  · next content separator next parts =>
    simp only [List.mem_cons, List.not_mem_nil, or_false] at member
    rcases member with rfl | rfl | rfl
    · exact .inl ⟨_, content, List.mem_cons_self, rfl⟩
    · exact .inl ⟨_, separator, List.mem_cons_of_mem _ List.mem_cons_self, rfl⟩
    · exact .inr ⟨[content, separator], next :: parts, rfl, rfl⟩

/-- The second moment comes after the first, or is the same. -/
inductive Reaches (context : RenderContext) : Moment → Moment → Prop where
  | refl (moment : Moment) : Reaches context moment moment
  | step {state : RenderState} {command : Command} {rest : List Command} {last : Moment} :
      Reaches context (context.advance state command rest) last →
      Reaches context ⟨state, command :: rest⟩ last

/-- The second moment comes after the first without a line break between them. -/
inductive StaysOnLine (context : RenderContext) : Moment → Moment → Prop where
  | refl (moment : Moment) : StaysOnLine context moment moment
  | step {state : RenderState} {command : Command} {rest : List Command} {last : Moment} :
      command.breaksLine = false →
      StaysOnLine context (context.advance state command rest) last →
      StaysOnLine context ⟨state, command :: rest⟩ last

theorem Reaches.trans {first second third : Moment} (before : context.Reaches first second)
    (after : context.Reaches second third) : context.Reaches first third := by
  induction before with
  | refl => exact after
  | step _ ih => exact .step (ih after)

/-- What is rendered in the end does not depend on the moment from which one looks. -/
theorem run_eq_of_reaches {first last : Moment} (reached : context.Reaches first last) :
    context.run first.state first.pending = context.run last.state last.pending := by
  induction reached with
  | refl => rfl
  | step _ ih =>
    rw [← ih, run]
    rfl

/-- Every rendering comes to a moment at which nothing waits. -/
theorem reaches_end (context : RenderContext) (state : RenderState) (pending : List Command) :
    context.Reaches ⟨state, pending⟩ ⟨context.run state pending, []⟩ := by
  fun_induction RenderContext.run context state pending with
  | case1 state => exact .refl _
  | case2 state command rest step ih => exact .step ih

theorem Reaches.preserves {P : Moment → Prop}
    (keeps : ∀ state command rest, P ⟨state, command :: rest⟩ → P (context.advance state command rest))
    {first last : Moment} (reached : context.Reaches first last) (holds : P first) : P last := by
  induction reached with
  | refl => exact holds
  | step _ ih => exact ih (keeps _ _ _ holds)

/-- What one command preserves unless it ends the line holds up to the end of the line. -/
theorem StaysOnLine.preserves {P : Moment → Prop}
    (keeps : ∀ state command rest, command.breaksLine = false →
      P ⟨state, command :: rest⟩ → P (context.advance state command rest))
    {first last : Moment} (line : context.StaysOnLine first last) (holds : P first) : P last := by
  induction line with
  | refl => exact holds
  | step stays _ ih => exact ih (keeps _ _ _ stays holds)

end RenderContext

end MarkupFormat.Layout
