import MarkupFormat.Layout.Walk

/-!
# Depth-first visits

A walk goes through a list of frames. It does what a visit does that calls itself below each node (`walk_eq_visit`).
What it tells a visitor is nested as the nodes are, and ends where the visitor stops it (`walk_depthFirst`).
-/

namespace MarkupFormat.Layout

variable {σ : Type}

/-- One part of a visit after another, unless the first one is stopped. -/
def andThen (first second : σ → Bool × σ) (state : σ) : Bool × σ :=
  match first state with
  | (true, state) => second state
  | (false, state) => (false, state)

namespace Visitor

/-- Enters a node, visits what is below it if the visitor wants that, and leaves the node unless the visitor stops. -/
def around (visitor : Visitor σ) (doc : Doc) (below : σ → Bool × σ) (state : σ) : Bool × σ :=
  match visitor.enter state doc with
  | (.stop, state) => (false, state)
  | (.skipChildren, state) => (true, visitor.leave state doc)
  | (.proceed, state) => andThen below (fun state => (true, visitor.leave state doc)) state

mutual

/-- Visits a node and, in order, what is below it: all parts, the broken body before the flat one, and the alternatives
or the body of a group. -/
def visit (visitor : Visitor σ) (alternatives : Bool) : Doc → σ → Bool × σ
  | .text mark content => visitor.around (.text mark content) (true, ·)
  | .line mark kind => visitor.around (.line mark kind) (true, ·)
  | .breakParent mark => visitor.around (.breakParent mark) (true, ·)
  | .trim mark => visitor.around (.trim mark) (true, ·)
  | .concat mark parts => visitor.around (.concat mark parts) (visitor.visitAll alternatives parts)
  | .fill mark parts => visitor.around (.fill mark parts) (visitor.visitAll alternatives parts)
  | .indent mark body => visitor.around (.indent mark body) (visitor.visit alternatives body)
  | .align mark kind body => visitor.around (.align mark kind body) (visitor.visit alternatives body)
  | .group mark info body => visitor.around (.group mark info body) (visitor.visit alternatives body)
  | .choice mark info body first others =>
    visitor.around (.choice mark info body first others)
      (if alternatives then andThen (visitor.visit alternatives first) (visitor.visitAll alternatives others)
        else visitor.visit alternatives body)
  | .ifBreak mark broken flat id =>
    visitor.around (.ifBreak mark broken flat id)
      (andThen (visitor.visit alternatives broken) (visitor.visit alternatives flat))
  | .indentIfBreak mark body id negate =>
    visitor.around (.indentIfBreak mark body id negate) (visitor.visit alternatives body)
  | .label mark name body => visitor.around (.label mark name body) (visitor.visit alternatives body)

/-- Visits several nodes one after the other. -/
def visitAll (visitor : Visitor σ) (alternatives : Bool) : List Doc → σ → Bool × σ
  | [] => (true, ·)
  | doc :: docs => andThen (visitor.visit alternatives doc) (visitor.visitAll alternatives docs)

end

variable {visitor : Visitor σ} {alternatives : Bool} {doc : Doc}

theorem andThen_done (first : σ → Bool × σ) : andThen first (true, ·) = first := by
  funext state
  unfold andThen
  split
  · next found => exact found.symm
  · next found => exact found.symm

theorem visit_eq (visitor : Visitor σ) (alternatives : Bool) (doc : Doc) :
    visitor.visit alternatives doc =
      visitor.around doc (visitor.visitAll alternatives (doc.children alternatives)) := by
  have single (body : Doc) : visitor.visitAll alternatives [body] = visitor.visit alternatives body := by
    rw [visitAll, visitAll, andThen_done]
  cases doc with
  | choice mark info body first others =>
    cases alternatives with
    | true => rw [visit, if_pos rfl, Doc.children, if_pos rfl, visitAll]
    | false => rw [visit, if_neg Bool.false_ne_true, Doc.children, if_neg Bool.false_ne_true, single]
  | ifBreak mark broken flat id => rw [visit, Doc.children, visitAll, single]
  | indent | align | group | indentIfBreak | label => rw [visit, Doc.children, single]
  | text | line | breakParent | trim | concat | fill => rw [visit]; rfl

end Visitor

/-! ### Walks -/

theorem walk_enter_append (visitor : Visitor σ) (alternatives : Bool) (docs : List Doc) (frames : List Frame)
    (state : σ) :
    walk visitor alternatives state (docs.map .enter ++ frames) =
      andThen (visitor.visitAll alternatives docs) (walk visitor alternatives · frames) state := by
  match docs with
  | [] => rfl
  | doc :: docs =>
    have positive := doc.weight_pos
    have fewer := doc.weights_children_lt alternatives
    rw [List.map_cons, List.cons_append, walk, Visitor.visitAll, Visitor.visit_eq]
    unfold andThen Visitor.around
    cases visitor.enter state doc with
    | mk answer entered =>
      cases answer with
      | stop => rfl
      | skipChildren =>
        dsimp only
        rw [walk, walk_enter_append visitor alternatives docs frames]
        rfl
      | proceed =>
        dsimp only
        rw [walk_enter_append visitor alternatives (doc.children alternatives)]
        unfold andThen
        cases visitor.visitAll alternatives (doc.children alternatives) entered with
        | mk finished below =>
          cases finished with
          | false => rfl
          | true =>
            dsimp only
            rw [walk, walk_enter_append visitor alternatives docs frames]
            rfl
  termination_by Doc.weights docs
  decreasing_by
    all_goals simp only [Doc.weights]; omega

theorem walk_eq_visit (visitor : Visitor σ) (alternatives : Bool) (doc : Doc) (state : σ) :
    doc.walk visitor alternatives state = visitor.visit alternatives doc state := by
  have done : (walk visitor alternatives · []) = (true, ·) := by
    funext state
    rw [walk]
  have walked := walk_enter_append visitor alternatives [doc] [] state
  rw [Visitor.visitAll, Visitor.visitAll, Visitor.andThen_done, done, Visitor.andThen_done] at walked
  exact walked

/-! ### What a visitor is told -/

/-- What a visitor is told, and what it answers. -/
inductive Callback where
  | entered (doc : Doc) (answer : Visit)
  | left (doc : Doc)

/-- The visitor that also writes down what it is told. -/
def Visitor.recording (visitor : Visitor σ) : Visitor (σ × List Callback) where
  enter := fun (state, log) doc =>
    let (answer, state) := visitor.enter state doc
    (answer, state, log ++ [.entered doc answer])
  leave := fun (state, log) doc => (visitor.leave state doc, log ++ [.left doc])

/-- What is told of several nodes one after the other, and whether the visit is not stopped. -/
inductive IsVisit (alternatives : Bool) : List Doc → List Callback → Bool → Prop where
  | done : IsVisit alternatives [] [] true
  | stopped (doc : Doc) (docs : List Doc) : IsVisit alternatives (doc :: docs) [.entered doc .stop] false
  | skipped {doc : Doc} {docs : List Doc} {later : List Callback} {finished : Bool}
      (others : IsVisit alternatives docs later finished) :
      IsVisit alternatives (doc :: docs) (.entered doc .skipChildren :: .left doc :: later) finished
  | proceeded {doc : Doc} {docs : List Doc} {inner later : List Callback} {finished : Bool}
      (below : IsVisit alternatives (doc.children alternatives) inner true)
      (others : IsVisit alternatives docs later finished) :
      IsVisit alternatives (doc :: docs) (.entered doc .proceed :: (inner ++ .left doc :: later)) finished
  | cutOff {doc : Doc} {docs : List Doc} {inner : List Callback}
      (below : IsVisit alternatives (doc.children alternatives) inner false) :
      IsVisit alternatives (doc :: docs) (.entered doc .proceed :: inner) false

/-- What is told closes what it opens, given the nodes that are open before and after it, innermost first. -/
inductive Nested : List Doc → List Callback → List Doc → Prop where
  | none (opened : List Doc) : Nested opened [] opened
  | entered {doc : Doc} {answer : Visit} {opened after : List Doc} {log : List Callback}
      (rest : Nested (doc :: opened) log after) : Nested opened (.entered doc answer :: log) after
  | left {doc : Doc} {opened after : List Doc} {log : List Callback} (rest : Nested opened log after) :
      Nested (doc :: opened) (.left doc :: log) after

/-- What may be told after an answer: nothing after a stop, first that the node is left if nothing below it is
wanted, and else first what is below it. -/
def Follows (alternatives : Bool) (doc : Doc) (finished : Bool) (after : List Callback) : Visit → Prop
  | .stop => after = [] ∧ finished = false
  | .skipChildren => ∃ later, after = .left doc :: later
  | .proceed =>
    (∃ inner later, IsVisit alternatives (doc.children alternatives) inner true ∧ after = inner ++ .left doc :: later) ∨
      (IsVisit alternatives (doc.children alternatives) after false ∧ finished = false)

variable {alternatives : Bool} {docs opened : List Doc} {log : List Callback} {finished : Bool}

theorem Nested.append {middle after : List Doc} {later : List Callback} (first : Nested opened log middle)
    (second : Nested middle later after) : Nested opened (log ++ later) after := by
  induction first with
  | none => exact second
  | entered _ ih => exact .entered (ih second)
  | left _ ih => exact .left (ih second)

theorem IsVisit.nested (visit : IsVisit alternatives docs log finished) (opened : List Doc) :
    ∃ more, Nested opened log (more ++ opened) ∧ (finished = true → more = []) := by
  induction visit generalizing opened with
  | done => exact ⟨[], .none opened, fun _ => rfl⟩
  | stopped doc docs => exact ⟨[doc], .entered (.none _), nofun⟩
  | skipped others ih =>
    obtain ⟨more, nested, closed⟩ := ih opened
    exact ⟨more, .entered (.left nested), closed⟩
  | @proceeded doc docs inner later finished below others ihBelow ih =>
    obtain ⟨inside, first, closedInside⟩ := ihBelow (doc :: opened)
    obtain ⟨more, second, closed⟩ := ih opened
    rw [closedInside rfl] at first
    exact ⟨more, .entered (first.append (.left second)), closed⟩
  | @cutOff doc docs inner below ih =>
    obtain ⟨more, nested, _⟩ := ih (doc :: opened)
    refine ⟨more ++ [doc], .entered ?_, nofun⟩
    rwa [List.append_assoc]

/-- What follows within a visit that is not stopped also follows if more is told after that visit. -/
theorem Follows.append {doc : Doc} {after : List Callback} {answer : Visit}
    (follows : Follows alternatives doc true after answer) (later : List Callback) :
    Follows alternatives doc finished (after ++ later) answer := by
  cases answer with
  | stop => cases follows.2
  | skipChildren =>
    obtain ⟨rest, rfl⟩ := follows
    exact ⟨rest ++ later, rfl⟩
  | proceed =>
    rcases follows with ⟨inner, rest, below, rfl⟩ | ⟨_, stopped⟩
    · exact .inl ⟨inner, rest ++ later, below, List.append_assoc ..⟩
    · cases stopped

theorem IsVisit.follows (visit : IsVisit alternatives docs log finished) {before after : List Callback} {doc : Doc}
    {answer : Visit} (split : log = before ++ .entered doc answer :: after) :
    Follows alternatives doc finished after answer := by
  induction visit generalizing before after with
  | done =>
    rw [List.nil_eq_append_iff] at split
    cases split.2
  | stopped doc docs =>
    cases before with
    | nil =>
      cases split
      exact ⟨rfl, rfl⟩
    | cons _ before =>
      have nothing := List.append_eq_nil_iff.mp (List.cons.inj split).2.symm
      cases nothing.2
  | @skipped doc docs later finished others ih =>
    cases before with
    | nil =>
      cases split
      exact ⟨later, rfl⟩
    | cons _ before =>
      cases before with
      | nil => cases (List.cons.inj (List.cons.inj split).2).1
      | cons _ before => exact ih (List.cons.inj (List.cons.inj split).2).2
  | @proceeded doc docs inner later finished below others ihBelow ih =>
    cases before with
    | nil =>
      cases split
      exact .inl ⟨inner, later, below, rfl⟩
    | cons _ before =>
      rcases List.append_eq_append_iff.mp (List.cons.inj split).2 with ⟨rest, rfl, same⟩ | ⟨rest, same, same'⟩
      · cases rest with
        | nil => cases (List.cons.inj same).1
        | cons _ rest => exact ih (List.cons.inj same).2
      · cases rest with
        | nil => cases (List.cons.inj same').1
        | cons _ rest =>
          obtain ⟨rfl, rfl⟩ := List.cons.inj same'
          exact (ihBelow same).append _
  | @cutOff doc docs inner below ih =>
    cases before with
    | nil =>
      cases split
      exact .inr ⟨below, rfl⟩
    | cons _ before => exact ih (List.cons.inj split).2

/-! ### Visits that are written down -/

theorem Visitor.recording_enter {visitor : Visitor σ} {doc : Doc} {state entered : σ} {answer : Visit}
    (entering : visitor.enter state doc = (answer, entered)) (log : List Callback) :
    visitor.recording.enter (state, log) doc = (answer, entered, log ++ [.entered doc answer]) := by
  simp only [recording, entering]

theorem Visitor.recording_leave (visitor : Visitor σ) (doc : Doc) (state : σ) (log : List Callback) :
    visitor.recording.leave (state, log) doc = (visitor.leave state doc, log ++ [.left doc]) := rfl

/-- Writing down what is told does not change a visit, and writes down what is told of such a visit. -/
theorem recording_visitAll (visitor : Visitor σ) (alternatives : Bool) (docs : List Doc) (state : σ)
    (log : List Callback) :
    ∃ finished final told, visitor.visitAll alternatives docs state = (finished, final) ∧
      visitor.recording.visitAll alternatives docs (state, log) = (finished, final, log ++ told) ∧
      IsVisit alternatives docs told finished := by
  match docs with
  | [] => exact ⟨true, state, [], rfl, by rw [List.append_nil]; rfl, .done⟩
  | doc :: docs =>
    have positive := doc.weight_pos
    have fewer := doc.weights_children_lt alternatives
    rw [Visitor.visitAll, Visitor.visitAll, Visitor.visit_eq, Visitor.visit_eq]
    unfold andThen Visitor.around
    cases entering : visitor.enter state doc with
    | mk answer entered =>
      rw [Visitor.recording_enter entering]
      cases answer with
      | stop => exact ⟨false, entered, [.entered doc .stop], rfl, rfl, .stopped doc docs⟩
      | skipChildren =>
        obtain ⟨finished, final, told, plain, written, others⟩ :=
          recording_visitAll visitor alternatives docs (visitor.leave entered doc)
            (log ++ [.entered doc .skipChildren] ++ [.left doc])
        refine ⟨finished, final, _, plain, ?_, .skipped others⟩
        dsimp only
        rw [Visitor.recording_leave, written]
        simp
      | proceed =>
        obtain ⟨finished, final, told, plain, written, below⟩ :=
          recording_visitAll visitor alternatives (doc.children alternatives) entered (log ++ [.entered doc .proceed])
        dsimp only
        unfold andThen
        rw [plain, written]
        cases finished with
        | false => exact ⟨false, final, _, rfl, by simp, .cutOff below⟩
        | true =>
          obtain ⟨finished', final', told', plain', written', others⟩ :=
            recording_visitAll visitor alternatives docs (visitor.leave final doc)
              (log ++ [.entered doc .proceed] ++ told ++ [.left doc])
          refine ⟨finished', final', _, plain', ?_, .proceeded below others⟩
          dsimp only
          rw [Visitor.recording_leave, written']
          simp
  termination_by Doc.weights docs
  decreasing_by
    all_goals simp only [Doc.weights]; omega

/-- A walk is a depth-first visit. What a visitor is told on it is nested as the nodes are: a node that is entered is
left after all that is below it, or at once if the visitor does not want that, and after a stop nothing is told. -/
theorem walk_depthFirst (visitor : Visitor σ) (alternatives : Bool) (doc : Doc) (state : σ) :
    doc.walk visitor alternatives state = visitor.visit alternatives doc state ∧
    ∃ finished final log, doc.walk visitor alternatives state = (finished, final) ∧
      doc.walk visitor.recording alternatives (state, []) = (finished, final, log) ∧
      IsVisit alternatives [doc] log finished ∧
      (∃ opened, Nested [] log opened ∧ (finished = true → opened = [])) ∧
      ∀ before node answer after, log = before ++ .entered node answer :: after →
        Follows alternatives node finished after answer := by
  refine ⟨walk_eq_visit visitor alternatives doc state, ?_⟩
  obtain ⟨finished, final, log, plain, written, visit⟩ := recording_visitAll visitor alternatives [doc] state []
  rw [Visitor.visitAll, Visitor.visitAll, Visitor.andThen_done, ← walk_eq_visit] at plain written
  obtain ⟨opened, nested, closed⟩ := visit.nested []
  rw [List.append_nil] at nested
  exact ⟨finished, final, log, plain, written, visit, ⟨opened, nested, closed⟩, fun _ _ _ _ => visit.follows⟩

end MarkupFormat.Layout
