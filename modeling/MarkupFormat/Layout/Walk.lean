import MarkupFormat.Layout.Doc

/-!
# Walks over documents

`walk` visits a document depth first with a list of pending nodes. The caller is told of each node
when it is entered and when it is left, and decides whether to go on below it.
-/

namespace MarkupFormat.Layout

/-- How a walk goes on after entering a node. -/
inductive Visit where
  | proceed
  /-- Not below the node, which is left at once. -/
  | skipChildren
  /-- Not at all. -/
  | stop
  deriving DecidableEq, Repr, Inhabited

/-- Pending work of a walk. -/
inductive Frame where
  | enter (doc : Doc)
  | leave (doc : Doc)
  deriving Inhabited

/-- What to do at the nodes of a walk that carries a state. -/
structure Visitor (σ : Type) where
  enter : σ → Doc → Visit × σ
  leave : σ → Doc → σ

namespace Frame

/-- A bound on the steps that a frame causes. -/
def weight : Frame → Nat
  | enter doc => 2 * doc.weight
  | leave _ => 1

/-- A bound on the steps that pending frames cause. -/
def weights (frames : List Frame) : Nat :=
  frames.foldr (fun frame total => frame.weight + total) 0

@[simp]
theorem weights_cons (frame : Frame) (frames : List Frame) :
    weights (frame :: frames) = frame.weight + weights frames := rfl

theorem weights_enter_append (docs : List Doc) (frames : List Frame) :
    weights (docs.map enter ++ frames) = 2 * Doc.weights docs + weights frames := by
  induction docs with
  | nil => simp [Doc.weights]
  | cons doc docs ih =>
    simp only [List.map_cons, List.cons_append, weights_cons, weight, Doc.weights, ih]
    omega

end Frame

/-- Works through the pending frames. The result tells whether the walk was not stopped. -/
def walk {σ : Type} (visitor : Visitor σ) (alternatives : Bool) (state : σ) :
    List Frame → Bool × σ
  | [] => (true, state)
  | .leave doc :: frames => walk visitor alternatives (visitor.leave state doc) frames
  | .enter doc :: frames =>
    match visitor.enter state doc with
    | (.stop, state) => (false, state)
    | (.skipChildren, state) => walk visitor alternatives state (.leave doc :: frames)
    | (.proceed, state) =>
      walk visitor alternatives state
        ((doc.children alternatives).map .enter ++ .leave doc :: frames)
  termination_by frames => Frame.weights frames
  decreasing_by
    · simp [Frame.weight]
    · have := doc.weight_pos
      simp [Frame.weight]; omega
    · have := doc.weights_children_lt alternatives
      rw [Frame.weights_enter_append]
      simp [Frame.weight]; omega

/-- Walks `doc`, below groups with alternatives either all of them or the body. -/
def Doc.walk {σ : Type} (doc : Doc) (visitor : Visitor σ) (alternatives : Bool) (state : σ) :
    Bool × σ :=
  Layout.walk visitor alternatives state [.enter doc]

/-- Whether the document lays out nothing, as far as its bodies show. -/
def Doc.isEmpty (doc : Doc) : Bool :=
  (doc.walk ⟨fun _ node =>
    match node with
    | .text _ content => (if content = "" then .proceed else .stop, ())
    | .trim _ | .line _ _ | .breakParent _ => (.stop, ())
    | _ => (.proceed, ()), fun _ _ => ()⟩ false ()).1

end MarkupFormat.Layout
