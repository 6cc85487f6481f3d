import MarkupFormat.Proofs.Annotate.Trimmed

/-!
# What passes keep

Each pass over a tree keeps what holds of its nodes, if it holds of the nodes that the pass makes anew. There is one
lemma for what a pass does to a list of children, and one for a pass over a tree when nodes are looked at one by one.
-/

namespace MarkupFormat.Annotate

open Markup (Flag Flags Fragment NodeInfo NodeKind)

/-! ### Lists of children -/

theorem forall_dropLineFeed {holds : Fragment → Prop} {children : List Fragment}
    (left : ∀ info inner value cs, info.kind = .text value → value.toList = '\n' :: cs → holds (.node info inner) →
      holds (.node { info with
        kind := .text (String.ofList cs)
        span := { info.span with start := info.span.start + 1 } } inner))
    (all : ∀ child ∈ children, holds child) : ∀ child ∈ dropLineFeed children, holds child := by
  unfold dropLineFeed
  split
  · next first inner rest =>
    obtain ⟨here, others⟩ := List.forall_mem_cons.mp all
    split
    · next value text =>
      split
      · exact others
      · next cs _ begins => exact List.forall_mem_cons.mpr ⟨left first inner value cs text begins here, others⟩
      · exact all
    · exact all
  · exact all

theorem forall_joinConditions {holds : Fragment → Prop} (children : List Fragment)
    (joins : ∀ before element joined, withCondition? before element = some joined → holds before → holds element →
      holds joined)
    (all : ∀ child ∈ children, holds child) : ∀ child ∈ joinConditions children, holds child := by
  fun_induction joinConditions children with
  | case1 first element rest joined found ih =>
    obtain ⟨before, others⟩ := List.forall_mem_cons.mp all
    obtain ⟨here, others⟩ := List.forall_mem_cons.mp others
    exact List.forall_mem_cons.mpr ⟨joins first element joined found before here, ih others⟩
  | case2 first element rest found ih =>
    obtain ⟨here, others⟩ := List.forall_mem_cons.mp all
    exact List.forall_mem_cons.mpr ⟨here, ih others⟩
  | case3 children _ => exact all

/-- What holds of nodes, and of a text that takes in the text after it, which may have been joined already. -/
theorem forall_joinTexts {holds : Fragment → Prop} (children : List Fragment)
    (alone : ∀ info inner value, textOf? info.kind = some value → holds (.node info inner) →
      holds (.node { info with kind := .text value } inner))
    (joined : ∀ info inner value next below more, textOf? info.kind = some value → next.kind = .text more →
      holds (.node info inner) → holds (.node next below) →
        holds (.node { info with
          kind := .text (value ++ more)
          span := ⟨info.span.start, next.span.stop⟩ } inner))
    (all : ∀ child ∈ children, holds child) : ∀ child ∈ joinTexts children, holds child := by
  induction children with
  | nil => exact all
  | cons child rest ih =>
    obtain ⟨first, others⟩ := List.forall_mem_cons.mp all
    have later := ih others
    cases child with
    | node info inner =>
      unfold joinTexts
      split
      · exact List.forall_mem_cons.mpr ⟨first, later⟩
      · next value text =>
        split
        · next next below others same =>
          rw [same] at later
          obtain ⟨second, others⟩ := List.forall_mem_cons.mp later
          split
          · next more isText =>
            exact List.forall_mem_cons.mpr ⟨joined info inner value next below more text isText first second, others⟩
          · exact List.forall_mem_cons.mpr ⟨alone info inner value text first, later⟩
        · exact List.forall_mem_singleton.mpr (alone info inner value text first)

/-! ### Trees -/

section Trees

variable {α : Type} {look : NodeInfo → α} {holds : α → Prop} {fragment : Fragment}

theorem follows_mapChildren_alone {change : NodeInfo → List Fragment → List Fragment}
    (each : ∀ info children, (∀ child ∈ children, child.Follows look fun node _ => holds node) →
      ∀ child ∈ change info children, child.Follows look fun node _ => holds node)
    (follows : fragment.Follows look fun node _ => holds node) :
    (fragment.mapChildren change).Follows look fun node _ => holds node := by
  refine Fragment.follows_mapChildren (fun info children here below => ?_) fragment follows
  exact ⟨here, each info children below⟩

/-- What holds of each node on its own, whatever its flags are, if trimmed texts keep it. -/
theorem follows_trimText_alone
    (blind : ∀ (info : NodeInfo) (flags : Flags), look { info with flags := flags } = look info)
    (trim : ∀ info inner value, info.kind = .text value →
      (Fragment.node info inner).Follows look (fun node _ => holds node) →
        (trimmedText info value.toList inner).Follows look fun node _ => holds node)
    (follows : fragment.Follows look fun node _ => holds node) :
    (trimText fragment).Follows look fun node _ => holds node := by
  have reflag {info : NodeInfo} {flags : Flags} {inner : List Fragment} (here : holds (look info))
      (below : ∀ child ∈ inner, child.Follows look fun node _ => holds node) :
      (Fragment.node { info with flags := flags } inner).Follows look fun node _ => holds node := by
    refine Fragment.follows_node.mpr ⟨?_, below⟩
    rw [blind]
    exact here
  have flagged (flag : Flag) (node : Fragment) (follows : node.Follows look fun node _ => holds node) :
      (withFlag flag node).Follows look fun node _ => holds node := by
    cases node with
    | node info children =>
      obtain ⟨here, below⟩ := Fragment.follows_node.mp follows
      exact reflag here below
  refine Fragment.follows_bottomUp (look_trimNode fun info _ _ _ => blind info _) (fun info children here below => ?_)
    fragment follows
  unfold trimNode
  split
  · exact Fragment.follows_node.mpr ⟨here, below⟩
  · split
    · exact reflag here fun _ member => absurd member List.not_mem_nil
    · dsimp only
      split
      · exact reflag here below
      · refine reflag here ?_
        exact forall_trimTexts (fun flag _ => flagged flag) (fun flag _ => flagged flag)
          (fun info inner value follows text _ => trim info inner value text follows) (fun _ _ follows _ => follows) []
          children (fun _ member => absurd member List.not_mem_nil) below

end Trees

end MarkupFormat.Annotate
