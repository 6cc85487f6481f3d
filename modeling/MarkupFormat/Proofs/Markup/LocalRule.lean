import MarkupFormat.Markup.Node

/-!
# Rules about a node and its children

A rule relates what a node shows to what its children show, in their order. A tree follows a rule if each of
its nodes does; nothing else about the nodes below the children matters to it.
-/

namespace MarkupFormat.Markup.Fragment

variable {α β : Type} {look : NodeInfo → α} {rule : α → List α → Prop}

/-- What some nodes show. -/
def looks (look : NodeInfo → α) (fragments : List Fragment) : List α :=
  fragments.map fun fragment => look fragment.info

mutual

/-- Every node follows the rule. -/
def Follows (look : NodeInfo → α) (rule : α → List α → Prop) : Fragment → Prop
  | node info children => rule (look info) (looks look children) ∧ AllFollow look rule children

def AllFollow (look : NodeInfo → α) (rule : α → List α → Prop) : List Fragment → Prop
  | [] => True
  | fragment :: rest => fragment.Follows look rule ∧ AllFollow look rule rest

end

theorem allFollow_iff {fragments : List Fragment} :
    AllFollow look rule fragments ↔ ∀ fragment ∈ fragments, fragment.Follows look rule := by
  induction fragments with
  | nil => simp [AllFollow]
  | cons fragment rest ih => simp [AllFollow, ih]

theorem follows_node {info : NodeInfo} {children : List Fragment} :
    (node info children).Follows look rule ↔
      rule (look info) (looks look children) ∧ ∀ child ∈ children, child.Follows look rule := by
  rw [Follows, allFollow_iff]

theorem follows_leaf {kind : NodeKind} {span : Span} :
    (leaf kind span).Follows look rule ↔ rule (look { kind := kind, span := span }) [] := by
  unfold leaf
  rw [follows_node]
  simp [looks]

theorem Follows.self {self : α → Prop} (own : ∀ node children, rule node children → self node)
    {fragment : Fragment} (follows : fragment.Follows look rule) : self (look fragment.info) := by
  cases fragment with
  | node info children => exact own _ _ follows.1

mutual

/-- What a rule says of a node alone, it also says of every child. -/
theorem follows_childrenToo {self : α → Prop} (own : ∀ node children, rule node children → self node) :
    ∀ fragment : Fragment, fragment.Follows look rule →
      fragment.Follows look fun node children => rule node children ∧ ∀ child ∈ children, self child
  | node info children, ⟨here, below⟩ => by
    refine ⟨⟨here, fun child member => ?_⟩, allFollow_childrenToo own children below⟩
    obtain ⟨fragment, inside, rfl⟩ := List.mem_map.mp member
    exact (allFollow_iff.mp below fragment inside).self own

theorem allFollow_childrenToo {self : α → Prop} (own : ∀ node children, rule node children → self node) :
    ∀ fragments : List Fragment, AllFollow look rule fragments →
      AllFollow look (fun node children => rule node children ∧ ∀ child ∈ children, self child) fragments
  | [], _ => trivial
  | fragment :: rest, ⟨first, others⟩ =>
    ⟨follows_childrenToo own fragment first, allFollow_childrenToo own rest others⟩

end

mutual

theorem Follows.imp {other : α → List α → Prop} (imp : ∀ node children, rule node children → other node children) :
    ∀ {fragment : Fragment}, fragment.Follows look rule → fragment.Follows look other
  | node _ _, ⟨here, below⟩ => ⟨imp _ _ here, AllFollow.imp imp below⟩

theorem AllFollow.imp {other : α → List α → Prop} (imp : ∀ node children, rule node children → other node children) :
    ∀ {fragments : List Fragment}, AllFollow look rule fragments → AllFollow look other fragments
  | [], _ => trivial
  | _ :: _, ⟨first, others⟩ => ⟨first.imp imp, AllFollow.imp imp others⟩

end

mutual

theorem Follows.both {other : α → List α → Prop} : ∀ {fragment : Fragment}, fragment.Follows look rule →
    fragment.Follows look other → fragment.Follows look fun node children => rule node children ∧ other node children
  | node _ _, ⟨here, below⟩, ⟨here', below'⟩ => ⟨⟨here, here'⟩, AllFollow.both below below'⟩

theorem AllFollow.both {other : α → List α → Prop} : ∀ {fragments : List Fragment}, AllFollow look rule fragments →
    AllFollow look other fragments →
      AllFollow look (fun node children => rule node children ∧ other node children) fragments
  | [], _, _ => trivial
  | _ :: _, ⟨first, others⟩, ⟨first', others'⟩ => ⟨first.both first', AllFollow.both others others'⟩

end

mutual

theorem follows_comp {f : α → β} {rule : β → List β → Prop} : ∀ {fragment : Fragment},
    fragment.Follows (fun info => f (look info)) rule ↔
      fragment.Follows look fun node children => rule (f node) (children.map f)
  | node _ _ => by
    simp only [Follows, looks, List.map_map]
    exact and_congr Iff.rfl allFollow_comp

theorem allFollow_comp {f : α → β} {rule : β → List β → Prop} : ∀ {fragments : List Fragment},
    AllFollow (fun info => f (look info)) rule fragments ↔
      AllFollow look (fun node children => rule (f node) (children.map f)) fragments
  | [] => Iff.rfl
  | _ :: _ => and_congr follows_comp allFollow_comp

end

end MarkupFormat.Markup.Fragment
