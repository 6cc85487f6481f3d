import Mathlib.Data.List.Forall2
import Mathlib.Data.List.Nodup
import MarkupFormat.Layout.Doc

/-!
# Paths in documents

A document whose nodes are told apart by their marks is a graph: a node may stand below several others. A path leads
downwards in it, and a node forces a break if a path leads to something that asks for one without passing through a
group with alternatives.
-/

namespace MarkupFormat.Layout

theorem exists_of_forall₂ {α β : Type} {R : α → β → Prop} {xs : List α} {ys : List β} {x : α}
    (related : List.Forall₂ R xs ys) (member : x ∈ xs) : ∃ y ∈ ys, R x y := by
  induction related with
  | nil => cases member
  | cons here _ ih =>
    rcases List.mem_cons.mp member with rfl | member
    · exact ⟨_, List.mem_cons_self, here⟩
    · obtain ⟨y, inside, there⟩ := ih member
      exact ⟨y, List.mem_cons_of_mem _ inside, there⟩

namespace Doc

/-! ### Nodes below a node -/

/-- There is a path downwards from one node to another. The nodes on it before the last one are such as `through`
allows, and a group with alternatives is passed by way of one of these. -/
inductive Path (through : Doc → Prop) : Doc → Doc → Prop where
  | here (doc : Doc) : Path through doc doc
  | down {doc child last : Doc} : through doc → child ∈ doc.children true → Path through child last →
      Path through doc last

/-- One node is the other or somewhere below it. -/
abbrev Contains (doc node : Doc) : Prop :=
  doc.Path (fun _ => True) node

def isChoice : Doc → Bool
  | choice .. => true
  | _ => false

def isGroup : Doc → Bool
  | group .. | choice .. => true
  | _ => false

def info? : Doc → Option GroupInfo
  | group _ info _ | choice _ info _ _ _ => some info
  | _ => none

/-- A path leads from one node to another and passes through no group with alternatives. -/
abbrev LeadsTo (doc last : Doc) : Prop :=
  doc.Path (fun node => node.isChoice = false) last

/-- Whether a node asks for a break by itself. -/
def asksForBreak : Doc → Bool
  | breakParent _ => true
  | group _ info _ | choice _ info _ _ _ => info.mustBreak
  | _ => false

/-- A node leads to one that asks for a break. -/
def Forces (doc : Doc) : Prop :=
  ∃ last, doc.LeadsTo last ∧ last.asksForBreak = true

/-- Nodes that bear one mark are one node. -/
def MarksTellApart (doc : Doc) : Prop :=
  ∀ first second, doc.Contains first → doc.Contains second → first.mark = second.mark → first = second

variable {doc child node last : Doc} {through : Doc → Prop}

theorem Path.trans (first : doc.Path through node) (second : node.Path through last) : doc.Path through last := by
  induction first with
  | here => exact second
  | down allowed below _ ih => exact .down allowed below (ih second)

theorem contains_child (contains : doc.Contains node) (below : child ∈ node.children true) : doc.Contains child :=
  contains.trans (.down trivial below (.here child))

theorem contains_iff :
    doc.Contains node ↔ node = doc ∨ ∃ child ∈ doc.children true, child.Contains node := by
  constructor
  · intro contains
    cases contains with
    | here => exact Or.inl rfl
    | down _ below rest => exact Or.inr ⟨_, below, rest⟩
  · rintro (rfl | ⟨child, below, rest⟩)
    · exact .here node
    · exact .down trivial below rest

theorem mem_of_contains {nodes : List Doc} (member : doc ∈ nodes)
    (closed : ∀ node ∈ nodes, ∀ child ∈ node.children true, child ∈ nodes) (contains : doc.Contains node) :
    node ∈ nodes := by
  induction contains with
  | here => exact member
  | down _ below _ ih => exact ih (closed _ member _ below)

theorem marksTellApart_of_closed {nodes : List Doc} (member : doc ∈ nodes)
    (closed : ∀ node ∈ nodes, ∀ child ∈ node.children true, child ∈ nodes) (nodup : (nodes.map mark).Nodup) :
    doc.MarksTellApart := by
  intro first second containsFirst containsSecond same
  exact List.inj_on_of_nodup_map nodup (mem_of_contains member closed containsFirst)
    (mem_of_contains member closed containsSecond) same

theorem forces_choice {mark : Mark} {info : GroupInfo} {body first : Doc} {others : List Doc} :
    (choice mark info body first others).Forces ↔ info.mustBreak = true := by
  constructor
  · rintro ⟨last, path, asks⟩
    cases path with
    | here => exact asks
    | down passes => cases passes
  · intro breaks
    exact ⟨_, .here _, breaks⟩

theorem forces_iff (passes : doc.isChoice = false) :
    doc.Forces ↔ doc.asksForBreak = true ∨ ∃ child ∈ doc.children true, child.Forces := by
  constructor
  · rintro ⟨last, path, asks⟩
    cases path with
    | here => exact Or.inl asks
    | down _ below rest => exact Or.inr ⟨_, below, last, rest, asks⟩
  · rintro (asks | ⟨child, below, last, path, asks⟩)
    · exact ⟨doc, .here doc, asks⟩
    · exact ⟨last, .down passes below path, asks⟩

theorem forces_group {mark : Mark} {info : GroupInfo} {body : Doc} :
    (group mark info body).Forces ↔ info.mustBreak = true ∨ body.Forces := by
  rw [forces_iff rfl]
  simp [asksForBreak, children]

end Doc

end MarkupFormat.Layout
