import MarkupFormat.Proofs.Layout.Inked
import MarkupFormat.Proofs.Layout.Paths

/-!
# Issued marks

A builder gives a new node a mark that no node has yet, over nodes that were built before. So the marks of all nodes
that are built in one go tell them apart. `Issues` keeps count of the documents that are known so far: there is one
lemma for each builder, and `issues_bind` puts them together.
-/

namespace MarkupFormat.Layout

/-- The marks of some documents were issued by a supply, each of them once. -/
structure Issued (docs : List Doc) (supply : Supply) : Prop where
  below : ∀ doc ∈ docs, ∀ node, doc.Contains node → node.mark < supply.mark
  apart : ∀ doc ∈ docs, ∀ other ∈ docs, ∀ first second, doc.Contains first → other.Contains second →
    first.mark = second.mark → first = second

namespace Issued

variable {docs known more : List Doc} {doc : Doc} {supply : Supply}

theorem nil (supply : Supply) : Issued [] supply :=
  ⟨fun _ member => absurd member List.not_mem_nil, fun _ member => absurd member List.not_mem_nil⟩

theorem subset (issued : Issued more supply) (sub : docs ⊆ more) : Issued docs supply :=
  ⟨fun doc member => issued.below doc (sub member),
    fun doc member other isOther => issued.apart doc (sub member) other (sub isOther)⟩

theorem later (issued : Issued docs supply) {after : Supply} (grows : supply.mark ≤ after.mark) : Issued docs after :=
  ⟨fun doc member node contains => Nat.lt_of_lt_of_le (issued.below doc member node contains) grows, issued.apart⟩

theorem marksTellApart (issued : Issued docs supply) (member : doc ∈ docs) : doc.MarksTellApart :=
  issued.apart doc member doc member

theorem cons (issued : Issued known supply) (marked : doc.mark = supply.mark)
    (children : ∀ child ∈ doc.children true, child ∈ known) {after : Supply}
    (next : after.mark = supply.mark + 1) : Issued (doc :: known) after := by
  -- What is in the new node is the node itself or is known.
  have inside : ∀ {whole node}, whole ∈ doc :: known → whole.Contains node →
      node = doc ∨ ∃ old ∈ known, old.Contains node := by
    intro whole node member contains
    obtain rfl | old := List.mem_cons.mp member
    · obtain same | ⟨child, below, contains⟩ := Doc.contains_iff.mp contains
      · exact .inl same
      · exact .inr ⟨child, children child below, contains⟩
    · exact .inr ⟨whole, old, contains⟩
  have fresh : ∀ {old node}, old ∈ known → old.Contains node → node.mark ≠ doc.mark := by
    intro old node member contains same
    exact Nat.lt_irrefl _ (marked ▸ same ▸ issued.below old member node contains)
  constructor
  case below =>
    intro whole member node contains
    rw [next]
    obtain rfl | ⟨old, isKnown, contains⟩ := inside member contains
    · rw [marked]
      exact Nat.lt_succ_self _
    · exact Nat.lt_succ_of_lt (issued.below old isKnown node contains)
  case apart =>
    intro whole member other isOther first second containsFirst containsSecond same
    obtain rfl | ⟨old, isKnown, contains⟩ := inside member containsFirst
    · obtain rfl | ⟨old, isKnown, contains⟩ := inside isOther containsSecond
      · rfl
      · exact absurd same.symm (fresh isKnown contains)
    · obtain rfl | ⟨otherOld, otherKnown, otherContains⟩ := inside isOther containsSecond
      · exact absurd same (fresh isKnown contains)
      · exact issued.apart old isKnown otherOld otherKnown first second contains otherContains same

end Issued

namespace Build

variable {ε α β : Type} {build : StateT Supply (Except ε) α} {docs : α → List Doc} {known more : List Doc}

/-- What a computation results in is built over documents that are known, with marks issued on the way. -/
def Issues (known : List Doc) (build : StateT Supply (Except ε) α) (docs : α → List Doc) : Prop :=
  ∀ supply result, Issued known supply → build.run supply = .ok result → Issued (docs result.1 ++ known) result.2

theorem issues_pure {value : α} (sub : docs value ⊆ known) :
    Issues known (pure value : StateT Supply (Except ε) α) docs := by
  rintro supply result issued ⟨⟩
  exact issued.subset (List.append_subset.mpr ⟨sub, List.Subset.refl _⟩)

theorem issues_throw {error : ε} : Issues known (throw error : StateT Supply (Except ε) α) docs := by
  rintro supply result _ ⟨⟩

section Bind

variable {next : α → StateT Supply (Except ε) β} {after : β → List Doc} (first : Issues known build docs)

include first

theorem issues_bind_of_yields {holds : α → Prop} (yields : Yields build holds)
    (then_ : ∀ value, holds value → Issues (docs value ++ known) (next value) after) :
    Issues known (build >>= next) after := by
  intro supply result issued ran
  rw [StateT.run_bind] at ran
  cases done : build.run supply with
  | error failure =>
    rw [done] at ran
    cases ran
  | ok middle =>
    rw [done] at ran
    refine (then_ middle.1 (yields supply middle done) middle.2 result (first supply middle issued done) ran).subset ?_
    exact List.append_subset.mpr ⟨List.subset_append_left _ _,
      List.subset_append_of_subset_right _ (List.subset_append_right _ _)⟩

theorem issues_bind (then_ : ∀ value, Issues (docs value ++ known) (next value) after) :
    Issues known (build >>= next) after :=
  issues_bind_of_yields first yields_true fun value _ => then_ value

end Bind

theorem issues_mapM {values : List β} {make : β → StateT Supply (Except ε) α}
    (each : ∀ value ∈ values, ∀ more, known ⊆ more → Issues more (make value) docs) :
    Issues known (values.mapM make) (·.flatMap docs) := by
  induction values generalizing known with
  | nil => exact issues_pure (List.nil_subset _)
  | cons value rest ih =>
    rw [List.mapM_cons]
    refine issues_bind (each value List.mem_cons_self known (List.Subset.refl _)) fun first => ?_
    refine issues_bind (ih fun other member more sub => ?_) fun others => issues_pure ?_
    · exact each other (List.mem_cons_of_mem _ member) more
        (List.Subset.trans (List.subset_append_right _ _) sub)
    · rw [List.flatMap_cons]
      exact List.append_subset.mpr ⟨List.subset_append_of_subset_right _ (List.subset_append_left _ _),
        List.subset_append_left _ _⟩

/-- A document is built. -/
abbrev IssuesDoc (known : List Doc) (build : StateT Supply (Except ε) Doc) : Prop :=
  Issues known build fun doc => [doc]

/-- Several documents are built. -/
abbrev IssuesAll (known : List Doc) (build : StateT Supply (Except ε) (List Doc)) : Prop :=
  Issues known build id

theorem issuesAll_mapM {values : List β} {make : β → StateT Supply (Except ε) Doc}
    (each : ∀ value ∈ values, ∀ more, known ⊆ more → IssuesDoc more (make value)) :
    IssuesAll known (values.mapM make) := by
  intro supply result issued ran
  have made : Issued (result.1.flatMap (fun doc => [doc]) ++ known) result.2 :=
    issues_mapM each supply result issued ran
  rwa [List.flatMap_singleton'] at made

/-! ### Builders -/

theorem issues_node {make : Mark → Doc} (marked : ∀ mark, (make mark).mark = mark)
    (children : ∀ mark, ∀ child ∈ (make mark).children true, child ∈ known) :
    IssuesDoc known (do return make (← freshMark)) := by
  rintro supply result issued ⟨⟩
  exact issued.cons (marked _) (children _) rfl

theorem issues_freshGroup (name : String) : Issues known (freshGroup name) fun _ => [] := by
  rintro supply result issued ⟨⟩
  exact issued.later (Nat.le_refl _)

theorem issues_text (content : String) : IssuesDoc known (text content) :=
  issues_node (fun _ => rfl) fun _ _ member => absurd member List.not_mem_nil

theorem issues_empty : IssuesDoc known empty :=
  issues_text ""

variable {parts : List Doc} {body broken flat : Doc}

theorem issues_concat (sub : parts ⊆ known) : IssuesDoc known (concat parts) :=
  issues_node (fun _ => rfl) fun _ _ member => sub member

theorem issues_fill (sub : parts ⊆ known) : IssuesDoc known (fill parts) := by
  unfold fill
  split
  · exact issues_throw
  · exact issues_node (fun _ => rfl) fun _ _ member => sub member

theorem issues_indent (member : body ∈ known) : IssuesDoc known (indent body) :=
  issues_node (fun _ => rfl) fun _ => List.forall_mem_singleton.mpr member

theorem issues_align (kind : AlignKind) (member : body ∈ known) : IssuesDoc known (align kind body) :=
  issues_node (fun _ => rfl) fun _ => List.forall_mem_singleton.mpr member

theorem issues_groupWith (id : Option GroupId) (mustBreak : Bool) (member : body ∈ known) :
    IssuesDoc known (groupWith body id mustBreak) :=
  issues_node (fun _ => rfl) fun _ => List.forall_mem_singleton.mpr member

theorem issues_group (member : body ∈ known) : IssuesDoc known (group body) :=
  issues_groupWith none false member

theorem issues_indentIfBreak (id : GroupId) (negate : Bool) (member : body ∈ known) :
    IssuesDoc known (indentIfBreak body id negate) :=
  issues_node (fun _ => rfl) fun _ => List.forall_mem_singleton.mpr member

theorem issues_ifBreakFor (id : Option GroupId) (isBroken : broken ∈ known) (isFlat : flat ∈ known) :
    IssuesDoc known (ifBreakFor broken flat id) :=
  issues_node (fun _ => rfl) fun _ => List.forall_mem_cons.mpr ⟨isBroken, List.forall_mem_singleton.mpr isFlat⟩

theorem issues_bareLine (kind : LineKind) : IssuesDoc known (bareLine kind) :=
  issues_node (fun _ => rfl) fun _ _ member => absurd member List.not_mem_nil

theorem issues_breakParent : IssuesDoc known breakParent :=
  issues_node (fun _ => rfl) fun _ _ member => absurd member List.not_mem_nil

theorem issues_seq {builds : List (Build Doc)}
    (each : builds.Forall fun build => ∀ more, known ⊆ more → IssuesDoc more build) : IssuesDoc known (seq builds) :=
  issues_bind (issuesAll_mapM (List.forall_iff_forall_mem.mp each)) fun _ => issues_concat (List.subset_append_left _ _)

theorem issues_forcedLine (kind : LineKind) :
    IssuesDoc known (do let line ← bareLine kind; concat [line, ← breakParent]) :=
  issues_bind (issues_bareLine kind) fun _ => issues_bind issues_breakParent fun _ => issues_concat (by simp)

theorem issues_hardline : IssuesDoc known hardline :=
  issues_forcedLine .hard

theorem issues_literalline : IssuesDoc known literalline :=
  issues_forcedLine .literal

theorem subset_intersperse {separator : Doc} (all : parts ⊆ known) (line : separator ∈ known) :
    parts.intersperse separator ⊆ known := by
  induction parts with
  | nil => exact all
  | cons first rest ih =>
    cases rest with
    | nil => exact all
    | cons next rest =>
      obtain ⟨here, others⟩ := List.cons_subset.mp all
      rw [List.intersperse_cons_cons]
      exact List.cons_subset.mpr ⟨here, List.cons_subset.mpr ⟨line, ih others⟩⟩

theorem issuesAll_intersperse {make : β → Build Doc} {values : List β} {separator : Doc}
    (each : ∀ value ∈ values, ∀ more, known ⊆ more → IssuesDoc more (make value)) (line : separator ∈ known) :
    IssuesAll known (do return (← values.mapM make).intersperse separator) :=
  issues_bind (issuesAll_mapM each) fun _ =>
    issues_pure (subset_intersperse (List.subset_append_left _ _) (List.mem_append_right _ line))

theorem issuesAll_splitLines (content : String) {separator : Doc} (line : separator ∈ known) :
    IssuesAll known (splitLines content separator) :=
  issuesAll_intersperse (fun piece _ _ _ => issues_text piece) line

theorem issues_transform_text {rule : Doc → Build Doc} {mark : Mark} {content : String}
    (applied : IssuesDoc known (rule (.text mark content))) :
    IssuesDoc known (do return (← (Doc.text mark content).transform rule).1) := by
  rw [transform_text, bind_assoc]
  exact issues_bind applied fun result => issues_pure (by simp)

end Build

end MarkupFormat.Layout
