import MarkupFormat.Proofs.Annotate.Shape

/-!
# Sensitivities compared

The sensitivity settles the display of every node that neither a comment nor a drawing gives one. White space that shows
by style also shows where all nodes are inline (`milder_css_strict`), and white space that shows where all nodes are
blocks also shows by style (`milder_ignore_css`), except in a node whose content is hidden by its style: as a block it
does not hide anything. By style, only white space in a running text shows there (`sensitivities_ordered`).

The flags of a classified tree tell on what neighbours agree by the displays of all nodes (`childFlag_iff`), so trees
that are classified under two sensitivities are compared by their displays.
-/

namespace MarkupFormat.Markup

/-- White space that shows by some flags also shows by others. -/
structure Flags.SensitiveWithin (flags more : Flags) : Prop where
  leading : flags.leadingSensitive = true → more.leadingSensitive = true
  trailing : flags.trailingSensitive = true → more.trailingSensitive = true
  dangling : flags.danglingSensitive = true → more.danglingSensitive = true

namespace Display

open Annotate (isBlockLike isEdgeSensitive)

/-- The white space that one display lets show is among that of another. -/
structure ShowsWithin (display more : Display) : Prop where
  blockLike : isBlockLike more = true → isBlockLike display = true
  edge : isEdgeSensitive display = true → isEdgeSensitive more = true

variable (display : Display)

theorem ShowsWithin.refl : display.ShowsWithin display :=
  ⟨id, id⟩

theorem showsWithin_inline : display.ShowsWithin .inline :=
  ⟨nofun, fun _ => rfl⟩

theorem block_showsWithin : Display.block.ShowsWithin display :=
  ⟨fun _ => rfl, nofun⟩

end Display

namespace Tree

open Annotate (isBlockLike isEdgeSensitive isPreLike isScriptLike isTextOrInterpolation)
open Format (Sensitivity)

/-- Whether a node is in one whose content is not shown. -/
def IsHidden (tree : Tree) (id : NodeId) : Prop :=
  ∃ parent, tree.parent? id = some parent ∧ (tree.node parent).display = .none

/-- Whether a node and its neighbour are parts of a running text. -/
def runsInto (tree : Tree) (id : NodeId) (neighbour : Option NodeId) : Bool :=
  isTextOrInterpolation (tree.kind id) && neighbour.any fun other => isTextOrInterpolation (tree.kind other)

/-- Whether the displays let white space show between a node and its neighbour on one side. -/
def displaysShow (tree : Tree) (parent id : NodeId) : Option NodeId → Bool
  | none =>
    !(tree.isRoot parent || isPreLike (tree.kind id) || isScriptLike (tree.kind parent) ||
      !isEdgeSensitive (tree.node parent).display)
  | some other => !isBlockLike (tree.node other).display

/-- The links of a child to its neighbours lead to children of the same node, and back. -/
structure Beside (tree : Tree) (parent id : NodeId) : Prop where
  above : tree.parent? id = some parent
  before : ∀ before, tree.prev? id = some before → tree.parent? before = some parent ∧ tree.next? before = some id
  after : ∀ after, tree.next? id = some after → tree.parent? after = some parent ∧ tree.prev? after = some id

/-- Another tree of the same nodes, whose displays let no less white space show. -/
structure Milder (tree other : Tree) : Prop where
  kind : ∀ id, other.kind id = tree.kind id
  parent : ∀ id, other.parent? id = tree.parent? id
  prev : ∀ id, other.prev? id = tree.prev? id
  next : ∀ id, other.next? id = tree.next? id
  children : ∀ id, other.children id = tree.children id
  display : ∀ id, (tree.node id).display.ShowsWithin (other.node id).display

variable {tree other : Tree} {id parent : NodeId} {neighbour : Option NodeId}

/-! ### What shows below a node -/

theorem isSensitiveTowards_eq (above : tree.parent? id = some parent) (neighbour : Option NodeId) :
    tree.isSensitiveTowards id neighbour = (!tree.isFrontMatter id && (tree.runsInto id neighbour ||
      (tree.node parent).display ≠ .none &&
        (isPreLike (tree.kind parent) || tree.displaysShow parent id neighbour))) := by
  unfold isSensitiveTowards runsInto
  dsimp only
  rw [above]
  dsimp only
  cases neighbour <;> split <;> simp_all [displaysShow]

theorem isLeadingSensitive_eq (tree : Tree) (id : NodeId) :
    tree.isLeadingSensitive id = (tree.isSensitiveTowards id (tree.prev? id) &&
      (!((tree.prev? id).isNone && tree.parentIgnoresLineFeed id) || (tree.kind id).isInterpolation)) := by
  unfold isLeadingSensitive
  dsimp only
  cases tree.isSensitiveTowards id (tree.prev? id) <;> cases (tree.prev? id).isNone <;>
    cases tree.parentIgnoresLineFeed id <;> rfl

/-- Where content is hidden, only white space in a running text shows. -/
theorem isSensitiveTowards_hidden (above : tree.parent? id = some parent) (hidden : (tree.node parent).display = .none)
    (neighbour : Option NodeId) : tree.isSensitiveTowards id neighbour = tree.runsInto id neighbour := by
  rw [isSensitiveTowards_eq above, hidden]
  unfold runsInto isFrontMatter
  cases tree.kind id <;> simp [isTextOrInterpolation, NodeKind.isText, NodeKind.isInterpolation]

theorem runsInto_comm {next : NodeId} : tree.runsInto id (some next) = tree.runsInto next (some id) :=
  Bool.and_comm _ _

theorem agreesLeading_hidden (beside : tree.Beside parent id) (hidden : (tree.node parent).display = .none) :
    tree.agreesLeading id = tree.runsInto id (tree.prev? id) := by
  unfold agreesLeading
  rw [isLeadingSensitive_eq, isSensitiveTowards_hidden beside.above hidden]
  cases found : tree.prev? id with
  | none => rw [runsInto, Option.any_none, Bool.and_false, Bool.false_and, Bool.false_and]
  | some before =>
    obtain ⟨around, next⟩ := beside.before before found
    rw [Option.all_some, isTrailingSensitive, isSensitiveTowards_hidden around hidden, next, runsInto_comm,
      Option.isNone_some, Bool.false_and, Bool.not_false, Bool.true_or, Bool.and_true, Bool.and_self]

theorem agreesTrailing_hidden (beside : tree.Beside parent id) (hidden : (tree.node parent).display = .none) :
    tree.agreesTrailing id = tree.runsInto id (tree.next? id) := by
  unfold agreesTrailing isTrailingSensitive
  rw [isSensitiveTowards_hidden beside.above hidden]
  cases found : tree.next? id with
  | none => rw [runsInto, Option.any_none, Bool.and_false, Bool.false_and]
  | some after =>
    obtain ⟨around, prev⟩ := beside.after after found
    rw [Option.all_some, isLeadingSensitive_eq, isSensitiveTowards_hidden around hidden, prev, runsInto_comm,
      Option.isNone_some, Bool.false_and, Bool.not_false, Bool.true_or, Bool.and_true, Bool.and_self]

/-! ### Milder displays -/

namespace Milder

variable (milder : tree.Milder other)

include milder

theorem runsInto (id : NodeId) (neighbour : Option NodeId) :
    other.runsInto id neighbour = tree.runsInto id neighbour := by
  unfold Tree.runsInto
  simp only [milder.kind]

theorem displaysShow (shows : tree.displaysShow parent id neighbour = true) :
    other.displaysShow parent id neighbour = true := by
  cases neighbour with
  | none =>
    unfold Tree.displaysShow isRoot at shows ⊢
    simp only [Bool.not_eq_true', Bool.or_eq_false_iff, Bool.not_eq_false'] at shows ⊢
    rw [milder.kind, milder.kind]
    exact ⟨shows.1, (milder.display parent).edge shows.2⟩
  | some next =>
    unfold Tree.displaysShow at shows ⊢
    rw [Bool.not_eq_true'] at shows ⊢
    exact Bool.eq_false_iff.mpr fun blockLike => Bool.eq_false_iff.mp shows ((milder.display next).blockLike blockLike)

theorem isDanglingSensitive (shows : tree.isDanglingSensitive id = true) : other.isDanglingSensitive id = true := by
  unfold Tree.isDanglingSensitive at shows ⊢
  rw [Bool.and_eq_true] at shows ⊢
  rw [milder.kind]
  exact ⟨(milder.display id).edge shows.1, shows.2⟩

variable (shown : (other.node parent).display = .none → (tree.node parent).display = .none)

include shown

theorem isSensitiveTowards (above : tree.parent? id = some parent)
    (sensitive : tree.isSensitiveTowards id neighbour = true) : other.isSensitiveTowards id neighbour = true := by
  rw [isSensitiveTowards_eq above] at sensitive
  rw [isSensitiveTowards_eq ((milder.parent id).trans above), milder.runsInto, milder.kind]
  unfold isFrontMatter at sensitive ⊢
  rw [milder.kind]
  simp only [Bool.and_eq_true, Bool.or_eq_true, decide_eq_true_iff] at sensitive ⊢
  exact ⟨sensitive.1, sensitive.2.imp_right fun ⟨visible, shows⟩ =>
    ⟨fun hidden => visible (shown hidden), shows.imp_right milder.displaysShow⟩⟩

theorem isLeadingSensitive (above : tree.parent? id = some parent)
    (sensitive : tree.isLeadingSensitive id = true) : other.isLeadingSensitive id = true := by
  have lineFeed : other.parentIgnoresLineFeed id = tree.parentIgnoresLineFeed id := by
    have kinds : other.kind = tree.kind := funext milder.kind
    rw [parentIgnoresLineFeed, parentIgnoresLineFeed, milder.parent, kinds]
  rw [isLeadingSensitive_eq, Bool.and_eq_true] at sensitive ⊢
  rw [milder.prev, milder.kind, lineFeed]
  exact ⟨milder.isSensitiveTowards shown above sensitive.1, sensitive.2⟩

theorem isTrailingSensitive (above : tree.parent? id = some parent)
    (sensitive : tree.isTrailingSensitive id = true) : other.isTrailingSensitive id = true := by
  unfold Tree.isTrailingSensitive at sensitive ⊢
  rw [milder.next]
  exact milder.isSensitiveTowards shown above sensitive

theorem agreesLeading (beside : tree.Beside parent id) (agrees : tree.agreesLeading id = true) :
    other.agreesLeading id = true := by
  unfold Tree.agreesLeading at agrees ⊢
  rw [Bool.and_eq_true, Option.all_eq_true] at agrees ⊢
  rw [milder.prev]
  exact ⟨milder.isLeadingSensitive shown beside.above agrees.1, fun before found =>
    milder.isTrailingSensitive shown (beside.before before found).1 (agrees.2 before found)⟩

theorem agreesTrailing (beside : tree.Beside parent id) (agrees : tree.agreesTrailing id = true) :
    other.agreesTrailing id = true := by
  unfold Tree.agreesTrailing at agrees ⊢
  rw [Bool.and_eq_true, Option.all_eq_true] at agrees ⊢
  rw [milder.next]
  exact ⟨milder.isTrailingSensitive shown beside.above agrees.1, fun after found =>
    milder.isLeadingSensitive shown (beside.after after found).1 (agrees.2 after found)⟩

end Milder

/-! ### Displays -/

theorem displayOf_cases (tree : Tree) (id : NodeId) :
    (∀ sensitivity, tree.displayOf id sensitivity = tree.displayOf id .css) ∨
      tree.displayOf id .strict = .inline ∧ tree.displayOf id .ignore = .block := by
  unfold displayOf
  dsimp only
  split
  · exact .inl fun _ => rfl
  · split
    · exact .inl fun _ => rfl
    · exact .inr ⟨rfl, rfl⟩

/-- The tree with displays, before what shows is flagged. -/
def displayed (tree : Tree) (sensitivity : Sensitivity) : Tree :=
  (tree.resolveDisplays sensitivity).markSelfClosing

variable {sensitivity milderSensitivity : Sensitivity}

/-- What is not written while displays are is the same as before. -/
theorem displayed_keeps {β : Type} (part : Node → β) (unseen : ∀ node display flags,
    part { node with display := display, flags := flags } = part node) :
    part ((tree.displayed sensitivity).node id) = part (tree.node id) :=
  (mapNodes_keeps part fun _ node => unseen node node.display _).trans
    (mapNodes_keeps part fun _ node => unseen node _ node.flags)

theorem display_displayed (inside : id < tree.size) :
    ((tree.displayed sensitivity).node id).display = tree.displayOf id sensitivity := by
  unfold displayed markSelfClosing resolveDisplays
  rw [node_mapNodes (by rwa [size_mapNodes]), node_mapNodes inside]

theorem size_displayed : (tree.displayed sensitivity).size = tree.size := by
  unfold displayed markSelfClosing resolveDisplays
  rw [size_mapNodes, size_mapNodes]

theorem displayed_rel {R : Display → Display → Prop} (same : R .inline .inline)
    (related : ∀ id, R (tree.displayOf id sensitivity) (tree.displayOf id milderSensitivity)) (id : NodeId) :
    R ((tree.displayed sensitivity).node id).display ((tree.displayed milderSensitivity).node id).display := by
  by_cases inside : id < tree.size
  · rw [display_displayed inside, display_displayed inside]
    exact related id
  · have outside := Nat.le_of_not_lt inside
    rw [node_of_size_le (by rwa [size_displayed]), node_of_size_le (by rwa [size_displayed])]
    exact same

theorem milder_displayed
    (related : ∀ id, (tree.displayOf id sensitivity).ShowsWithin (tree.displayOf id milderSensitivity)) :
    (tree.displayed sensitivity).Milder (tree.displayed milderSensitivity) := by
  have same {β : Type} (part : Node → β) (unseen : ∀ node display flags,
      part { node with display := display, flags := flags } = part node) (id : NodeId) :
      part ((tree.displayed milderSensitivity).node id) = part ((tree.displayed sensitivity).node id) :=
    (displayed_keeps part unseen).trans (displayed_keeps part unseen).symm
  exact ⟨same (·.kind) fun _ _ _ => rfl, same Node.parent fun _ _ _ => rfl, same Node.prev fun _ _ _ => rfl,
    same Node.next fun _ _ _ => rfl, same Node.children fun _ _ _ => rfl, displayed_rel (.refl _) related⟩

theorem milder_css_strict (tree : Tree) : (tree.displayed .css).Milder (tree.displayed .strict) := by
  refine milder_displayed fun id => ?_
  rcases tree.displayOf_cases id with same | ⟨inline, -⟩
  · rw [same .strict]
    exact .refl _
  · rw [inline]
    exact Display.showsWithin_inline _

theorem milder_ignore_css (tree : Tree) : (tree.displayed .ignore).Milder (tree.displayed .css) := by
  refine milder_displayed fun id => ?_
  rcases tree.displayOf_cases id with same | ⟨-, block⟩
  · rw [same .ignore]
    exact .refl _
  · rw [block]
    exact Display.block_showsWithin _

theorem hidden_css_of_strict : ∀ id, ((tree.displayed .strict).node id).display = .none →
    ((tree.displayed .css).node id).display = .none := by
  refine displayed_rel (R := fun strict css => strict = .none → css = .none) id fun id hidden => ?_
  rcases tree.displayOf_cases id with same | ⟨inline, -⟩
  · rwa [same .strict] at hidden
  · rw [inline] at hidden
    cases hidden

/-! ### Neighbours -/

theorem beside_ofRoot {source : String} {root : Fragment} (above : (ofRoot source root).parent? id = some parent) :
    (ofRoot source root).Beside parent id := by
  have numbered := numbered_ofRoot source root
  have inside : id < (ofRoot source root).size := by
    refine Nat.lt_of_not_le fun outside => ?_
    unfold parent? at above
    rw [node_of_size_le outside] at above
    cases above
  have below : id ≠ rootId := by
    rintro rfl
    rw [numbered.root.1] at above
    cases above
  obtain ⟨around, member⟩ := exists_parent inside below
  obtain ⟨before, after, split⟩ := List.append_of_mem member
  obtain ⟨isParent, prev, next⟩ := numbered.linked split
  rw [above, Option.some.injEq] at isParent
  subst isParent
  refine ⟨above, fun other found => ?_, fun other found => ?_⟩
  · rw [prev, List.getLast?_eq_some_iff] at found
    obtain ⟨start, rfl⟩ := found
    rw [List.append_assoc] at split
    obtain ⟨isParent, -, next⟩ := numbered.linked split
    exact ⟨isParent, next⟩
  · rw [next, List.head?_eq_some_iff] at found
    obtain ⟨rest, rfl⟩ := found
    rw [List.append_cons] at split
    obtain ⟨isParent, prev, -⟩ := numbered.linked split
    rw [List.getLast?_append_cons] at prev
    exact ⟨isParent, prev⟩

theorem Beside.displayed (beside : tree.Beside parent id) (sensitivity : Sensitivity) :
    (tree.displayed sensitivity).Beside parent id := by
  have above (id) : (tree.displayed sensitivity).parent? id = tree.parent? id :=
    displayed_keeps Node.parent fun _ _ _ => rfl
  have prev (id) : (tree.displayed sensitivity).prev? id = tree.prev? id :=
    displayed_keeps Node.prev fun _ _ _ => rfl
  have next (id) : (tree.displayed sensitivity).next? id = tree.next? id :=
    displayed_keeps Node.next fun _ _ _ => rfl
  refine ⟨(above id).trans beside.above, ?_, ?_⟩
  · simpa only [above, prev, next] using beside.before
  · simpa only [above, prev, next] using beside.after

end Tree

end MarkupFormat.Markup

namespace MarkupFormat.Annotate

open Format (Options Sensitivity)
open Markup (Flags Fragment NodeId Tree)
open Markup.Tree (Beside)

/-- The tree of a source under another sensitivity than that of the options. -/
def classifyUnder (source : String) (options : Options) (root : Fragment) (sensitivity : Sensitivity) : Tree :=
  classify source { options with sensitivity } root

variable {source : String} {options : Options} {root : Fragment} {sensitivity : Sensitivity} {id parent : NodeId}

theorem flags_classifyUnder (inside : id < root.size) :
    ((classifyUnder source options root sensitivity).node id).flags =
      ((Tree.ofRoot source root).displayed sensitivity).sensitivityFlags id
        (((Tree.ofRoot source root).displayed sensitivity).node id) := by
  have inside : id < ((Tree.ofRoot source root).displayed sensitivity).size := by
    rwa [Tree.size_displayed, Tree.size_ofRoot]
  exact Tree.flags_markSensitivity inside

theorem flags_classifyUnder_of_size_le (outside : root.size ≤ id) :
    ((classifyUnder source options root sensitivity).node id).flags = {} := by
  rw [Tree.node_of_size_le (by rwa [classifyUnder, size_classify])]
  rfl

theorem childFlag_iff {flag : Flags → Bool} {agrees : Tree → NodeId → Bool} (unset : flag {} = false)
    (written : ∀ tree id node, flag (Tree.sensitivityFlags tree id node) = (node.parent.isSome && agrees tree id)) :
    flag ((classifyUnder source options root sensitivity).node id).flags = true ↔
      ∃ parent, (Tree.ofRoot source root).Beside parent id ∧
        agrees ((Tree.ofRoot source root).displayed sensitivity) id = true := by
  have same : (((Tree.ofRoot source root).displayed sensitivity).node id).parent =
      (Tree.ofRoot source root).parent? id :=
    Tree.displayed_keeps Markup.Node.parent fun _ _ _ => rfl
  by_cases inside : id < root.size
  · rw [flags_classifyUnder inside, written, same, Bool.and_eq_true, Option.isSome_iff_exists]
    constructor
    · rintro ⟨⟨parent, above⟩, agrees⟩
      exact ⟨parent, Tree.beside_ofRoot above, agrees⟩
    · rintro ⟨parent, beside, agrees⟩
      exact ⟨⟨parent, beside.above⟩, agrees⟩
  · have outside := Nat.le_of_not_lt inside
    rw [flags_classifyUnder_of_size_le outside, unset]
    refine ⟨fun shows => absurd shows Bool.false_ne_true, ?_⟩
    rintro ⟨parent, beside, -⟩
    have above := beside.above
    unfold Tree.parent? at above
    rw [Tree.node_of_size_le (by rwa [Tree.size_ofRoot])] at above
    cases above

theorem leadingSensitive_iff :
    ((classifyUnder source options root sensitivity).node id).flags.leadingSensitive = true ↔
      ∃ parent, (Tree.ofRoot source root).Beside parent id ∧
        ((Tree.ofRoot source root).displayed sensitivity).agreesLeading id = true :=
  childFlag_iff rfl fun _ _ _ => rfl

theorem trailingSensitive_iff :
    ((classifyUnder source options root sensitivity).node id).flags.trailingSensitive = true ↔
      ∃ parent, (Tree.ofRoot source root).Beside parent id ∧
        ((Tree.ofRoot source root).displayed sensitivity).agreesTrailing id = true :=
  childFlag_iff rfl fun _ _ _ => rfl

theorem danglingSensitive_mono {milder : Sensitivity}
    (within : ((Tree.ofRoot source root).displayed sensitivity).Milder ((Tree.ofRoot source root).displayed milder))
    (shows : ((classifyUnder source options root sensitivity).node id).flags.danglingSensitive = true) :
    ((classifyUnder source options root milder).node id).flags.danglingSensitive = true := by
  by_cases inside : id < root.size
  · rw [flags_classifyUnder inside] at shows ⊢
    unfold Tree.sensitivityFlags at shows ⊢
    dsimp only at shows ⊢
    rw [Bool.and_eq_true] at shows ⊢
    refine ⟨?_, within.isDanglingSensitive shows.2⟩
    have kind := within.kind id
    have children := within.children id
    unfold Tree.kind at kind
    unfold Tree.children at children
    rw [kind, children]
    exact shows.1
  · rw [flags_classifyUnder_of_size_le (Nat.le_of_not_lt inside)] at shows
    cases shows

/-! ### By style and where all nodes are inline -/

theorem sensitiveWithin_css_strict (source : String) (options : Options) (root : Fragment) (id : NodeId) :
    ((classifyUnder source options root .css).node id).flags.SensitiveWithin
      ((classifyUnder source options root .strict).node id).flags := by
  have milder := Tree.milder_css_strict (Tree.ofRoot source root)
  refine ⟨fun shows => ?_, fun shows => ?_, danglingSensitive_mono milder⟩
  · obtain ⟨parent, beside, agrees⟩ := leadingSensitive_iff.mp shows
    exact leadingSensitive_iff.mpr ⟨parent, beside,
      milder.agreesLeading (Tree.hidden_css_of_strict parent) (beside.displayed .css) agrees⟩
  · obtain ⟨parent, beside, agrees⟩ := trailingSensitive_iff.mp shows
    exact trailingSensitive_iff.mpr ⟨parent, beside,
      milder.agreesTrailing (Tree.hidden_css_of_strict parent) (beside.displayed .css) agrees⟩

/-! ### Where all nodes are blocks, and by style -/

/-- What is not a flag is as it was when displays were written. -/
theorem classifyUnder_keeps {β : Type} (part : Markup.Node → β)
    (unseen : ∀ node flags, part { node with flags := flags } = part node) (id : NodeId) :
    part ((classifyUnder source options root sensitivity).node id) =
      part (((Tree.ofRoot source root).displayed sensitivity).node id) :=
  Tree.mapNodes_keeps part fun _ node => unseen node _

theorem isHidden_iff (beside : (Tree.ofRoot source root).Beside parent id) :
    (classifyUnder source options root sensitivity).IsHidden id ↔
      (((Tree.ofRoot source root).displayed sensitivity).node parent).display = .none := by
  have above : (classifyUnder source options root sensitivity).parent? id = some parent :=
    (classifyUnder_keeps Markup.Node.parent (fun _ _ => rfl) id).trans (beside.displayed sensitivity).above
  have display : ((classifyUnder source options root sensitivity).node parent).display =
      (((Tree.ofRoot source root).displayed sensitivity).node parent).display :=
    classifyUnder_keeps (·.display) (fun _ _ => rfl) parent
  rw [← display]
  refine ⟨fun ⟨other, same, hidden⟩ => ?_, fun hidden => ⟨parent, above, hidden⟩⟩
  rw [above] at same
  cases same
  exact hidden

theorem runsInto_classifyUnder (id : NodeId) (neighbour : Option NodeId) :
    (classifyUnder source options root sensitivity).runsInto id neighbour =
      ((Tree.ofRoot source root).displayed sensitivity).runsInto id neighbour := by
  unfold Tree.runsInto
  simp only [classifyUnder, classify, Tree.kind_markSensitivity]
  rfl

theorem leadingSensitive_css_iff
    (shows : ((classifyUnder source options root .ignore).node id).flags.leadingSensitive = true) :
    ((classifyUnder source options root .css).node id).flags.leadingSensitive = true ↔
      ¬(classifyUnder source options root .css).IsHidden id ∨
        (classifyUnder source options root .css).runsInto id
          ((classifyUnder source options root .css).prev? id) = true := by
  obtain ⟨parent, beside, agrees⟩ := leadingSensitive_iff.mp shows
  have prev : (classifyUnder source options root .css).prev? id =
      ((Tree.ofRoot source root).displayed .css).prev? id :=
    classifyUnder_keeps Markup.Node.prev (fun _ _ => rfl) id
  rw [isHidden_iff beside, runsInto_classifyUnder, prev, leadingSensitive_iff]
  by_cases hidden : (((Tree.ofRoot source root).displayed .css).node parent).display = .none
  · rw [Tree.agreesLeading_hidden (beside.displayed .css) hidden]
    exact ⟨fun ⟨_, _, joined⟩ => .inr joined, fun either => ⟨parent, beside, either.resolve_left (absurd hidden)⟩⟩
  · have milder := Tree.milder_ignore_css (Tree.ofRoot source root)
    exact iff_of_true ⟨parent, beside,
      milder.agreesLeading (absurd · hidden) (beside.displayed .ignore) agrees⟩ (.inl hidden)

theorem trailingSensitive_css_iff
    (shows : ((classifyUnder source options root .ignore).node id).flags.trailingSensitive = true) :
    ((classifyUnder source options root .css).node id).flags.trailingSensitive = true ↔
      ¬(classifyUnder source options root .css).IsHidden id ∨
        (classifyUnder source options root .css).runsInto id
          ((classifyUnder source options root .css).next? id) = true := by
  obtain ⟨parent, beside, agrees⟩ := trailingSensitive_iff.mp shows
  have next : (classifyUnder source options root .css).next? id =
      ((Tree.ofRoot source root).displayed .css).next? id :=
    classifyUnder_keeps Markup.Node.next (fun _ _ => rfl) id
  rw [isHidden_iff beside, runsInto_classifyUnder, next, trailingSensitive_iff]
  by_cases hidden : (((Tree.ofRoot source root).displayed .css).node parent).display = .none
  · rw [Tree.agreesTrailing_hidden (beside.displayed .css) hidden]
    exact ⟨fun ⟨_, _, joined⟩ => .inr joined, fun either => ⟨parent, beside, either.resolve_left (absurd hidden)⟩⟩
  · have milder := Tree.milder_ignore_css (Tree.ofRoot source root)
    exact iff_of_true ⟨parent, beside,
      milder.agreesTrailing (absurd · hidden) (beside.displayed .ignore) agrees⟩ (.inl hidden)

/-- Of any root, and so of that of a source that is read: White space that shows by style shows where all nodes are
inline. White space that shows where all nodes are blocks shows by style, unless it is in a node whose content is hidden
by style and not in a running text. -/
theorem sensitivities_ordered (source : String) (options : Options) (root : Fragment) (id : NodeId) :
    let ignore := classifyUnder source options root .ignore
    let css := classifyUnder source options root .css
    let strict := classifyUnder source options root .strict
    (css.node id).flags.SensitiveWithin (strict.node id).flags ∧
    ((ignore.node id).flags.danglingSensitive = true → (css.node id).flags.danglingSensitive = true) ∧
    ((ignore.node id).flags.leadingSensitive = true →
      ((css.node id).flags.leadingSensitive = true ↔ ¬css.IsHidden id ∨ css.runsInto id (css.prev? id) = true)) ∧
    ((ignore.node id).flags.trailingSensitive = true →
      ((css.node id).flags.trailingSensitive = true ↔ ¬css.IsHidden id ∨ css.runsInto id (css.next? id) = true)) :=
  ⟨sensitiveWithin_css_strict source options root id,
    danglingSensitive_mono (Tree.milder_ignore_css (Tree.ofRoot source root)),
    leadingSensitive_css_iff, trailingSensitive_css_iff⟩

/-- Two drawings in an element whose content is hidden by style. -/
def hiddenDrawings : String := "<head><svg></svg><svg></svg></head>"

/-- As the element is not hidden if it is a block, white space between the drawings shows only then. -/
theorem not_sensitiveWithin_hiddenDrawings : ∃ content, Markup.parse hiddenDrawings {} = .ok content ∧
    let root := normalize (rootOver hiddenDrawings content)
    ¬((classifyUnder hiddenDrawings {} root .ignore).node 3).flags.SensitiveWithin
      ((classifyUnder hiddenDrawings {} root .css).node 3).flags := by
  have found : (Markup.parse hiddenDrawings {}).toOption.map (fun content =>
      let root := normalize (rootOver hiddenDrawings content)
      (((classifyUnder hiddenDrawings {} root .ignore).node 3).flags.leadingSensitive,
        ((classifyUnder hiddenDrawings {} root .css).node 3).flags.leadingSensitive)) = some (true, false) := by
    decide +kernel
  cases parsed : Markup.parse hiddenDrawings {} with
  | error failure =>
    rw [parsed] at found
    cases found
  | ok content =>
    rw [parsed] at found
    obtain ⟨ignore, css⟩ := Prod.mk.inj (Option.some.inj found)
    exact ⟨content, rfl, fun within => Bool.noConfusion ((within.leading ignore).symm.trans css)⟩

end MarkupFormat.Annotate
