import MarkupFormat.Proofs.Layout.Built
import MarkupFormat.Proofs.Layout.Sharing

/-!
# Rewritten documents

`Doc.transform` remembers the result for each node, so that a node with several parents is rewritten once. The tree of
what it makes is nevertheless the tree that is rewritten without remembering anything (`transform_eq_rewritten`), for a
rule whose results have trees that depend on trees alone.
-/

namespace MarkupFormat.Layout

open Build (Makes)

namespace Doc

mutual

/-- A tree rewritten from its leaves upwards: `f` is applied to each node over the rewritten nodes below it. -/
def rewritten (f : Doc → Doc) : Doc → Doc
  | text _ content => f (text 0 content)
  | concat _ parts => f (concat 0 (rewrittenAll f parts))
  | indent _ body => f (indent 0 (body.rewritten f))
  | align _ kind body => f (align 0 kind (body.rewritten f))
  | group _ info body => f (group 0 info (body.rewritten f))
  | choice _ info body first others =>
    f (choice 0 info (body.rewritten f) (first.rewritten f) (rewrittenAll f others))
  | fill _ parts => f (fill 0 (rewrittenAll f parts))
  | line _ kind => f (line 0 kind)
  | breakParent _ => f (breakParent 0)
  | ifBreak _ broken flat id => f (ifBreak 0 (broken.rewritten f) (flat.rewritten f) id)
  | indentIfBreak _ body id negate => f (indentIfBreak 0 (body.rewritten f) id negate)
  | trim _ => f (trim 0)
  | label _ name body => f (label 0 name (body.rewritten f))

def rewrittenAll (f : Doc → Doc) : List Doc → List Doc
  | [] => []
  | doc :: docs => doc.rewritten f :: rewrittenAll f docs

end

/-- The node made anew over the images of the nodes below it. Leaves stay the nodes they are, and the body of a group
with alternatives is the first of these again. -/
def remade (image : Doc → Doc) (mark : Mark) : Doc → Doc
  | concat _ parts => concat mark (parts.map image)
  | indent _ body => indent mark (image body)
  | align _ kind body => align mark kind (image body)
  | group _ info body => group mark info (image body)
  | choice _ info _ first others => choice mark info (image first) (image first) (others.map image)
  | fill _ parts => fill mark (parts.map image)
  | ifBreak _ broken flat id => ifBreak mark (image broken) (image flat) id
  | indentIfBreak _ body id negate => indentIfBreak mark (image body) id negate
  | label _ name body => label mark name (image body)
  | leaf => leaf

variable {f image other : Doc → Doc} {doc : Doc} {mark : Mark}

theorem unfoldedAll_map {docs : List Doc} (trees : ∀ doc ∈ docs, (image doc).unfolded = doc.rewritten f) :
    unfoldedAll (docs.map image) = rewrittenAll f docs := by
  induction docs with
  | nil => rfl
  | cons doc docs ih =>
    obtain ⟨here, behind⟩ := List.forall_mem_cons.mp trees
    rw [List.map_cons, unfoldedAll, here, ih behind, rewrittenAll]

theorem remade_congr (same : ∀ child ∈ doc.children true, image child = other child) :
    doc.remade image mark = doc.remade other mark := by
  cases doc with
  | text | line | breakParent | trim => rfl
  | concat _ parts | fill _ parts =>
    have images : parts.map image = parts.map other := List.map_congr_left same
    simp only [remade]
    rw [images]
  | indent _ body | align _ _ body | group _ _ body | indentIfBreak _ body _ _ | label _ _ body =>
    simp only [remade]
    rw [same body List.mem_cons_self]
  | choice _ _ _ first others =>
    obtain ⟨sameFirst, sameOthers⟩ := List.forall_mem_cons.mp same
    simp only [remade]
    rw [sameFirst, List.map_congr_left sameOthers]
  | ifBreak _ broken flat _ =>
    simp only [remade]
    rw [same broken List.mem_cons_self, same flat (List.mem_cons_of_mem _ List.mem_cons_self)]

theorem unfolded_remade
    (bodies : ∀ mark info body first others, doc = .choice mark info body first others → body = first)
    (trees : ∀ child ∈ doc.children true, (image child).unfolded = child.rewritten f) :
    f (doc.remade image mark).unfolded = doc.rewritten f := by
  cases doc with
  | text | line | breakParent | trim => rfl
  | concat _ parts | fill _ parts =>
    have images : unfoldedAll (parts.map image) = rewrittenAll f parts := unfoldedAll_map trees
    simp only [remade, unfolded, rewritten]
    rw [images]
  | indent _ body | align _ _ body | group _ _ body | indentIfBreak _ body _ _ | label _ _ body =>
    simp only [remade, unfolded, rewritten]
    rw [trees body List.mem_cons_self]
  | choice _ _ body first others =>
    obtain ⟨treeFirst, treeOthers⟩ := List.forall_mem_cons.mp trees
    simp only [remade, unfolded, rewritten]
    rw [bodies _ _ _ _ _ rfl, treeFirst, unfoldedAll_map treeOthers]
  | ifBreak _ broken flat _ =>
    simp only [remade, unfolded, rewritten]
    rw [trees broken List.mem_cons_self, trees flat (List.mem_cons_of_mem _ List.mem_cons_self)]

end Doc

/-- The rule does to nodes what `f` does to trees. -/
def Build.Applies (rule : Doc → Build Doc) (f : Doc → Doc) : Prop :=
  ∀ node, Makes (rule node) fun result => result.unfolded = f node.unfolded

/-! ### Runs -/

section Computations

variable {α β : Type} {run : RuleRun} {holds : α × RuleRun → Prop}

theorem Build.Makes.made {build : Build α} {holds : α → Prop} (makes : Makes build holds) :
    Makes build fun value => holds value ∧ ∃ before after, build.run before = .ok (value, after) := by
  intro supply
  obtain ⟨⟨value, after⟩, ran, here⟩ := makes supply
  exact ⟨(value, after), ran, here, supply, after, ran⟩

theorem Transforming.makes_bind {first : Transforming α} {next : α → Transforming β} {after : β × RuleRun → Prop}
    (makes : Makes (first.run run) holds) (then_ : ∀ made, holds made → Makes ((next made.1).run made.2) after) :
    Makes ((first >>= next).run run) after := by
  rw [StateT.run_bind]
  exact Build.makes_bind makes then_

theorem Transforming.makes_lift {build : Build α} {holds : α → Prop} (makes : Makes build holds) :
    Makes ((liftM build : Transforming α).run run) fun made => holds made.1 ∧ run = made.2 := by
  show Makes (build >>= fun value => pure (value, run)) _
  exact Build.makes_bind makes fun value here => Build.makes_pure ⟨here, rfl⟩

end Computations

namespace RuleRun

variable {root : Doc} {rule : Doc → Build Doc} {f : Doc → Doc} {doc node : Doc} {nodes later : List Doc}
  {run after last : RuleRun} {bound : Nat}

/-- What a run has made of a node. -/
def image (run : RuleRun) (node : Doc) : Doc :=
  run.results.getD node.mark node

/-- The rule was given the node made anew over the images of the nodes below it, and its result is the image of the
node. -/
def Gave (rule : Doc → Build Doc) (run : RuleRun) (node given : Doc) : Prop :=
  ∃ mark before after, given = node.remade run.image mark ∧ (rule given).run before = .ok (run.image node, after)

/-- What a run has done that has come to an end with some nodes: the rule was applied to each of them once, and not
before the nodes below it. -/
structure Covers (root : Doc) (rule : Doc → Build Doc) (f : Doc → Doc) (nodes : List Doc) (run : RuleRun) : Prop where
  nodup : nodes.Nodup
  inside : ∀ node ∈ nodes, root.Contains node
  closed : ∀ node ∈ nodes, ∀ child ∈ node.children true, child ∈ nodes
  known : ∀ node, root.Contains node → (node ∈ nodes ↔ node.mark ∈ run.results)
  applied : List.Forall₂ (Gave rule run) nodes run.applied
  trees : ∀ node ∈ nodes, (run.image node).unfolded = node.rewritten f

/-- A run goes on and meets no node heavier than `bound` for the first time. -/
structure Goes (root : Doc) (rule : Doc → Build Doc) (f : Doc → Doc) (nodes : List Doc) (run : RuleRun) (bound : Nat)
    (later : List Doc) (after : RuleRun) : Prop extends Covers root rule f later after where
  kept : ∀ node ∈ nodes, node ∈ later ∧ after.image node = run.image node
  light : ∀ node ∈ later, node ∈ nodes ∨ node.weight ≤ bound

theorem image_insert {result : Doc} {applied : List Doc} {mark : Mark} :
    RuleRun.image ⟨run.results.insert mark result, applied⟩ node =
      if mark = node.mark then result else run.image node := by
  unfold image
  rw [Std.HashMap.getD_insert]
  simp only [beq_iff_eq]

theorem image_of_getElem? {result : Doc} (found : run.results[node.mark]? = some result) : run.image node = result := by
  unfold image
  rw [Std.HashMap.getD_eq_getD_getElem?, found, Option.getD_some]

theorem Gave.congr {given : Doc} (gave : run.Gave rule node given) (same : after.image node = run.image node)
    (below : ∀ child ∈ node.children true, after.image child = run.image child) : after.Gave rule node given := by
  obtain ⟨mark, before, supply, rfl, ran⟩ := gave
  exact ⟨mark, before, supply, Doc.remade_congr fun child member => (below child member).symm, same ▸ ran⟩

theorem Covers.goes (covers : Covers root rule f nodes run) : Goes root rule f nodes run bound nodes run :=
  { covers with kept := fun _ member => ⟨member, rfl⟩, light := fun _ => Or.inl }

theorem Goes.trans {end_ : List Doc} (first : Goes root rule f nodes run bound later after)
    (second : Goes root rule f later after bound end_ last) : Goes root rule f nodes run bound end_ last := by
  refine { second with kept := fun node member => ?_, light := fun node member => ?_ }
  · obtain ⟨isLater, same⟩ := first.kept node member
    obtain ⟨isLast, sameLater⟩ := second.kept node isLater
    exact ⟨isLast, sameLater.trans same⟩
  · rcases second.light node member with isLater | light
    · exact first.light node isLater
    · exact Or.inr light

theorem Goes.mono {more : Nat} (goes : Goes root rule f nodes run bound later after) (le : bound ≤ more) :
    Goes root rule f nodes run more later after :=
  { goes with light := fun node member => (goes.light node member).imp_right (Nat.le_trans · le) }

theorem Covers.apply (graph : root.IsGraph) (applies : Build.Applies rule f) (covers : Covers root rule f nodes run)
    (contains : root.Contains node) (fresh : node ∉ nodes) (below : ∀ child ∈ node.children true, child ∈ nodes)
    (mark : Mark) :
    Makes ((Transforming.apply rule node.mark (node.remade run.image mark)).run run) fun made =>
      Goes root rule f nodes run node.weight (node :: nodes) made.2 ∧ made.1 = made.2.image node := by
  refine Transforming.makes_bind (Transforming.makes_lift (applies (node.remade run.image mark)).made) ?_
  rintro ⟨result, _⟩ ⟨⟨tree, ran⟩, rfl⟩
  refine Build.makes_pure ?_
  let next : RuleRun := ⟨run.results.insert node.mark result, node.remade run.image mark :: run.applied⟩
  have image : next.image node = result := by rw [image_insert, if_pos rfl]
  have kept : ∀ other ∈ nodes, next.image other = run.image other := by
    intro other member
    have apart : node.mark ≠ other.mark := fun same =>
      fresh (graph.apart _ _ contains (covers.inside other member) same ▸ member)
    rw [image_insert, if_neg apart]
  have trees : ∀ child ∈ node.children true, (run.image child).unfolded = child.rewritten f :=
    fun child member => covers.trees child (below child member)
  refine ⟨⟨⟨?nodup, ?inside, ?closed, ?known, ?applied, ?trees⟩, ?kept, ?light⟩, image.symm⟩
  case nodup => exact List.nodup_cons.mpr ⟨fresh, covers.nodup⟩
  case inside => exact List.forall_mem_cons.mpr ⟨contains, covers.inside⟩
  case closed =>
    intro other member child isChild
    rcases List.mem_cons.mp member with rfl | member
    · exact List.mem_cons_of_mem _ (below child isChild)
    · exact List.mem_cons_of_mem _ (covers.closed other member child isChild)
  case known =>
    intro other inside
    show _ ↔ other.mark ∈ run.results.insert node.mark result
    rw [Std.HashMap.mem_insert, beq_iff_eq, List.mem_cons, covers.known other inside]
    exact or_congr_left ⟨fun same => same ▸ rfl, fun same => (graph.apart _ _ contains inside same).symm⟩
  case applied =>
    obtain ⟨before, supply, ran⟩ := ran
    refine .cons ⟨mark, before, supply, Doc.remade_congr fun child member => ?_, image.symm ▸ ran⟩ ?_
    · exact (kept child (below child member)).symm
    · refine List.Forall₂.imp ?_ ((List.forall₂_and_left _ _).mpr ⟨fun _ => id, covers.applied⟩)
      rintro other given ⟨member, gave⟩
      exact gave.congr (kept other member) fun child isChild => kept child (covers.closed other member child isChild)
  case trees =>
    refine List.forall_mem_cons.mpr ⟨?_, fun other member => by rw [kept other member, covers.trees other member]⟩
    rw [image, tree]
    exact Doc.unfolded_remade (fun mark info body first others same => graph.bodies mark info body first others
      (same ▸ contains)) trees
  case kept => exact fun other member => ⟨List.mem_cons_of_mem _ member, kept other member⟩
  case light =>
    intro other member
    rcases List.mem_cons.mp member with rfl | member
    · exact Or.inr (Nat.le_refl _)
    · exact Or.inl member

/-! ### What a run does with a node -/

/-- Running the rule for a node leads to its image. -/
def Runs (root : Doc) (rule : Doc → Build Doc) (f : Doc → Doc) (doc : Doc) : Prop :=
  ∀ nodes run, Covers root rule f nodes run → Makes ((doc.runRule rule).run run) fun made =>
    ∃ later, Goes root rule f nodes run doc.weight later made.2 ∧ doc ∈ later ∧ made.1 = made.2.image doc

/-- Running the rule for several nodes leads to their images. -/
def RunsAll (root : Doc) (rule : Doc → Build Doc) (f : Doc → Doc) (docs : List Doc) : Prop :=
  ∀ nodes run, Covers root rule f nodes run → Makes ((Doc.runRuleAll rule docs).run run) fun made =>
    ∃ later, Goes root rule f nodes run (Doc.weights docs) later made.2 ∧ (∀ doc ∈ docs, doc ∈ later) ∧
      made.1 = docs.map made.2.image

/-- Rebuilding a node leads to the node over the images of the nodes below it. -/
def Rebuilds (root : Doc) (rule : Doc → Build Doc) (f : Doc → Doc) (doc : Doc) : Prop :=
  ∀ nodes run, Covers root rule f nodes run → Makes ((doc.rebuild rule).run run) fun made =>
    ∃ later, Goes root rule f nodes run (Doc.weights (doc.children true)) later made.2 ∧
      (∀ child ∈ doc.children true, child ∈ later) ∧ ∃ mark, made.1 = doc.remade made.2.image mark

/-- The rule runs for a node when it is met first. A node is not met below itself, since what is below it is lighter. -/
theorem runs_of_rebuilds (graph : root.IsGraph) (applies : Build.Applies rule f) (contains : root.Contains doc)
    (rebuilds : Rebuilds root rule f doc) : Runs root rule f doc := by
  intro nodes run covers
  rw [Build.run_runRule]
  have known := covers.known doc contains
  split
  · next result found =>
    have met : doc ∈ nodes := known.mpr (Std.HashMap.mem_iff_isSome_getElem?.mpr (by rw [found]; rfl))
    exact Build.makes_pure ⟨nodes, covers.goes, met, (image_of_getElem? found).symm⟩
  · next absent =>
    have unmet : doc ∉ nodes := by
      rw [known, Std.HashMap.mem_iff_isSome_getElem?, absent]
      exact Bool.false_ne_true
    refine Transforming.makes_bind (rebuilds nodes run covers) ?_
    rintro ⟨given, after⟩ ⟨later, goes, below, mark, isGiven⟩
    dsimp only at goes isGiven ⊢
    have lighter := doc.weights_children_lt true
    have fresh : doc ∉ later := by
      intro member
      rcases goes.light doc member with before | light
      · exact unmet before
      · omega
    rw [isGiven]
    refine (goes.toCovers.apply graph applies contains fresh below mark).mono fun made goesOn => ?_
    exact ⟨doc :: later, (goes.mono (Nat.le_of_lt lighter)).trans goesOn.1, List.mem_cons_self, goesOn.2⟩

theorem rebuilds_around {body : Doc} {make : Doc → Build Doc} (only : doc.children true = [body])
    (same : doc.rebuild rule = do make (← body.runRule rule)) (runs : Runs root rule f body)
    (makes : ∀ image : Doc → Doc, Makes (make (image body)) fun result => ∃ mark, result = doc.remade image mark) :
    Rebuilds root rule f doc := by
  intro nodes run covers
  rw [same, only]
  refine Transforming.makes_bind (runs nodes run covers) ?_
  rintro ⟨inside, after⟩ ⟨later, goes, met, isImage⟩
  dsimp only at goes isImage ⊢
  rw [isImage]
  refine (Transforming.makes_lift (makes after.image)).mono ?_
  rintro ⟨made, last⟩ ⟨isMade, unchanged⟩
  dsimp only at isMade unchanged ⊢
  subst unchanged
  have alone : Doc.weights [body] = body.weight := by simp [Doc.weights]
  exact ⟨later, alone ▸ goes, List.forall_mem_singleton.mpr met, isMade⟩

theorem makes_marked (make : Mark → Doc) :
    Makes (do return make (← Build.freshMark)) fun result => ∃ mark, result = make mark :=
  Build.makes_bind Build.makes_freshMark fun mark _ => Build.makes_pure ⟨mark, rfl⟩

theorem runsAll_cons {docs : List Doc} (here : Runs root rule f doc) (behind : RunsAll root rule f docs) :
    RunsAll root rule f (doc :: docs) := by
  intro nodes run covers
  rw [Doc.runRuleAll]
  refine Transforming.makes_bind (here nodes run covers) ?_
  rintro ⟨first, middle⟩ ⟨between, goes, met, isImage⟩
  dsimp only at goes isImage ⊢
  refine Transforming.makes_bind (behind between middle goes.toCovers) ?_
  rintro ⟨others, after⟩ ⟨later, goesOn, metAll, areImages⟩
  dsimp only at goesOn areImages ⊢
  obtain ⟨isLater, same⟩ := goesOn.kept doc met
  refine Build.makes_pure ⟨later, ?_, List.forall_mem_cons.mpr ⟨isLater, metAll⟩, ?_⟩
  · rw [Doc.weights]
    exact (goes.mono (by omega)).trans (goesOn.mono (by omega))
  · rw [List.map_cons, same, isImage, areImages]

theorem rebuilds_ifBreak {mark : Mark} {broken flat : Doc} {id : Option GroupId} (first : Runs root rule f broken)
    (second : Runs root rule f flat) : Rebuilds root rule f (.ifBreak mark broken flat id) := by
  intro nodes run covers
  rw [Doc.rebuild]
  refine Transforming.makes_bind (first nodes run covers) ?_
  rintro ⟨brokenImage, middle⟩ ⟨between, goes, met, isImage⟩
  dsimp only at goes isImage ⊢
  refine Transforming.makes_bind (second between middle goes.toCovers) ?_
  rintro ⟨flatImage, after⟩ ⟨later, goesOn, metFlat, isFlatImage⟩
  dsimp only at goesOn isFlatImage ⊢
  obtain ⟨isLater, same⟩ := goesOn.kept broken met
  refine (Transforming.makes_lift (makes_marked fun mark => .ifBreak mark _ _ id)).mono ?_
  rintro ⟨made, last⟩ ⟨⟨mark, isMade⟩, unchanged⟩
  dsimp only at isMade unchanged ⊢
  subst unchanged
  refine ⟨later, ?_, List.forall_mem_cons.mpr ⟨isLater, List.forall_mem_singleton.mpr metFlat⟩, mark, ?_⟩
  · simp only [Doc.children, Doc.weights]
    exact (goes.mono (by omega)).trans (goesOn.mono (by omega))
  · rw [isMade, isImage, isFlatImage, ← same]
    rfl

theorem rebuilds_choice {mark : Mark} {info : GroupInfo} {body first : Doc} {others : List Doc}
    (runs : Runs root rule f first) (runsOthers : RunsAll root rule f others) :
    Rebuilds root rule f (.choice mark info body first others) := by
  intro nodes run covers
  rw [Doc.rebuild]
  refine Transforming.makes_bind (runs nodes run covers) ?_
  rintro ⟨image, middle⟩ ⟨between, goes, met, isImage⟩
  dsimp only at goes isImage ⊢
  refine Transforming.makes_bind (runsOthers between middle goes.toCovers) ?_
  rintro ⟨images, after⟩ ⟨later, goesOn, metAll, areImages⟩
  dsimp only at goesOn areImages ⊢
  obtain ⟨isLater, same⟩ := goesOn.kept first met
  refine (Transforming.makes_lift (makes_marked fun mark => .choice mark info image image images)).mono ?_
  rintro ⟨made, last⟩ ⟨⟨mark, isMade⟩, unchanged⟩
  dsimp only at isMade unchanged ⊢
  subst unchanged
  refine ⟨later, ?_, List.forall_mem_cons.mpr ⟨isLater, metAll⟩, mark, ?_⟩
  · simp only [Doc.children, Doc.weights, if_true]
    exact (goes.mono (by omega)).trans (goesOn.mono (by omega))
  · rw [isMade, isImage, areImages, ← same]
    rfl

theorem rebuilds_concat {mark : Mark} {parts : List Doc} (runs : RunsAll root rule f parts) :
    Rebuilds root rule f (.concat mark parts) := by
  intro nodes run covers
  rw [Doc.rebuild]
  refine Transforming.makes_bind (runs nodes run covers) ?_
  rintro ⟨images, after⟩ ⟨later, goes, met, areImages⟩
  dsimp only at goes areImages ⊢
  refine (Transforming.makes_lift (makes_marked fun mark => .concat mark images)).mono ?_
  rintro ⟨made, last⟩ ⟨⟨mark, isMade⟩, unchanged⟩
  dsimp only at isMade unchanged ⊢
  subst unchanged
  exact ⟨later, goes, met, mark, by rw [isMade, areImages, Doc.remade]⟩

theorem rebuilds_fill {mark : Mark} {parts : List Doc} (runs : RunsAll root rule f parts) :
    Rebuilds root rule f (.fill mark parts) := by
  intro nodes run covers
  rw [Doc.rebuild]
  refine Transforming.makes_bind (Transforming.makes_lift Build.makes_freshMark) ?_
  rintro ⟨mark, _⟩ ⟨-, unchanged⟩
  dsimp only at unchanged ⊢
  subst unchanged
  refine Transforming.makes_bind (runs nodes run covers) ?_
  rintro ⟨images, after⟩ ⟨later, goes, met, areImages⟩
  dsimp only at goes areImages ⊢
  exact Build.makes_pure ⟨later, goes, met, mark, by rw [areImages, Doc.remade]⟩

theorem rebuilds_leaf (same : doc.rebuild rule = return doc) (leaf : doc.children true = [])
    (stays : ∀ image mark, doc.remade image mark = doc) : Rebuilds root rule f doc := by
  intro nodes run covers
  rw [same, leaf]
  exact Build.makes_pure ⟨nodes, covers.goes, nofun, 0, (stays _ _).symm⟩

mutual

theorem rebuilds_rebuild (graph : root.IsGraph) (applies : Build.Applies rule f) :
    ∀ doc : Doc, root.Contains doc → Rebuilds root rule f doc
  | .concat _ parts, contains =>
    rebuilds_concat (runsAll_runRuleAll graph applies parts fun _ => Doc.contains_child contains)
  | .fill _ parts, contains =>
    rebuilds_fill (runsAll_runRuleAll graph applies parts fun _ => Doc.contains_child contains)
  | .indent _ body, contains | .align _ _ body, contains | .group _ _ body, contains
  | .indentIfBreak _ body _ _, contains | .label _ _ body, contains =>
    have inside := Doc.contains_child contains List.mem_cons_self
    rebuilds_around rfl (by rw [Doc.rebuild])
      (runs_of_rebuilds graph applies inside (rebuilds_rebuild graph applies body inside)) fun _ => makes_marked _
  | .ifBreak _ broken flat _, contains =>
    have inBroken := Doc.contains_child contains List.mem_cons_self
    have inFlat := Doc.contains_child contains (List.mem_cons_of_mem _ List.mem_cons_self)
    rebuilds_ifBreak (runs_of_rebuilds graph applies inBroken (rebuilds_rebuild graph applies broken inBroken))
      (runs_of_rebuilds graph applies inFlat (rebuilds_rebuild graph applies flat inFlat))
  | .choice _ _ _ first others, contains =>
    have inside := Doc.contains_child contains List.mem_cons_self
    rebuilds_choice (runs_of_rebuilds graph applies inside (rebuilds_rebuild graph applies first inside))
      (runsAll_runRuleAll graph applies others fun _ member =>
        Doc.contains_child contains (List.mem_cons_of_mem _ member))
  | .text .., _ | .line .., _ | .breakParent _, _ | .trim _, _ =>
    rebuilds_leaf (by rw [Doc.rebuild]) rfl fun _ _ => rfl

theorem runsAll_runRuleAll (graph : root.IsGraph) (applies : Build.Applies rule f) :
    ∀ docs : List Doc, (∀ doc ∈ docs, root.Contains doc) → RunsAll root rule f docs
  | [], _ => by
    intro nodes run covers
    rw [Doc.runRuleAll]
    exact Build.makes_pure ⟨nodes, covers.goes, nofun, rfl⟩
  | doc :: docs, contains =>
    have here := contains doc List.mem_cons_self
    runsAll_cons (runs_of_rebuilds graph applies here (rebuilds_rebuild graph applies doc here))
      (runsAll_runRuleAll graph applies docs fun other member => contains other (List.mem_cons_of_mem _ member))

end

theorem covers_start : Covers root rule f [] {} where
  nodup := List.nodup_nil
  inside := nofun
  closed := nofun
  known node _ := by simp
  applied := .nil
  trees := nofun

end RuleRun

/-! ### Whole documents -/

/-- What a document is rewritten to has the tree that is rewritten without remembering results. The rule is applied once
to each node, which is made anew over the images of the nodes below it, and each node has one image. -/
theorem Doc.transform_eq_rewritten {doc : Doc} {rule : Doc → Build Doc} {f : Doc → Doc} (graph : doc.IsGraph)
    (applies : Build.Applies rule f) :
    Makes (doc.transform rule) fun (result, run) => result.unfolded = doc.rewritten f ∧ result = run.image doc ∧
      (∃ nodes : List Doc, nodes.Nodup ∧ (∀ node, node ∈ nodes ↔ doc.Contains node) ∧
        List.Forall₂ (run.Gave rule) nodes run.applied) ∧
      ∀ mark info body first others, doc.Contains (.choice mark info body first others) →
        ∃ anew, .choice anew info (run.image first) (run.image first) (others.map run.image) ∈ run.applied := by
  have contains : doc.Contains doc := .here doc
  have runs := RuleRun.runs_of_rebuilds graph applies contains (RuleRun.rebuilds_rebuild graph applies doc contains)
  refine (runs [] {} RuleRun.covers_start).mono ?_
  rintro ⟨result, run⟩ ⟨nodes, goes, met, isImage⟩
  dsimp only at goes isImage ⊢
  -- With the whole document all nodes below it were met, since with each node those right below it were.
  have all : ∀ node, node ∈ nodes ↔ doc.Contains node :=
    fun node => ⟨goes.inside node, Doc.mem_of_contains met goes.closed⟩
  refine ⟨isImage ▸ goes.trees doc met, isImage, ⟨nodes, goes.nodup, all, goes.applied⟩, ?_⟩
  intro mark info body first others inside
  obtain ⟨_, isApplied, anew, _, _, rfl, _⟩ := exists_of_forall₂ goes.applied ((all _).mpr inside)
  exact ⟨anew, isApplied⟩

/-- Two texts that stand at four places, two of them among alternatives. -/
def repeatedWords (mark : Mark → Mark) (space : Doc) : Doc :=
  let words : Doc := .concat (mark 1) [.text (mark 2) "a", space]
  .concat (mark 0) [.indent (mark 4) words, words, .choice (mark 5) ⟨none, false⟩ words words [.text (mark 6) "b"]]

/-- A tree on one line. -/
def onOneLine : Doc → Doc
  | .line _ .plain => .text 0 " "
  | doc => doc

/-- Puts a node on one line. -/
def Build.onOneLine : Doc → Build Doc
  | .line _ .plain => Build.text " "
  | doc => return doc

theorem applies_onOneLine : Build.Applies Build.onOneLine onOneLine := by
  intro node
  cases node with
  | line mark kind =>
    cases kind with
    | plain => exact Build.makes_bind Build.makes_freshMark fun _ _ => Build.makes_pure rfl
    | soft | hard | literal => exact Build.makes_pure rfl
  | _ => exact Build.makes_pure rfl

/-- The words around a line that may break. -/
def spacedWords : Doc :=
  repeatedWords id (.line 3 .plain)

/-- Their nodes, each of them once. -/
def wordNodes : List Doc :=
  let words : Doc := .concat 1 [.text 2 "a", .line 3 .plain]
  [spacedWords, .indent 4 words, .choice 5 ⟨none, false⟩ words words [.text 6 "b"], .text 6 "b", words, .text 2 "a",
    .line 3 .plain]

theorem closed_wordNodes : ∀ node ∈ wordNodes, ∀ child ∈ node.children true, child ∈ wordNodes := by
  simp [wordNodes, spacedWords, repeatedWords, Doc.children]

theorem isGraph_spacedWords : spacedWords.IsGraph := by
  refine ⟨Doc.marksTellApart_of_closed List.mem_cons_self closed_wordNodes (by decide), ?_⟩
  intro mark info body first others contains
  have member := Doc.mem_of_contains List.mem_cons_self closed_wordNodes contains
  simp [spacedWords, repeatedWords] at member
  rw [member.2.2.1, member.2.2.2.1]

theorem contains_spacedWords (node : Doc) : node ∈ wordNodes ↔ spacedWords.Contains node := by
  constructor
  · have below {doc child : Doc} (contains : spacedWords.Contains doc) (member : child ∈ doc.children true) :
        spacedWords.Contains child := Doc.contains_child contains member
    have indented := below (.here _) List.mem_cons_self
    have words := below indented List.mem_cons_self
    have choice := below (.here _) (List.mem_cons_of_mem _ (List.mem_cons_of_mem _ List.mem_cons_self))
    simp only [wordNodes, List.mem_cons, List.not_mem_nil, or_false]
    rintro (rfl | rfl | rfl | rfl | rfl | rfl | rfl)
    · exact .here _
    · exact indented
    · exact choice
    · exact below choice (List.mem_cons_of_mem _ List.mem_cons_self)
    · exact words
    · exact below words List.mem_cons_self
    · exact below words (List.mem_cons_of_mem _ List.mem_cons_self)
  · exact Doc.mem_of_contains List.mem_cons_self closed_wordNodes

theorem transform_eq_rewritten_spacedWords : spacedWords.IsGraph ∧ Build.Applies Build.onOneLine onOneLine ∧
    Makes (spacedWords.transform Build.onOneLine) fun (result, run) =>
      result.unfolded = repeatedWords (fun _ => 0) (.text 0 " ") ∧ run.applied.length = 7 := by
  refine ⟨isGraph_spacedWords, applies_onOneLine, ?_⟩
  refine (Doc.transform_eq_rewritten isGraph_spacedWords applies_onOneLine).mono ?_
  rintro ⟨result, run⟩ ⟨tree, -, ⟨nodes, nodup, all, gave⟩, -⟩
  refine ⟨tree, ?_⟩
  have same : nodes.Perm wordNodes :=
    (List.perm_ext_iff_of_nodup nodup (.of_map Doc.mark (by decide))).mpr fun node =>
      (all node).trans (contains_spacedWords node).symm
  rw [← gave.length_eq, same.length_eq]
  rfl

end MarkupFormat.Layout
