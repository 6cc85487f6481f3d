import MarkupFormat.Proofs.Annotate.Laid
import MarkupFormat.Proofs.Annotate.Outlines

/-!
# Steps on a table

Each step of `Tree.normalize` and `Tree.mergeSimpleAt` do at a node of the table what the step of the same name does to
the children of a node of a tree (`performs_dropLineFeedAt` and the theorems like it). Children are named by their
numbers in the table, so a step has to leave alone what is not among the children, and what it adds is listed nowhere
else (`StepsAt`).
-/

namespace MarkupFormat.Markup.Tree

open Annotate
open Text (isMarkupSpace)

variable {tree middle after : Tree} {id parent child : NodeId} {below : NodeId → Fragment} {ids more kept rest : List NodeId}

/-! ### Nodes that become others -/

/-- What some nodes are is changed, and nothing else. -/
structure Relabels (tree : Tree) (ids : List NodeId) (after : Tree) : Prop where
  changes : tree.ChangesOnly ids after
  size_eq : after.size = tree.size
  lists : ∀ id, after.children id = tree.children id

namespace Relabels

theorem refl (tree : Tree) (ids : List NodeId) : tree.Relabels ids tree :=
  ⟨.refl tree ids, rfl, fun _ => rfl⟩

theorem trans (first : tree.Relabels ids middle) (second : middle.Relabels more after)
    (fewer : ∀ id ∈ more, id ∈ ids) : tree.Relabels ids after :=
  ⟨first.changes.trans second.changes fun id member _ => fewer id member, second.size_eq.trans first.size_eq,
    fun id => (second.lists id).trans (first.lists id)⟩

theorem mono (relabels : tree.Relabels ids after) (fewer : ∀ id ∈ ids, id ∈ more) : tree.Relabels more after :=
  ⟨relabels.changes.mono fewer, relabels.size_eq, relabels.lists⟩

theorem modifyInfo (tree : Tree) (id : NodeId) (change : NodeInfo → NodeInfo) :
    tree.Relabels [id] (tree.modifyInfo id change) :=
  ⟨changesOnly_modify tree id _, size_modify tree id _, children_modifyInfo tree id change⟩

theorem flagSome (tree : Tree) (flag : Flag) (condition : Bool) (id : Option NodeId) :
    tree.Relabels id.toList (tree.flagSome flag condition id) := by
  cases id with
  | none => exact .refl tree []
  | some other =>
    cases condition with
    | true => exact .modifyInfo tree other fun info => { info with flags := info.flags.add flag }
    | false => exact .refl tree [other]

theorem sound (relabels : tree.Relabels ids after) (sound : tree.Sound) : after.Sound :=
  sound.of_children (Nat.le_of_eq relabels.size_eq.symm) relabels.lists

theorem look_eq (relabels : tree.Relabels ids after) (inside : id < tree.size) (apart : id ∉ ids) :
    after.look below id = tree.look below id := by
  rw [look, look, relabels.lists, relabels.changes.kept id inside apart]

theorem map_look (relabels : tree.Relabels ids after) {others : List NodeId}
    (apart : ∀ id ∈ others, id < tree.size ∧ id ∉ ids) : others.map (after.look below) = others.map (tree.look below) :=
  map_look_congr fun id member => relabels.changes.kept id (apart id member).1 (apart id member).2

theorem stepsAt (relabels : tree.Relabels (id :: tree.children id) after) (sound : tree.Sound) : tree.StepsAt id after :=
  ⟨relabels.sound sound, relabels.changes, fun owner _ _ listed _ => relabels.lists owner ▸ listed⟩

/-- Children may be left out after they and their parent are changed. -/
theorem stepsAt_setChildren (relabels : tree.Relabels (id :: tree.children id) middle) (sound : tree.Sound)
    (inside : id < tree.size) (fewer : kept.Sublist (tree.children id)) :
    tree.StepsAt id (middle.setChildren id kept) := by
  have inside' : id < middle.size := relabels.size_eq ▸ inside
  refine ⟨(relabels.sound sound).setChildren inside' ((sound.nodup id).sublist fewer) fun child member => ?_,
    relabels.changes.trans (changesOnly_modify middle id _) fun other same _ => ?_, fun owner _ _ listed _ => ?_⟩
  · have listed := fewer.subset member
    refine ⟨(sound.later listed).1, relabels.size_eq ▸ (sound.later listed).2, fun other again => ?_⟩
    rw [relabels.lists] at again
    exact sound.owner again listed
  · exact List.mem_singleton.mp same ▸ List.mem_cons_self
  · by_cases same : owner = id
    · rw [same, children_setChildren middle kept inside'] at listed
      exact same ▸ fewer.subset listed
    · rwa [children_setChildren_of_ne middle kept same, relabels.lists] at listed

end Relabels

theorem look_modifyInfo (tree : Tree) (change : NodeInfo → NodeInfo) (inside : id < tree.size) :
    (tree.modifyInfo id change).look below id = .node (change (tree.node id).toNodeInfo) ((tree.children id).map below) := by
  rw [look, info_modifyInfo tree change inside, children_modifyInfo]

theorem look_setChildren_of_ne (tree : Tree) (children : List NodeId) (apart : child ≠ id) :
    (tree.setChildren id children).look below child = tree.look below child := by
  rw [look, look, info_setChildren, children_setChildren_of_ne tree children apart]

theorem map_look_setChildren (tree : Tree) (children : List NodeId) (apart : id ∉ ids) :
    ids.map ((tree.setChildren id children).look below) = ids.map (tree.look below) :=
  List.map_congr_left fun _ member => look_setChildren_of_ne tree children fun same => apart (same ▸ member)

variable {source : String} {step : Tree → NodeId → Tree} {make : NodeInfo → List Fragment → Fragment}

/-- A step that adds nothing does its work at a node if it does so seen from there. -/
theorem performs_of_look
    (steps : ∀ (tree : Tree) (id : NodeId), tree.Sound → id < tree.size → tree.StepsAt id (step tree id))
    (fewer : ∀ (tree : Tree) (id : NodeId), tree.Sound → id < tree.size →
      (∀ child ∈ (step tree id).children id, child ∈ tree.children id) ∧
        ∀ child ∈ tree.children id, ∀ number ∈ (step tree id).children child, number ∈ tree.children child)
    (makes : ∀ (tree : Tree) (id : NodeId), tree.Sound → id < tree.size →
      .node ((step tree id).node id).toNodeInfo (((step tree id).children id).map ((step tree id).look tree.fragment)) =
        make (tree.node id).toNodeInfo ((tree.children id).map (tree.look tree.fragment))) :
    Performs source step make := by
  refine performs_of_stepsAt steps fun tree id _ sound inside => ?_
  have stepped := steps tree id sound inside
  obtain ⟨here, deeper⟩ := fewer tree id sound inside
  have looked : (tree.children id).map tree.fragment = (tree.children id).map (tree.look tree.fragment) :=
    List.map_congr_left fun child _ => fragment_eq sound child
  rw [looked, ← makes tree id sound inside, fragment_eq stepped.sound]
  congr 1
  exact List.map_congr_left fun child listed =>
    stepped.fragment_child sound (here child listed) (deeper child (here child listed))

theorem mem_of_stepsAt {tree : Tree} {id : NodeId} (steps : tree.StepsAt id after)
    (same_size : after.size = tree.size) :
    (∀ child ∈ after.children id, child ∈ tree.children id) ∧
      ∀ child ∈ tree.children id, ∀ number ∈ after.children child, number ∈ tree.children child := by
  have within {owner number : NodeId} (among : owner ∈ id :: tree.children id) (listed : number ∈ after.children owner) :
      number ∈ tree.children owner :=
    steps.owned owner among number listed (same_size ▸ (steps.sound.later listed).2)
  exact ⟨fun child listed => within List.mem_cons_self listed,
    fun child among number listed => within (List.mem_cons_of_mem _ among) listed⟩

/-- A step at a node leaves the table as it is, or leaves out children after they and their parent are changed. -/
theorem performs_of_relabels
    (does : ∀ (tree : Tree) (id : NodeId), tree.Sound → id < tree.size →
      (step tree id = tree ∧ .node (tree.node id).toNodeInfo ((tree.children id).map (tree.look tree.fragment)) =
        make (tree.node id).toNodeInfo ((tree.children id).map (tree.look tree.fragment))) ∨
      ∃ middle kept, step tree id = middle.setChildren id kept ∧ tree.Relabels (id :: tree.children id) middle ∧
        kept.Sublist (tree.children id) ∧
        .node (middle.node id).toNodeInfo (kept.map (middle.look tree.fragment)) =
          make (tree.node id).toNodeInfo ((tree.children id).map (tree.look tree.fragment))) :
    Performs source step make := by
  have stepped (tree : Tree) (id : NodeId) (sound : tree.Sound) (inside : id < tree.size) :
      tree.StepsAt id (step tree id) ∧ (step tree id).size = tree.size := by
    obtain ⟨same, -⟩ | ⟨middle, kept, same, relabels, fewer, -⟩ := does tree id sound inside
    · rw [same]
      exact ⟨(Relabels.refl tree _).stepsAt sound, rfl⟩
    · rw [same]
      exact ⟨relabels.stepsAt_setChildren sound inside fewer, (size_modify middle id _).trans relabels.size_eq⟩
  refine performs_of_look (fun tree id sound inside => (stepped tree id sound inside).1)
    (fun tree id sound inside => mem_of_stepsAt (stepped tree id sound inside).1 (stepped tree id sound inside).2)
    fun tree id sound inside => ?_
  obtain ⟨same, made⟩ | ⟨middle, kept, same, relabels, fewer, made⟩ := does tree id sound inside
  · rw [same]
    exact made
  · have notKept : id ∉ kept := fun among => absurd (sound.later (fewer.subset among)).1 (Nat.lt_irrefl id)
    rw [same, info_setChildren, children_setChildren middle kept (relabels.size_eq ▸ inside),
      map_look_setChildren middle kept notKept]
    exact made

/-! ### First line feeds -/

theorem dropLineFeed_cons (info : NodeInfo) (inner rest : List Fragment) :
    dropLineFeed (.node info inner :: rest) =
      match dropLineFeed [.node info []] with
      | [] => rest
      | left :: _ => .node left.info inner :: rest := by
  unfold dropLineFeed
  dsimp only
  split
  · split <;> rfl
  · rfl

theorem performs_dropLineFeedAt : Performs source dropLineFeedAt fun info children =>
    .node info (if ignoresFirstLineFeed info.kind then dropLineFeed children else children) := by
  have stepped (tree : Tree) (id : NodeId) (sound : tree.Sound) (inside : id < tree.size) :
      tree.StepsAt id (tree.dropLineFeedAt id) ∧ (tree.dropLineFeedAt id).size = tree.size := by
    unfold dropLineFeedAt
    have unchanged := (Relabels.refl tree (id :: tree.children id)).stepsAt sound
    split
    · exact ⟨unchanged, rfl⟩
    · next first isFirst =>
      have listed : first ∈ tree.children id := List.mem_of_head? isFirst
      split
      · split
        · refine ⟨(Relabels.refl tree _).stepsAt_setChildren sound inside (List.tail_sublist _), ?_⟩
          exact size_modify tree id _
        · refine ⟨((Relabels.modifyInfo tree first _).mono fun other same => ?_).stepsAt sound, size_modify tree first _⟩
          exact List.mem_singleton.mp same ▸ List.mem_cons_of_mem _ listed
      · exact ⟨unchanged, rfl⟩
  refine performs_of_look (fun tree id sound inside => (stepped tree id sound inside).1)
    (fun tree id sound inside => mem_of_stepsAt (stepped tree id sound inside).1 (stepped tree id sound inside).2)
    fun tree id sound inside => ?_
  unfold dropLineFeedAt firstChild?
  cases lists : tree.children id with
  | nil => simp [lists, dropLineFeed]
  | cons first rest =>
    have listed : first ∈ tree.children id := lists ▸ List.mem_cons_self
    have order := sound.later listed
    have nodup := List.nodup_cons.mp (lists ▸ sound.nodup id)
    have notRest : id ∉ rest := fun among =>
      absurd (sound.later (lists ▸ List.mem_cons_of_mem _ among)).1 (Nat.lt_irrefl id)
    dsimp only [List.head?_cons]
    by_cases ignores : ignoresFirstLineFeed (tree.kind id) = true
    · have ignores' : ignoresFirstLineFeed (tree.node id).toNodeInfo.kind = true := ignores
      rw [if_pos ignores, if_pos ignores', List.map_cons, look, dropLineFeed_cons]
      unfold bare
      cases dropLineFeed [.node (tree.node first).toNodeInfo []] with
      | nil =>
        dsimp only
        rw [info_setChildren, children_setChildren tree _ inside, List.tail_cons, map_look_setChildren tree _ notRest]
      | cons left others =>
        dsimp only
        rw [node_modifyInfo_of_ne tree _ (Nat.ne_of_lt order.1), children_modifyInfo, lists, List.map_cons,
          look_modifyInfo tree _ order.2]
        congr 2
        refine (Relabels.modifyInfo tree first _).map_look fun number among => ⟨?_, fun same => ?_⟩
        · exact (sound.later (lists ▸ List.mem_cons_of_mem _ among)).2
        · exact nodup.1 (List.mem_singleton.mp same ▸ among)
    · have ignores' : ¬ignoresFirstLineFeed (tree.node id).toNodeInfo.kind = true := ignores
      rw [if_neg ignores, if_neg ignores', lists]

/-! ### Character data -/

theorem joinTexts_of_noText {node : Fragment} (other : textOf? node.kind = none) (rest : List Fragment) :
    joinTexts (node :: rest) = node :: joinTexts rest := by
  obtain ⟨info, inner⟩ := node
  have other : textOf? info.kind = none := other
  rw [joinTexts, other]

theorem joinTexts_asText {info : NodeInfo} {value : String} (isText : textOf? info.kind = some value)
    (inner rest : List Fragment) :
    joinTexts (.node info inner :: rest) = joinTexts (.node { info with kind := .text value } inner :: rest) := by
  rw [joinTexts, joinTexts, isText]
  rfl

theorem joinTexts_text_noText {info : NodeInfo} {text : String} (isText : info.kind = .text text) {node : Fragment}
    (other : textOf? node.kind = none) (inner rest : List Fragment) :
    joinTexts (.node info inner :: node :: rest) = .node info inner :: joinTexts (node :: rest) := by
  have same : { info with kind := .text text } = info := by rw [← isText]
  rw [joinTexts, isText, joinTexts_of_noText other]
  obtain ⟨next, below⟩ := node
  have other : textOf? next.kind = none := other
  dsimp only [textOf?]
  split
  · next more isText =>
    rw [isText] at other
    cases other
  · rw [same]

theorem joinTexts_text_text {info next : NodeInfo} {text value : String} (isText : info.kind = .text text)
    (isText' : textOf? next.kind = some value) (inner below rest : List Fragment) :
    joinTexts (.node info inner :: .node next below :: rest) =
      joinTexts (.node { info with kind := .text (text ++ value), span := ⟨info.span.start, next.span.stop⟩ } inner ::
        rest) := by
  rw [joinTexts, joinTexts, joinTexts, isText, isText']
  dsimp only [textOf?]
  cases joinTexts rest with
  | nil => rfl
  | cons first others =>
    obtain ⟨first, deeper⟩ := first
    dsimp only
    cases first.kind <;> simp [String.append_assoc]

/-- A node is no character data. -/
def IsJoined (tree : Tree) (id : NodeId) : Prop :=
  textOf? (tree.kind id) = none ∨ ∃ text, tree.kind id = .text text

theorem joinTexts_singleton (joined : tree.IsJoined id) : joinTexts [tree.look below id] = [tree.look below id] := by
  obtain other | ⟨text, isText⟩ := joined
  · have other : textOf? (tree.look below id).kind = none := other
    exact joinTexts_of_noText other []
  · have isText : (tree.node id).toNodeInfo.kind = .text text := isText
    have same : { (tree.node id).toNodeInfo with kind := .text text } = (tree.node id).toNodeInfo := by rw [← isText]
    unfold look
    rw [joinTexts, isText]
    dsimp only [textOf?, joinTexts]
    rw [same]

theorem joinTexts_isJoined (joined : tree.IsJoined id) {node : Fragment} (other : textOf? node.kind = none)
    (rest : List Fragment) :
    joinTexts (tree.look below id :: node :: rest) = tree.look below id :: joinTexts (node :: rest) := by
  obtain noText | ⟨text, isText⟩ := joined
  · have noText : textOf? (tree.look below id).kind = none := noText
    exact joinTexts_of_noText noText _
  · exact joinTexts_text_noText isText other _ rest

theorem map_look_modifyInfo (tree : Tree) (change : NodeInfo → NodeInfo) (apart : id ∉ ids) :
    ids.map ((tree.modifyInfo id change).look below) = ids.map (tree.look below) :=
  List.map_congr_left fun other member => by
    have other : other ≠ id := fun same => apart (same ▸ member)
    rw [look, look, node_modifyInfo_of_ne tree change other, children_modifyInfo]

/-- Joining goes on after a node that may take in what follows. -/
theorem map_look_joinTextsFrom (below : NodeId → Fragment) {rest : List NodeId} {init : List NodeId} {last : NodeId}
    {tree : Tree} (joined : tree.IsJoined last) (nodup : (init ++ last :: rest).Nodup)
    (inside : ∀ id ∈ init ++ last :: rest, id < tree.size) :
    let result := tree.joinTextsFrom (init ++ [last]) rest
    tree.Relabels (init ++ last :: rest) result.1 ∧ result.2.Sublist (init ++ last :: rest) ∧
      result.2.map (result.1.look below) =
        init.map (tree.look below) ++ joinTexts ((last :: rest).map (tree.look below)) := by
  induction rest generalizing tree init last with
  | nil =>
    refine ⟨.refl tree _, List.Sublist.refl _, ?_⟩
    rw [List.map_singleton, joinTexts_singleton joined]
    exact List.map_append
  | cons child rest ih =>
    have childInside : child < tree.size := inside child (by simp)
    have lastInside : last < tree.size := inside last (by simp)
    have shifted : init ++ last :: child :: rest = init ++ [last] ++ child :: rest := by simp
    have shorter : (init ++ last :: rest).Sublist (init ++ last :: child :: rest) := by simp
    obtain ⟨initNodup, tailNodup, initApart⟩ := List.nodup_append.mp nodup
    obtain ⟨lastApart, restNodup⟩ := List.nodup_cons.mp tailNodup
    obtain ⟨childApart, restNodup⟩ := List.nodup_cons.mp restNodup
    have lastInit : last ∉ init := fun among => initApart last among last List.mem_cons_self rfl
    have childInit : child ∉ init := fun among => initApart child among child (by simp) rfl
    have lastRest : last ∉ rest := fun among => lastApart (List.mem_cons_of_mem _ among)
    have lastChild : last ≠ child := fun same => lastApart (same ▸ List.mem_cons_self)
    dsimp only
    unfold joinTextsFrom
    rw [List.getLast?_concat]
    split
    · next other =>
      have goal := ih (.inl other) (shifted ▸ nodup) (shifted ▸ inside)
      rw [← shifted] at goal
      have other : textOf? (tree.look below child).kind = none := other
      refine ⟨goal.1, goal.2.1, goal.2.2.trans ?_⟩
      rw [List.map_append, List.append_assoc, List.map_singleton, List.singleton_append, List.map_cons, List.map_cons,
        List.map_cons, joinTexts_isJoined joined other]
    · next value isText =>
      dsimp only [Option.map_some]
      split
      · next _ text same =>
        obtain ⟨rfl, lastText⟩ := Prod.mk.inj (Option.some.inj same)
        let change (info : NodeInfo) : NodeInfo :=
          { info with kind := .text (text ++ value), span := ⟨info.span.start, (tree.node child).span.stop⟩ }
        have joined' : (tree.modifyInfo last change).IsJoined last :=
          .inr ⟨text ++ value, congrArg NodeInfo.kind (info_modifyInfo tree change lastInside)⟩
        have relabel := Relabels.modifyInfo tree last change
        have goal := ih joined' (nodup.sublist shorter) fun id among => relabel.size_eq ▸ inside id (shorter.subset among)
        refine ⟨?_, goal.2.1.trans shorter, goal.2.2.trans ?_⟩
        · refine (relabel.mono fun id same => ?_).trans goal.1 fun id among => shorter.subset among
          simp [List.mem_singleton.mp same]
        · rw [map_look_modifyInfo tree change lastInit, List.map_cons, look_modifyInfo tree change lastInside,
            map_look_modifyInfo tree change lastRest, List.map_cons, List.map_cons]
          have lastText : (tree.node last).toNodeInfo.kind = .text text := lastText
          exact congrArg _ (joinTexts_text_text lastText isText _ _ _).symm
      · next other =>
        let change (info : NodeInfo) : NodeInfo := { info with kind := .text value }
        have noText : textOf? (tree.kind last) = none :=
          joined.resolve_right fun ⟨text, isText⟩ => other last text (by rw [isText])
        have noText : textOf? (tree.look below last).kind = none := noText
        have joined' : (tree.modifyInfo child change).IsJoined child :=
          .inr ⟨value, congrArg NodeInfo.kind (info_modifyInfo tree change childInside)⟩
        have relabel := Relabels.modifyInfo tree child change
        have goal := ih joined' (shifted ▸ nodup) fun id among => relabel.size_eq ▸ (shifted ▸ inside) id among
        rw [← shifted] at goal
        refine ⟨?_, goal.2.1, goal.2.2.trans ?_⟩
        · refine (relabel.mono fun id same => ?_).trans goal.1 fun id among => among
          simp [List.mem_singleton.mp same]
        · have apart : child ∉ init ++ [last] := by simp [childInit, Ne.symm lastChild]
          rw [map_look_modifyInfo tree change apart, List.map_append, List.append_assoc, List.map_singleton,
            List.singleton_append, List.map_cons, look_modifyInfo tree change childInside,
            map_look_modifyInfo tree change childApart, List.map_cons, List.map_cons, joinTexts_of_noText noText]
          exact congrArg (fun joined => _ ++ _ :: joined) (joinTexts_asText isText _ _).symm

theorem performs_mergeCdataAt : Performs source mergeCdataAt fun info children =>
    .node info (if children.any isCdata then joinTexts children else children) := by
  refine performs_of_relabels fun tree id sound inside => ?_
  have bares : ((tree.children id).any fun child => isCdata (tree.bare child)) =
      ((tree.children id).map (tree.look tree.fragment)).any isCdata := by
    rw [List.any_map]
    rfl
  unfold mergeCdataAt
  rw [bares]
  split
  · cases lists : tree.children id with
    | nil => next found => simp [lists] at found
    | cons first rest =>
      refine .inr ⟨(tree.joinTextsFrom [] (first :: rest)).1, (tree.joinTextsFrom [] (first :: rest)).2, rfl, ?_⟩
      have nodup : ([] ++ first :: rest).Nodup := lists ▸ sound.nodup id
      have within : ∀ child ∈ [] ++ first :: rest, child < tree.size := fun child among =>
        (sound.later (lists ▸ among : child ∈ tree.children id)).2
      have firstInside := within first List.mem_cons_self
      have apart : id ∉ first :: rest := fun among =>
        absurd (sound.later (lists ▸ among : id ∈ tree.children id)).1 (Nat.lt_irrefl id)
      have info {after : Tree} (relabels : tree.Relabels ([] ++ first :: rest) after) : after.node id = tree.node id :=
        relabels.changes.kept id inside apart
      cases isText : textOf? (tree.kind first) with
      | none =>
        have start : tree.joinTextsFrom [] (first :: rest) = tree.joinTextsFrom [first] rest := by
          rw [joinTextsFrom, isText]
          rfl
        rw [start]
        have goal := map_look_joinTextsFrom tree.fragment (.inl isText) nodup within
        refine ⟨goal.1.mono fun _ => List.mem_cons_of_mem _, goal.2.1, ?_⟩
        exact congrArg₂ Fragment.node (congrArg Node.toNodeInfo (info goal.1)) goal.2.2
      | some value =>
        let change (info : NodeInfo) : NodeInfo := { info with kind := .text value }
        have start : tree.joinTextsFrom [] (first :: rest) = (tree.modifyInfo first change).joinTextsFrom [first] rest := by
          rw [joinTextsFrom, isText]
          rfl
        rw [start]
        have joined : (tree.modifyInfo first change).IsJoined first :=
          .inr ⟨value, congrArg NodeInfo.kind (info_modifyInfo tree change firstInside)⟩
        have relabel := Relabels.modifyInfo tree first change
        have goal := map_look_joinTextsFrom tree.fragment joined nodup fun child among => relabel.size_eq ▸ within child among
        have relabels : tree.Relabels ([] ++ first :: rest) _ :=
          (relabel.mono fun other same => by simp [List.mem_singleton.mp same]).trans goal.1 fun _ among => among
        refine ⟨relabels.mono fun _ => List.mem_cons_of_mem _, goal.2.1, ?_⟩
        have others := (List.nodup_cons.mp nodup).1
        have made := goal.2.2
        rw [List.map_cons, look_modifyInfo tree change firstInside, map_look_modifyInfo tree change others] at made
        refine congrArg₂ Fragment.node (congrArg Node.toNodeInfo (info relabels)) (made.trans ?_)
        exact (joinTexts_asText isText _ _).symm
  · exact .inl ⟨rfl, rfl⟩

/-! ### Trimming -/

theorem flagSome_some (tree : Tree) (flag : Flag) (id : NodeId) :
    tree.flagSome flag true (some id) = tree.modifyInfo id fun info => { info with flags := info.flags.add flag } :=
  rfl

theorem map_look_flagSome_of_not_mem (tree : Tree) (flag : Flag) (condition : Bool) {other : Option NodeId}
    (apart : ∀ id ∈ other, id ∉ ids) :
    ids.map ((tree.flagSome flag condition other).look below) = ids.map (tree.look below) := by
  cases other with
  | none => rfl
  | some id =>
    cases condition with
    | true => rw [flagSome_some, map_look_modifyInfo tree _ (apart id rfl)]
    | false => rfl

theorem look_flagSome (tree : Tree) (flag : Flag) (condition : Bool) (inside : id < tree.size) :
    (tree.flagSome flag condition (some id)).look below id =
      if condition then withFlag flag (tree.look below id) else tree.look below id := by
  cases condition with
  | true =>
    rw [flagSome_some, look_modifyInfo tree _ inside]
    rfl
  | false => rfl

theorem map_look_flagSome_head (below : NodeId → Fragment) (tree : Tree) (flag : Flag) (condition : Bool) (nodup : ids.Nodup)
    (inside : ∀ id ∈ ids, id < tree.size) :
    ids.map ((tree.flagSome flag condition ids.head?).look below) = flagFirst flag condition (ids.map (tree.look below)) := by
  cases ids with
  | nil => rfl
  | cons first rest =>
    have apart : ∀ id ∈ some first, id ∉ rest := fun id same => Option.some.inj same ▸ (List.nodup_cons.mp nodup).1
    rw [List.map_cons, List.head?_cons, look_flagSome tree flag condition (inside first List.mem_cons_self),
      map_look_flagSome_of_not_mem tree flag condition apart]
    rfl

theorem map_look_flagSome_last (tree : Tree) (flag : Flag) (condition : Bool) (nodup : ids.Nodup)
    (inside : ∀ id ∈ ids, id < tree.size) :
    (ids.map ((tree.flagSome flag condition ids.getLast?).look below)).reverse =
      flagFirst flag condition (ids.map (tree.look below)).reverse := by
  have flagged := map_look_flagSome_head below tree flag condition (List.nodup_reverse.mpr nodup) fun id among =>
    inside id (List.mem_reverse.mp among)
  rwa [List.head?_reverse, List.map_reverse, List.map_reverse] at flagged

theorem trimTexts_text {info : NodeInfo} {value : String} (isText : info.kind = .text value)
    (kept inner rest : List Fragment) :
    trimTexts kept (.node info inner :: rest) =
      if value.toList.all isMarkupSpace then
        trimTexts (flagFirst .trailingSpaces (value.toList ≠ []) kept) (flagFirst .leadingSpaces (value.toList ≠ []) rest)
      else
        trimTexts
          (trimmedText info value.toList inner ::
            flagFirst .trailingSpaces (value.toList.takeWhile isMarkupSpace ≠ []) kept)
          (flagFirst .leadingSpaces (Text.takeEnd isMarkupSpace value.toList ≠ []) rest) := by
  rw [trimTexts, isText]

theorem trimTexts_noText {info : NodeInfo} (other : ∀ value, info.kind ≠ .text value) (kept inner rest : List Fragment) :
    trimTexts kept (.node info inner :: rest) = trimTexts (.node info inner :: kept) rest := by
  rw [trimTexts]
  split
  · next value isText => exact absurd isText (other value)
  · rfl

/-- The neighbours of a text are flagged: the last node that is kept and the first one that is not read yet. -/
theorem map_look_flagBoth (below : NodeId → Fragment) (tree : Tree) (flag flag' : Flag) (condition condition' : Bool)
    {kept rest : List NodeId} (nodup : (kept ++ rest).Nodup) (inside : ∀ id ∈ kept ++ rest, id < tree.size) :
    let after := (tree.flagSome flag condition kept.getLast?).flagSome flag' condition' rest.head?
    tree.Relabels (kept ++ rest) after ∧
      (kept.map (after.look below)).reverse = flagFirst flag condition (kept.map (tree.look below)).reverse ∧
      rest.map (after.look below) = flagFirst flag' condition' (rest.map (tree.look below)) := by
  obtain ⟨keptNodup, restNodup, apart⟩ := List.nodup_append.mp nodup
  have lastRest : ∀ id ∈ kept.getLast?, id ∉ rest := fun id last among =>
    apart id (List.mem_of_getLast? last) id among rfl
  have headKept : ∀ id ∈ rest.head?, id ∉ kept := fun id first among =>
    apart id among id (List.mem_of_head? first) rfl
  have first := Relabels.flagSome tree flag condition kept.getLast?
  refine ⟨(first.mono fun id among => ?_).trans (.flagSome _ flag' condition' _) fun id among => ?_, ?_, ?_⟩
  · exact List.mem_append_left _ (List.mem_of_getLast? (Option.mem_toList.mp among))
  · exact List.mem_append_right _ (List.mem_of_head? (Option.mem_toList.mp among))
  · rw [map_look_flagSome_of_not_mem _ flag' condition' headKept]
    exact map_look_flagSome_last tree flag condition keptNodup fun id among => inside id (List.mem_append_left _ among)
  · rw [map_look_flagSome_head below _ flag' condition' restNodup fun id among =>
      first.size_eq ▸ inside id (List.mem_append_right _ among), map_look_flagSome_of_not_mem tree flag condition lastRest]

/-- Trimming goes on after the nodes that are kept. -/
theorem map_look_trimFrom (below : NodeId → Fragment) {rest : List NodeId} {kept : List NodeId} {tree : Tree}
    (nodup : (kept ++ rest).Nodup) (inside : ∀ id ∈ kept ++ rest, id < tree.size) :
    let result := tree.trimFrom kept rest
    tree.Relabels (kept ++ rest) result.1 ∧ result.2.Sublist (kept ++ rest) ∧
      result.2.map (result.1.look below) =
        trimTexts (kept.map (tree.look below)).reverse (rest.map (tree.look below)) := by
  induction rest generalizing tree kept with
  | nil =>
    refine ⟨.refl tree _, by rw [List.append_nil]; exact List.Sublist.refl _, ?_⟩
    rw [List.map_nil, trimTexts, List.reverse_reverse]
    rfl
  | cons child rest ih =>
    have shifted : kept ++ child :: rest = kept ++ [child] ++ rest := by simp
    have shorter : (kept ++ rest).Sublist (kept ++ child :: rest) := by simp
    have childInside : child < tree.size := inside child (by simp)
    dsimp only
    unfold trimFrom
    split
    · next value isText =>
      have isText : (tree.node child).toNodeInfo.kind = .text value := isText
      rw [List.map_cons, look, trimTexts_text isText]
      dsimp only
      split
      · obtain ⟨relabels, keptSame, restSame⟩ := map_look_flagBoth below tree .trailingSpaces .leadingSpaces
          (value.toList ≠ []) (value.toList ≠ []) (nodup.sublist shorter) fun id among => inside id (shorter.subset among)
        have goal := ih (nodup.sublist shorter) fun id among => relabels.size_eq ▸ inside id (shorter.subset among)
        refine ⟨(relabels.mono fun _ among => shorter.subset among).trans goal.1 fun _ among => shorter.subset among,
          goal.2.1.trans shorter, ?_⟩
        rw [← keptSame, ← restSame]
        exact goal.2.2
      · let change (info : NodeInfo) : NodeInfo := (trimmedText info value.toList []).info
        have relabel := Relabels.modifyInfo tree child change
        obtain ⟨childKept, childRest⟩ : child ∉ kept ∧ child ∉ rest := by
          obtain ⟨-, tailNodup, apart⟩ := List.nodup_append.mp nodup
          exact ⟨fun among => apart child among child List.mem_cons_self rfl, (List.nodup_cons.mp tailNodup).1⟩
        obtain ⟨relabels, keptSame, restSame⟩ := map_look_flagBoth below (tree.modifyInfo child change) .trailingSpaces
          .leadingSpaces (value.toList.takeWhile isMarkupSpace ≠ []) (Text.takeEnd isMarkupSpace value.toList ≠ [])
          (nodup.sublist shorter) fun id among => relabel.size_eq ▸ inside id (shorter.subset among)
        have goal := ih (shifted ▸ nodup) fun id among =>
          relabels.size_eq ▸ relabel.size_eq ▸ (shifted ▸ inside) id among
        rw [← shifted] at goal
        have whole : tree.Relabels (kept ++ child :: rest) _ :=
          (relabel.mono fun id same => by simp [List.mem_singleton.mp same]).trans relabels
            fun _ among => shorter.subset among
        have trimmed : _ = (tree.modifyInfo child change).look below child :=
          relabels.look_eq (relabel.size_eq ▸ childInside) (by simp [childKept, childRest])
        rw [look_modifyInfo tree change childInside] at trimmed
        refine ⟨whole.trans goal.1 fun _ among => among, goal.2.1, goal.2.2.trans ?_⟩
        rw [List.map_append, List.reverse_append, List.map_singleton, keptSame, restSame, trimmed,
          map_look_modifyInfo tree change childKept, map_look_modifyInfo tree change childRest]
        rfl
    · next other =>
      have goal := ih (shifted ▸ nodup) (shifted ▸ inside)
      rw [← shifted] at goal
      refine ⟨goal.1, goal.2.1, goal.2.2.trans ?_⟩
      rw [List.map_cons, look, trimTexts_noText other, List.map_append, List.reverse_append]
      rfl

theorem isBlankContent_bares (below : NodeId → Fragment) (tree : Tree) (ids : List NodeId) :
    isBlankContent (ids.map tree.bare) = isBlankContent (ids.map (tree.look below)) := by
  cases ids with
  | nil => rfl
  | cons first rest => cases rest <;> rfl

theorem info_trimNode (below : NodeId → Fragment) (tree : Tree) (ids : List NodeId) (info : NodeInfo) :
    (trimNode info (ids.map tree.bare)).info = (trimNode info (ids.map (tree.look below))).info := by
  have given : (ids.map tree.bare ≠ []) = (ids.map (tree.look below) ≠ []) := by simp
  unfold trimNode
  rw [isBlankContent_bares below]
  split
  · rfl
  · simp only [given]
    split <;> rfl

theorem performs_trimAt : Performs source trimAt trimNode := by
  refine performs_of_relabels fun tree id sound inside => .inr ?_
  have apart : id ∉ tree.children id := fun among => absurd (sound.later among).1 (Nat.lt_irrefl id)
  have trims {middle : Tree} {kept : List NodeId} (relabels : tree.Relabels (tree.children id) middle)
      (fewer : kept.Sublist (tree.children id))
      (made : kept.map (middle.look tree.fragment) =
        (trimNode (tree.node id).toNodeInfo ((tree.children id).map (tree.look tree.fragment))).children) :
      ∃ last kept', (middle.modifyInfo id fun info => (trimNode info ((tree.children id).map tree.bare)).info).setChildren
          id kept = last.setChildren id kept' ∧
        tree.Relabels (id :: tree.children id) last ∧ kept'.Sublist (tree.children id) ∧
        .node (last.node id).toNodeInfo (kept'.map (last.look tree.fragment)) =
          trimNode (tree.node id).toNodeInfo ((tree.children id).map (tree.look tree.fragment)) := by
    refine ⟨_, kept, rfl, (relabels.mono fun _ => List.mem_cons_of_mem _).trans (.modifyInfo middle id _) ?_, fewer, ?_⟩
    · exact fun other same => List.mem_singleton.mp same ▸ List.mem_cons_self
    · rw [info_modifyInfo middle _ (relabels.size_eq ▸ inside), relabels.changes.kept id inside apart,
        map_look_modifyInfo middle _ fun among => apart (fewer.subset among), made, info_trimNode tree.fragment]
      cases trimNode (tree.node id).toNodeInfo ((tree.children id).map (tree.look tree.fragment))
      rfl
  unfold trimAt
  have unchanged : tree.Relabels (tree.children id) tree := .refl tree _
  have leaf : (tree.kind id).canHaveChildren = (tree.node id).toNodeInfo.kind.canHaveChildren := rfl
  have sensitive : isWhitespaceSensitive (tree.kind id) = isWhitespaceSensitive (tree.node id).toNodeInfo.kind := rfl
  dsimp only
  rw [isBlankContent_bares tree.fragment]
  split
  · next isLeaf =>
    refine trims unchanged (.refl _) ?_
    rw [leaf] at isLeaf
    rw [trimNode, if_pos isLeaf]
    rfl
  · next holds =>
    rw [leaf] at holds
    split
    · next blank =>
      refine trims unchanged (List.nil_sublist _) ?_
      rw [trimNode, if_neg holds, if_pos blank]
      rfl
    · next some =>
      rw [sensitive]
      split
      · next shows =>
        refine trims unchanged (.refl _) ?_
        rw [trimNode, if_neg holds, if_neg some]
        exact (if_pos shows).symm
      · next hides =>
        have listed : ∀ child ∈ [] ++ tree.children id, child < tree.size := fun child among => (sound.later among).2
        obtain ⟨relabels, fewer, made⟩ := map_look_trimFrom tree.fragment (sound.nodup id) listed
        refine trims relabels fewer (made.trans ?_)
        rw [trimNode, if_neg holds, if_neg some]
        exact (if_neg hides).symm

namespace StepsAt

theorem trans (first : tree.StepsAt id middle) (second : middle.StepsAt id after) (size : middle.size = tree.size)
    (sound : tree.Sound) : tree.StepsAt id after := by
  have within {owner child : NodeId} (among : owner ∈ id :: tree.children id) (listed : child ∈ middle.children owner) :
      child ∈ tree.children owner :=
    first.owned owner among child listed (size ▸ (first.sound.later listed).2)
  refine ⟨second.sound, first.changes.trans second.changes fun owner among _ => ?_, fun owner among child listed inside => ?_⟩
  · obtain rfl | among := List.mem_cons.mp among
    · exact List.mem_cons_self
    · exact List.mem_cons_of_mem _ (within List.mem_cons_self among)
  · by_cases again : owner ∈ id :: middle.children id
    · exact within among (second.owned owner again child listed (size ▸ inside))
    · have below : owner ∈ tree.children id :=
        (List.mem_cons.mp among).resolve_left fun same => again (same ▸ List.mem_cons_self)
      have same := second.changes.kept owner (size ▸ (sound.later below).2) again
      rw [children, same] at listed
      exact within among listed

/-- Children may be left out, and children of children. -/
theorem of_sublist (sound : tree.Sound) (changes : tree.ChangesOnly (id :: tree.children id) after)
    (size : after.size = tree.size)
    (fewer : ∀ owner ∈ id :: tree.children id, (after.children owner).Sublist (tree.children owner)) :
    tree.StepsAt id after := by
  have fewer (owner : NodeId) : (after.children owner).Sublist (tree.children owner) := by
    by_cases changed : owner ∈ id :: tree.children id
    · exact fewer owner changed
    · by_cases inside : owner < tree.size
      · rw [children, children, changes.kept owner inside changed]
      · rw [children_of_size_le (size ▸ Nat.le_of_not_lt inside)]
        exact List.nil_sublist _
  refine ⟨⟨fun among => ?_, listsOnce_iff.mpr ⟨fun owner => (sound.nodup owner).sublist (fewer owner), ?_⟩⟩, changes,
    fun owner _ child among _ => (fewer owner).subset among⟩
  · have order := sound.later ((fewer _).subset among)
    exact ⟨order.1, size ▸ order.2⟩
  · exact fun owner other child first second => sound.owner ((fewer owner).subset first) ((fewer other).subset second)

end StepsAt

/-! ### Conditions -/

/-- What is below the children of an element does not matter to its condition. -/
theorem withCondition?_congr {before before' element element' : Fragment} (sameBefore : before'.info = before.info)
    (sameInfo : element'.info = element.info)
    (sameInner : element'.children.map Fragment.info = element.children.map Fragment.info) :
    withCondition? before element =
      (withCondition? before' element').map fun joined => .node joined.info element.children.tail := by
  obtain ⟨start, starts⟩ := before
  obtain ⟨start', starts'⟩ := before'
  obtain ⟨info, inner⟩ := element
  obtain ⟨info', inner'⟩ := element'
  obtain rfl : start' = start := sameBefore
  obtain rfl : info' = info := sameInfo
  have sameInner : inner'.map Fragment.info = inner.map Fragment.info := sameInner
  unfold withCondition? Fragment.kind Fragment.span Fragment.info Fragment.children
  dsimp only
  cases start'.kind with
  | conditionalStart condition =>
    cases info'.kind with
    | element e =>
      cases info'.startSpan with
      | none => rfl
      | some startSpan =>
        cases inner with
        | nil =>
          obtain rfl := List.map_eq_nil_iff.mp sameInner
          rfl
        | cons finish rest =>
          obtain ⟨⟨finish', inside⟩, rest', rfl, same, -⟩ := List.map_eq_cons_iff.mp sameInner
          obtain ⟨finish, inside'⟩ := finish
          obtain rfl : finish' = finish := same
          dsimp only [Option.bind_eq_bind, Option.bind_some, List.tail_cons]
          cases finish'.kind <;> try rfl
          dsimp only
          split <;> rfl
    | _ => rfl
  | _ => rfl

theorem joinConditions_cons {node : Fragment} (other : ∀ condition, node.kind ≠ .conditionalStart condition)
    (nodes : List Fragment) : joinConditions (node :: nodes) = node :: joinConditions nodes := by
  cases nodes with
  | nil => rfl
  | cons next rest =>
    have apart : withCondition? node next = none := by
      unfold withCondition?
      split
      · next condition starts => exact absurd starts (other condition)
      · rfl
    rw [joinConditions, apart]

theorem filter_ne_head {first : NodeId} (nodup : (first :: rest).Nodup) :
    (first :: rest).filter (fun child => some child ≠ some first) = rest := by
  have others : ∀ child ∈ rest, decide (some child ≠ some first) = true := fun child among =>
    decide_eq_true fun same => (List.nodup_cons.mp nodup).1 (Option.some.inj same ▸ among)
  rw [List.filter_cons_of_neg (by simp), List.filter_eq_self.mpr others]

variable (tree) in
theorem node_takeCondition_parent (place : Nat) (info : NodeInfo) (apart : parent ≠ id) (inside : parent < tree.size) :
    (tree.takeCondition parent place id info).node parent =
      { tree.node parent with children := (tree.children parent).eraseIdx place } := by
  unfold takeCondition modifyInfo setChildren
  rw [node_modify_of_ne _ _ apart, node_modify_of_ne _ _ apart, node_modify _ _ inside]

variable (tree) in
theorem node_takeCondition (sound : tree.Sound) (place : Nat) (info : NodeInfo) (apart : id ≠ parent)
    (inside : id < tree.size) :
    (tree.takeCondition parent place id info).node id =
      { tree.node id with toNodeInfo := info, children := (tree.children id).tail } := by
  have same : (tree.setChildren parent ((tree.children parent).eraseIdx place)).children id = tree.children id :=
    children_setChildren_of_ne tree _ apart
  have tail : (tree.children id).filter (fun child => some child ≠ tree.firstChild? id) = (tree.children id).tail := by
    unfold firstChild?
    have nodup := sound.nodup id
    cases lists : tree.children id with
    | nil => rfl
    | cons first rest =>
      rw [lists] at nodup
      exact filter_ne_head nodup
  unfold takeCondition
  dsimp only
  rw [same, tail]
  unfold modifyInfo setChildren
  rw [node_modify _ _ (by rwa [size_modify, size_modify]), node_modify _ _ (by rwa [size_modify]),
    node_modify_of_ne _ _ apart]

variable (tree) in
theorem changesOnly_takeCondition (parent : NodeId) (place : Nat) (id : NodeId) (info : NodeInfo) :
    tree.ChangesOnly [parent, id] (tree.takeCondition parent place id info) := by
  have own : ∀ other ∈ [id], other ∈ [parent, id] := fun other same => List.mem_cons_of_mem _ same
  unfold takeCondition modifyInfo setChildren
  refine (ChangesOnly.trans ?_ (changesOnly_modify _ id _) fun other same _ => own other same).trans
    (changesOnly_modify _ id _) fun other same _ => own other same
  exact (changesOnly_modify tree parent _).mono fun other same => List.mem_singleton.mp same ▸ List.mem_cons_self

theorem stepsAt_takeCondition (sound : tree.Sound) (inside : parent < tree.size) (listed : id ∈ tree.children parent)
    (place : Nat) (info : NodeInfo) : tree.StepsAt parent (tree.takeCondition parent place id info) := by
  have order := sound.later listed
  have apart : id ≠ parent := Nat.ne_of_gt order.1
  have changes := changesOnly_takeCondition tree parent place id info
  have size : (tree.takeCondition parent place id info).size = tree.size := by
    unfold takeCondition modifyInfo setChildren
    rw [size_modify, size_modify, size_modify]
  refine .of_sublist sound (changes.mono fun other among => ?_) size fun owner _ => ?_
  · obtain rfl | among := List.mem_cons.mp among
    · exact List.mem_cons_self
    · exact List.mem_cons_of_mem _ (List.mem_singleton.mp among ▸ listed)
  · by_cases isParent : owner = parent
    · rw [children, isParent, node_takeCondition_parent tree place info (Ne.symm apart) inside]
      exact List.eraseIdx_sublist _ _
    · by_cases isChild : owner = id
      · rw [children, isChild, node_takeCondition tree sound place info apart order.2]
        exact List.tail_sublist _
      · by_cases old : owner < tree.size
        · rw [children, changes.kept owner old (by simp [isParent, isChild])]
          exact List.Sublist.refl _
        · rw [children_of_size_le (size ▸ Nat.le_of_not_lt old)]
          exact List.nil_sublist _

theorem kind_of_withCondition? {before element joined : Fragment} (found : withCondition? before element = some joined)
    (condition : String) : joined.kind ≠ .conditionalStart condition := by
  obtain ⟨_, _, _, _, _, _, _, _, _, _, _, _, rfl⟩ := withCondition?_eq_some found
  nofun

/-- Joining goes on after the children that are done, given what is below the children of each child. -/
theorem map_look_joinConditionsFrom (init : List NodeId) {rest : List NodeId} {before : NodeId} (sound : tree.Sound)
    (inside : parent < tree.size) (lists : tree.children parent = init ++ before :: rest)
    (sees : ∀ id ∈ tree.children parent, ∀ child ∈ tree.children id, (below child).info = (tree.node child).toNodeInfo) :
    let after := tree.joinConditionsFrom parent init.length before rest
    tree.StepsAt parent after ∧ after.size = tree.size ∧
      (after.node parent).toNodeInfo = (tree.node parent).toNodeInfo ∧
      (after.children parent).map (after.look below) =
        init.map (tree.look below) ++ joinConditions ((before :: rest).map (tree.look below)) := by
  induction rest generalizing tree init before with
  | nil =>
    refine ⟨(Relabels.refl tree _).stepsAt sound, rfl, rfl, ?_⟩
    show (tree.children parent).map (tree.look below) = _
    rw [lists, List.map_append]
    rfl
  | cons id rest ih =>
    have shifted : init ++ before :: id :: rest = init ++ [before] ++ id :: rest := by simp
    have listed : id ∈ tree.children parent := lists ▸ by simp
    have order := sound.later listed
    have apart : id ≠ parent := Nat.ne_of_gt order.1
    have same := withCondition?_congr (show (tree.bare before).info = (tree.look below before).info from rfl)
      (show (tree.family id).info = (tree.look below id).info from rfl) (by
        show ((tree.children id).map tree.bare).map Fragment.info = ((tree.children id).map below).map Fragment.info
        rw [List.map_map, List.map_map]
        exact List.map_congr_left fun child among => (sees id listed child among).symm)
    dsimp only
    unfold joinConditionsFrom
    rw [List.map_cons, List.map_cons, joinConditions, same]
    split
    · next missing =>
      rw [missing]
      have length : init.length + 1 = (init ++ [before]).length := by simp
      have goal := ih (init ++ [before]) sound inside (lists.trans shifted) sees
      rw [← length] at goal
      refine ⟨goal.1, goal.2.1, goal.2.2.1, goal.2.2.2.trans ?_⟩
      rw [List.map_append, List.append_assoc]
      rfl
    · next joined found =>
      rw [found]
      have steps := stepsAt_takeCondition sound inside listed init.length joined.info
      have size : (tree.takeCondition parent init.length id joined.info).size = tree.size := by
        unfold takeCondition modifyInfo setChildren
        rw [size_modify, size_modify, size_modify]
      have atParent := node_takeCondition_parent tree init.length joined.info (Ne.symm apart) inside
      have atId := node_takeCondition tree sound init.length joined.info apart order.2
      have kept {other : NodeId} (old : other < tree.size) (notParent : other ≠ parent) (notId : other ≠ id) :
          (tree.takeCondition parent init.length id joined.info).node other = tree.node other :=
        (changesOnly_takeCondition tree parent init.length id joined.info).kept other old (by simp [notParent, notId])
      generalize tree.takeCondition parent init.length id joined.info = after at steps size atParent atId kept
      have lists' : after.children parent = init ++ id :: rest := by
        rw [children, atParent, lists]
        simp [List.eraseIdx_append_of_length_le]
      have fewer := mem_of_stepsAt steps size
      have sees' : ∀ owner ∈ after.children parent, ∀ child ∈ after.children owner,
          (below child).info = (after.node child).toNodeInfo := by
        intro owner among child inner
        have among := fewer.1 owner among
        have inner := fewer.2 owner among child inner
        have notId : child ≠ id := fun same => Nat.ne_of_gt (sound.later among).1 (sound.owner (same ▸ inner) listed)
        have notParent : child ≠ parent := Nat.ne_of_gt (Nat.lt_trans (sound.later among).1 (sound.later inner).1)
        rw [kept (sound.later inner).2 notParent notId]
        exact sees owner among child inner
      have goal := ih init steps.sound (size ▸ inside) lists' sees'
      refine ⟨steps.trans goal.1 size sound, goal.2.1.trans size, goal.2.2.1.trans ?_, goal.2.2.2.trans ?_⟩
      · rw [atParent]
      · have nodup := lists ▸ sound.nodup parent
        have still {ids : List NodeId} (among : ∀ other ∈ ids, other ∈ tree.children parent) (notId : id ∉ ids) :
            ids.map (after.look below) = ids.map (tree.look below) := by
          refine map_look_congr fun other member => kept (sound.later (among other member)).2 ?_ ?_
          · exact Nat.ne_of_gt (sound.later (among other member)).1
          · exact fun same => notId (same ▸ member)
        have looks : after.look below id = .node joined.info ((tree.children id).tail.map below) := by
          rw [look, children, atId]
        have plain (condition : String) : (after.look below id).kind ≠ .conditionalStart condition := by
          rw [looks]
          exact kind_of_withCondition? found condition
        obtain ⟨-, tailNodup, initApart⟩ := List.nodup_append.mp nodup
        rw [List.map_cons, joinConditions_cons plain, looks,
          still (fun other member => lists ▸ List.mem_append_left _ member)
            fun member => initApart id member id (by simp) rfl,
          still (fun other member => lists ▸ by simp [member])
            (List.nodup_cons.mp (List.nodup_cons.mp tailNodup).2).1, List.map_tail]
        rfl

theorem performs_foldConditionsAt : Performs source foldConditionsAt fun info children => .node info (joinConditions children) := by
  have does (tree : Tree) (id : NodeId) (sound : tree.Sound) (inside : id < tree.size) :
      let after := tree.foldConditionsAt id
      tree.StepsAt id after ∧ after.size = tree.size ∧ (after.node id).toNodeInfo = (tree.node id).toNodeInfo ∧
        (after.children id).map (after.look tree.fragment) =
          joinConditions ((tree.children id).map (tree.look tree.fragment)) := by
    unfold foldConditionsAt
    cases lists : tree.children id with
    | nil => exact ⟨(Relabels.refl tree _).stepsAt sound, rfl, rfl, by simp [lists, joinConditions]⟩
    | cons first rest =>
      exact map_look_joinConditionsFrom [] sound inside lists fun owner _ child _ => by
        rw [fragment_eq sound child]
        rfl
  refine performs_of_look (fun tree id sound inside => (does tree id sound inside).1)
    (fun tree id sound inside => mem_of_stepsAt (does tree id sound inside).1 (does tree id sound inside).2.1)
    fun tree id sound inside => ?_
  obtain ⟨-, -, info, made⟩ := does tree id sound inside
  rw [info, made]

end MarkupFormat.Markup.Tree
