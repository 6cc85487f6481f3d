import MarkupFormat.Proofs.Annotate.TableSteps

/-!
# Nodes that are added

Texts are split, and simple elements are merged with the texts around them, by adding nodes to the table and listing
them in the place of others, which stay in the table. What is added is listed nowhere before its parent lists it
(`Adds`), so what was in the table is as it was.
-/

namespace MarkupFormat.Markup.Tree

open Annotate

variable {tree middle after : Tree} {id parent : NodeId} {ids more olds others : List NodeId} {info : NodeInfo}

/-- Some nodes are among others that were there before, and the rest are added to the table and listed nowhere. -/
structure Adds (tree : Tree) (olds : List NodeId) (after : Tree) (ids : List NodeId) : Prop where
  sound : after.Sound
  changes : tree.ChangesOnly [] after
  listed : ∀ owner, ∀ child ∈ after.children owner, child < tree.size → child ∈ tree.children owner
  nodup : ids.Nodup
  new : ∀ id ∈ ids, id ∉ olds → tree.size ≤ id ∧ id < after.size ∧ ∀ owner, id ∉ after.children owner

namespace Adds

theorem refl (sound : tree.Sound) (nodup : ids.Nodup) : tree.Adds ids tree ids :=
  ⟨sound, .refl tree [], fun _ _ listed _ => listed, nodup, fun _ among other => absurd among other⟩

theorem mono (adds : tree.Adds olds after ids) (more : ∀ id ∈ olds, id ∈ others) : tree.Adds others after ids :=
  ⟨adds.sound, adds.changes, adds.listed, adds.nodup, fun id among other => adds.new id among fun old => other (more id old)⟩

theorem inside (adds : tree.Adds olds after ids) (old : ∀ id ∈ olds, id < tree.size) (among : id ∈ ids) : id < after.size := by
  by_cases known : id ∈ olds
  · exact Nat.lt_of_lt_of_le (old id known) adds.changes.size_le
  · exact (adds.new id among known).2.1

theorem fragment_eq (adds : tree.Adds olds after ids) (sound : tree.Sound) (inside : id < tree.size) :
    after.fragment id = tree.fragment id :=
  fragment_of_changesOnly adds.changes sound adds.sound inside fun _ _ => List.not_mem_nil

theorem append (first : tree.Adds olds middle ids) (second : middle.Adds others after more)
    (inside : ∀ id ∈ olds ++ others, id < tree.size) (apart : (olds ++ others).Nodup) :
    tree.Adds (olds ++ others) after (ids ++ more) := by
  obtain ⟨-, -, apart⟩ := List.nodup_append.mp apart
  have known {id : NodeId} (among : id ∈ ids) : id < middle.size :=
    first.inside (fun other old => inside other (List.mem_append_left _ old)) among
  refine ⟨second.sound, first.changes.trans second.changes nofun, fun owner child listed old => ?_, ?_, fun id among other => ?_⟩
  · have listed := second.listed owner child listed (Nat.lt_of_lt_of_le old first.changes.size_le)
    exact first.listed owner child listed old
  · refine List.nodup_append.mpr ⟨first.nodup, second.nodup, fun id among other among' same => ?_⟩
    subst same
    by_cases old : id ∈ others
    · have bound := inside id (List.mem_append_right _ old)
      by_cases before : id ∈ olds
      · exact apart id before id old rfl
      · exact absurd bound (Nat.not_lt_of_le (first.new id among before).1)
    · exact absurd (known among) (Nat.not_lt_of_le (second.new id among' old).1)
  · obtain ⟨notOld, notOther⟩ := not_or.mp fun found => other (List.mem_append.mpr found)
    obtain among | among := List.mem_append.mp among
    · obtain ⟨fresh, bound, unlisted⟩ := first.new id among notOld
      refine ⟨fresh, Nat.lt_of_lt_of_le bound second.changes.size_le, fun owner listed => ?_⟩
      exact unlisted owner (second.listed owner id listed bound)
    · obtain ⟨fresh, bound, unlisted⟩ := second.new id among notOther
      exact ⟨Nat.le_trans first.changes.size_le fresh, bound, unlisted⟩

theorem map_fragment_append (first : tree.Adds olds middle ids) (second : middle.Adds others after more)
    (old : ∀ id ∈ olds, id < tree.size) :
    (ids ++ more).map after.fragment = ids.map middle.fragment ++ more.map after.fragment := by
  rw [List.map_append]
  congr 1
  exact List.map_congr_left fun id among => second.fragment_eq first.sound (first.inside old among)

/-- Added nodes take their places among the children of a node. -/
theorem stepsAt (adds : tree.Adds olds after ids) (sound : tree.Sound) (inside : parent < tree.size)
    (within : ∀ id ∈ olds, id ∈ tree.children parent) :
    tree.StepsAt parent (after.setChildren parent ids) ∧
      (after.setChildren parent ids).fragment parent = .node (tree.node parent).toNodeInfo (ids.map after.fragment) := by
  have inside' := Nat.lt_of_lt_of_le inside adds.changes.size_le
  have later {id : NodeId} (among : id ∈ ids) : parent < id ∧ id < after.size := by
    refine ⟨?_, adds.inside (fun id old => (sound.later (within id old)).2) among⟩
    by_cases old : id ∈ olds
    · exact (sound.later (within id old)).1
    · exact Nat.lt_of_lt_of_le inside (adds.new id among old).1
  have sound' : (after.setChildren parent ids).Sound := by
    refine adds.sound.setChildren inside' adds.nodup fun id among => ⟨(later among).1, (later among).2, fun other listed => ?_⟩
    by_cases old : id ∈ olds
    · have here := within id old
      exact sound.owner (adds.listed other id listed (sound.later here).2) here
    · exact absurd listed ((adds.new id among old).2.2 other)
  have changes := changesOnly_modify after parent fun node => { node with children := ids }
  refine ⟨⟨sound', ?_, fun owner _ child listed old => ?_⟩, ?_⟩
  · refine (adds.changes.mono nofun).trans changes fun id among _ => ?_
    exact List.mem_singleton.mp among ▸ List.mem_cons_self
  · by_cases same : owner = parent
    · rw [same, children_setChildren after ids inside'] at listed
      by_cases known : child ∈ olds
      · exact same ▸ within child known
      · exact absurd old (Nat.not_lt_of_le (adds.new child listed known).1)
    · rw [children_setChildren_of_ne after ids same] at listed
      exact adds.listed owner child listed old
  · rw [Tree.fragment_eq sound', info_setChildren, adds.changes.kept parent inside List.not_mem_nil,
      children_setChildren after ids inside']
    congr 1
    refine List.map_congr_left fun id among => ?_
    refine fragment_of_changesOnly changes adds.sound sound' (later among).2 fun number member same => ?_
    have first := le_of_mem_ids adds.sound (isOf_outline adds.sound id) member
    rw [id_outline, List.mem_singleton.mp same] at first
    exact absurd (later among).1 (Nat.not_lt_of_le first)

end Adds

/-! ### Planting -/

theorem adds_alloc (sound : tree.Sound) (info : NodeInfo) :
    tree.Adds [] (tree.alloc { toNodeInfo := info }).1 [tree.size] ∧
      (tree.alloc { toNodeInfo := info }).1.fragment tree.size = .node info [] := by
  have children (id : NodeId) : (tree.alloc { toNodeInfo := info }).1.children id = tree.children id :=
    children_alloc tree rfl id
  have sound' : (tree.alloc { toNodeInfo := info }).1.Sound := sound.alloc rfl
  have size := size_alloc tree { toNodeInfo := info }
  refine ⟨⟨sound', changesOnly_alloc tree _ [], fun owner child listed _ => children owner ▸ listed, List.nodup_singleton _,
    fun id same _ => ?_⟩, ?_⟩
  · rw [List.mem_singleton.mp same]
    refine ⟨Nat.le_refl _, size ▸ Nat.lt_succ_self _, fun owner listed => ?_⟩
    rw [children] at listed
    exact absurd (sound.later listed).2 (Nat.lt_irrefl _)
  · rw [fragment_eq sound', node_alloc, children, children_of_size_le (Nat.le_refl _)]
    rfl

mutual

theorem adds_plant : ∀ (fragment : Fragment) {tree : Tree}, tree.Sound →
    tree.Adds [] (tree.plant fragment).1 [(tree.plant fragment).2] ∧
      (tree.plant fragment).1.fragment (tree.plant fragment).2 = fragment
  | .node info children, tree, sound => by
    obtain ⟨root, alone⟩ := adds_alloc sound info
    have fresh : tree.size < (tree.alloc { toNodeInfo := info }).1.size :=
      Nat.lt_of_lt_of_eq (Nat.lt_succ_self _) (size_alloc tree _).symm
    have none : (tree.alloc { toNodeInfo := info }).1.children tree.size = [] := by
      rw [children_alloc tree rfl, children_of_size_le (Nat.le_refl _)]
    unfold plant
    dsimp only
    have number : (tree.alloc { toNodeInfo := info }).2 = tree.size := rfl
    rw [number]
    have info' : ((tree.alloc { toNodeInfo := info }).1.node tree.size).toNodeInfo = info := by rw [node_alloc]
    generalize (tree.alloc { toNodeInfo := info }).1 = one at root fresh none info'
    obtain ⟨inner, planted⟩ := adds_plantAll children root.sound
    obtain ⟨steps, made⟩ := inner.stepsAt root.sound fresh nofun
    have inside : tree.size < (one.plantAll children).1.size := Nat.lt_of_lt_of_le fresh inner.changes.size_le
    refine ⟨⟨steps.sound, ?_, fun owner child listed old => ?_, List.nodup_singleton _, fun id same _ => ?_⟩, ?_⟩
    · refine root.changes.trans steps.changes fun id among old => ?_
      rw [none] at among
      exact absurd old (List.mem_singleton.mp among ▸ Nat.lt_irrefl _)
    · refine root.listed owner child ?_ old
      by_cases same : owner = tree.size
      · exact same ▸ steps.owned tree.size List.mem_cons_self child (same ▸ listed) (Nat.lt_trans old fresh)
      · rw [children_setChildren_of_ne _ _ same] at listed
        exact inner.listed owner child listed (Nat.lt_trans old fresh)
    · rw [List.mem_singleton.mp same]
      refine ⟨Nat.le_refl _, by rwa [setChildren, size_modify], fun owner listed => ?_⟩
      have apart : owner ≠ tree.size := Nat.ne_of_lt (steps.sound.later listed).1
      rw [children_setChildren_of_ne _ _ apart] at listed
      have listed := inner.listed owner _ listed fresh
      exact (root.new tree.size List.mem_cons_self List.not_mem_nil).2.2 owner listed
    · rw [made, planted, info']

theorem adds_plantAll : ∀ (fragments : List Fragment) {tree : Tree}, tree.Sound →
    tree.Adds [] (tree.plantAll fragments).1 (tree.plantAll fragments).2 ∧
      (tree.plantAll fragments).2.map (tree.plantAll fragments).1.fragment = fragments
  | [], tree, sound => ⟨.refl sound .nil, rfl⟩
  | fragment :: rest, tree, sound => by
    obtain ⟨first, planted⟩ := adds_plant fragment sound
    obtain ⟨second, others⟩ := adds_plantAll rest first.sound
    unfold plantAll
    refine ⟨first.append second nofun .nil, ?_⟩
    have both := first.map_fragment_append second nofun
    rw [List.map_singleton, planted, others] at both
    exact both

end

/-! ### Splitting texts -/

theorem splitText_bare (below : NodeId → Fragment) (isText : (tree.kind id).isText = true) :
    splitText (tree.bare id) = splitText (tree.look below id) := by
  have isText : (tree.node id).toNodeInfo.kind.isText = true := isText
  unfold splitText bare look Fragment.kind Fragment.span Fragment.info
  dsimp only
  split
  · rfl
  · next other =>
    unfold NodeKind.isText at isText
    split at isText
    · next value same => exact absurd same (other value)
    · cases isText

theorem splitText_noText {node : Fragment} (other : node.kind.isText = false) : splitText node = [node] := by
  unfold splitText
  split
  · next value isText =>
    rw [isText] at other
    cases other
  · rfl

/-- The pieces of each text take its place. -/
theorem adds_splitFrom {children : List NodeId} (sound : tree.Sound) (inside : ∀ id ∈ children, id < tree.size)
    (nodup : children.Nodup) :
    let result := tree.splitFrom children
    tree.Adds children result.1 result.2 ∧
      result.2.map result.1.fragment = (children.map tree.fragment).flatMap splitText := by
  induction children generalizing tree with
  | nil => exact ⟨.refl sound .nil, rfl⟩
  | cons child rest ih =>
    have childInside := inside child List.mem_cons_self
    have looked : tree.fragment child = tree.look tree.fragment child := fragment_eq sound child
    have here : let first := if (tree.kind child).isText then tree.plantAll (splitText (tree.bare child)) else (tree, [child])
        tree.Adds [child] first.1 first.2 ∧ first.2.map first.1.fragment = splitText (tree.fragment child) := by
      dsimp only
      split
      · next isText =>
        obtain ⟨planted, made⟩ := adds_plantAll (splitText (tree.bare child)) sound
        exact ⟨planted.mono nofun, made.trans (looked ▸ splitText_bare tree.fragment isText)⟩
      · next other =>
        refine ⟨.refl sound (List.nodup_singleton child), ?_⟩
        rw [splitText_noText]
        · rfl
        · rw [looked]
          exact Bool.eq_false_iff.mpr other
    unfold splitFrom
    generalize (if (tree.kind child).isText then tree.plantAll (splitText (tree.bare child)) else (tree, [child])) = first
      at here
    obtain ⟨first, ids⟩ := first
    obtain ⟨adds, made⟩ := here
    have later : ∀ id ∈ rest, id < tree.size := fun id among => inside id (List.mem_cons_of_mem _ among)
    obtain ⟨addsRest, madeRest⟩ := ih adds.sound
      (fun id among => Nat.lt_of_lt_of_le (later id among) adds.changes.size_le) (List.nodup_cons.mp nodup).2
    refine ⟨adds.append addsRest inside nodup, ?_⟩
    have both := adds.map_fragment_append addsRest fun id same => List.mem_singleton.mp same ▸ childInside
    have unchanged : rest.map first.fragment = rest.map tree.fragment :=
      List.map_congr_left fun id among => adds.fragment_eq sound (later id among)
    rw [made, madeRest, unchanged] at both
    exact both

variable {source : String}

theorem performs_splitTextsAt : Performs source splitTextsAt fun info children =>
    .node info (if splits info children then children.flatMap splitText else children) := by
  have does (tree : Tree) (id : NodeId) (sound : tree.Sound) (inside : id < tree.size) :
      let children := (tree.children id).map tree.fragment
      tree.StepsAt id (tree.splitTextsAt id) ∧ (tree.splitTextsAt id).fragment id = .node (tree.node id).toNodeInfo
        (if splits (tree.node id).toNodeInfo children then children.flatMap splitText else children) := by
    have kinds : ((tree.children id).map tree.bare).any hasExpression = ((tree.children id).map tree.fragment).any hasExpression := by
      rw [List.any_map, List.any_map]
      refine congrArg (List.any (tree.children id)) (funext fun child => ?_)
      show hasExpression (tree.bare child) = hasExpression (tree.fragment child)
      rw [fragment_eq sound child]
      rfl
    unfold splitTextsAt splits
    rw [kinds]
    dsimp only
    split
    · obtain ⟨adds, made⟩ := adds_splitFrom sound (fun child among => (sound.later among).2) (sound.nodup id)
      rw [← made]
      exact adds.stepsAt sound inside fun child among => among
    · exact ⟨(Relabels.refl tree _).stepsAt sound, fragment_eq sound id⟩
  exact performs_of_stepsAt (fun tree id sound inside => (does tree id sound inside).1)
    fun tree id _ sound inside => (does tree id sound inside).2

/-! ### Merging simple elements -/

/-- What is below the children of an element does not matter to whether it is simple. -/
theorem simpleElement?_congr {fragment fragment' : Fragment} (sameInfo : fragment'.info = fragment.info)
    (sameInner : fragment'.children.map Fragment.info = fragment.children.map Fragment.info) :
    simpleElement? fragment' = simpleElement? fragment := by
  obtain ⟨info, inner⟩ := fragment
  obtain ⟨info', inner'⟩ := fragment'
  obtain rfl : info' = info := sameInfo
  have sameInner : inner'.map Fragment.info = inner.map Fragment.info := sameInner
  have length := congrArg List.length sameInner
  rw [List.length_map, List.length_map] at length
  unfold simpleElement? Fragment.kind Fragment.info Fragment.children
  dsimp only
  match inner, inner' with
  | [], [] => rfl
  | [⟨only, _⟩], [⟨only', _⟩] =>
    obtain rfl : only' = only := (List.cons.inj sameInner).1
    cases info'.kind <;> rfl
  | _ :: _ :: _, _ :: _ :: _ => cases info'.kind <;> rfl

theorem mergedText?_congr {chars : List Char} {before before' fragment fragment' next next' : Fragment}
    (sameBefore : before'.info = before.info) (sameInfo : fragment'.info = fragment.info)
    (sameInner : fragment'.children.map Fragment.info = fragment.children.map Fragment.info)
    (sameNext : next'.info = next.info) :
    mergedText? chars before' fragment' next' = mergedText? chars before fragment next := by
  unfold mergedText? Fragment.kind Fragment.span
  rw [simpleElement?_congr sameInfo sameInner, sameBefore, sameInfo, sameNext]

theorem info_fragment (sound : tree.Sound) (id : NodeId) : (tree.fragment id).info = (tree.node id).toNodeInfo := by
  rw [fragment_eq sound]
  rfl

theorem mergedText?_fragment (sound : tree.Sound) (chars : List Char) (before id next : NodeId) :
    mergedText? chars (tree.fragment before) (tree.fragment id) (tree.fragment next) =
      mergedText? chars (tree.bare before) (tree.family id) (tree.bare next) := by
  refine mergedText?_congr (info_fragment sound before) (info_fragment sound id) ?_ (info_fragment sound next)
  rw [fragment_eq sound]
  show ((tree.children id).map tree.fragment).map Fragment.info = ((tree.children id).map tree.bare).map Fragment.info
  rw [List.map_map, List.map_map]
  exact List.map_congr_left fun child _ => info_fragment sound child

theorem adds_mergeSimpleFrom {children : List NodeId} (sound : tree.Sound) (inside : ∀ id ∈ children, id < tree.size)
    (nodup : children.Nodup) :
    let result := tree.mergeSimpleFrom children
    tree.Adds children result.1 result.2 ∧
      result.2.map result.1.fragment = mergeSimple tree.source.toList (children.map tree.fragment) := by
  fun_induction tree.mergeSimpleFrom children with
  | case1 tree before id next rest text found one merged allocated after joined went ih =>
    obtain ⟨root, alone⟩ := adds_alloc sound text.info
    obtain rfl : tree.size = merged := congrArg Prod.snd allocated
    obtain rfl : (tree.alloc { toNodeInfo := text.info }).1 = one := congrArg Prod.fst allocated
    generalize (tree.alloc { toNodeInfo := text.info }).1 = one at root alone ih went
    have nodup : ([before, id, next] ++ rest).Nodup := nodup
    have later : ∀ id ∈ rest, id < tree.size := fun id among => inside id (by simp [among])
    obtain ⟨adds, made⟩ := ih root.sound (fun id among => Nat.lt_of_lt_of_le (later id among) root.changes.size_le)
      (List.nodup_append.mp nodup).2.1
    rw [went] at adds made
    have taken : tree.Adds [before, id, next] one [tree.size] := root.mono nofun
    refine ⟨taken.append adds inside nodup, ?_⟩
    have both := root.map_fragment_append adds nofun
    have unchanged : rest.map one.fragment = rest.map tree.fragment :=
      List.map_congr_left fun id among => root.fragment_eq sound (later id among)
    have leaf : .node text.info [] = text := by
      rw [← (merges_of_mergedText? found).leaf]
      cases text
      rfl
    rw [List.map_singleton, alone, made, unchanged, leaf, root.changes.source_eq] at both
    show _ = mergeSimple tree.source.toList
      (tree.fragment before :: tree.fragment id :: tree.fragment next :: rest.map tree.fragment)
    rw [mergeSimple, mergedText?_fragment sound, found]
    exact both
  | case2 tree before id next rest missing after joined went ih =>
    have later : ∀ other ∈ id :: next :: rest, other < tree.size := fun other among =>
      inside other (List.mem_cons_of_mem _ among)
    obtain ⟨adds, made⟩ := ih sound later (List.nodup_cons.mp nodup).2
    rw [went] at adds made
    have first : tree.Adds [before] tree [before] := .refl sound (List.nodup_singleton before)
    refine ⟨first.append adds inside nodup, ?_⟩
    show _ = mergeSimple tree.source.toList
      (tree.fragment before :: tree.fragment id :: tree.fragment next :: rest.map tree.fragment)
    rw [mergeSimple, mergedText?_fragment sound, missing]
    have both := first.map_fragment_append adds fun id same => List.mem_singleton.mp same ▸ inside before List.mem_cons_self
    rw [made] at both
    exact both
  | case3 tree ids few =>
    refine ⟨.refl sound nodup, ?_⟩
    match ids, few with
    | [], _ => rfl
    | [_], _ => rfl
    | [_, _], _ => rfl
    | before :: id :: next :: rest, few => exact (few before id next rest rfl).elim

theorem performs_mergeSimpleAt : Performs source mergeSimpleAt fun info children =>
    .node info (mergeSimple source.toList children) := by
  have does (tree : Tree) (id : NodeId) (sound : tree.Sound) (inside : id < tree.size) :
      tree.StepsAt id (tree.mergeSimpleAt id) ∧ (tree.mergeSimpleAt id).fragment id =
        .node (tree.node id).toNodeInfo (mergeSimple tree.source.toList ((tree.children id).map tree.fragment)) := by
    obtain ⟨adds, made⟩ := adds_mergeSimpleFrom sound (fun child among => (sound.later among).2) (sound.nodup id)
    rw [← made]
    exact adds.stepsAt sound inside fun child among => among
  refine performs_of_stepsAt (fun tree id sound inside => (does tree id sound inside).1) fun tree id written sound inside => ?_
  rw [← written]
  exact (does tree id sound inside).2

end MarkupFormat.Markup.Tree
