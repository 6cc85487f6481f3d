import MarkupFormat.Proofs.Layout.Moments
import MarkupFormat.Proofs.Layout.Paths

/-!
# Forced breaks are exact

The walk for forced breaks looks at a group once, however many parents it has. `breaks_exact` shows that it finds the
groups that force a break, and that the lines directly in these end their line whatever room there is.
-/

namespace MarkupFormat.Layout

open Doc (Forces)

/-! ### The walk -/

namespace BreakSet

theorem isBroken_iff {breaks : BreakSet} {mark : Mark} {info : GroupInfo} :
    breaks.isBroken mark info = true ↔ info.mustBreak = true ∨ mark ∈ breaks.marks := by
  unfold isBroken
  rw [Bool.or_eq_true, Std.HashSet.contains_iff_mem]

theorem mem_breakInnermost {breaks : BreakSet} {opened : List Doc} {mark : Mark} :
    mark ∈ (breaks.breakInnermost opened).marks ↔ mark ∈ breaks.marks ∨
      ∃ info body outer, opened = .group mark info body :: outer ∧ info.mustBreak = false := by
  unfold breakInnermost
  split
  · next innermost info body outer =>
    split
    · next must =>
      constructor
      · exact Or.inl
      · rintro (member | ⟨_, _, _, same, free⟩)
        · exact member
        · cases same
          rw [must] at free
          cases free
    · next free =>
      rw [Bool.not_eq_true] at free
      rw [Std.HashSet.mem_insert, beq_iff_eq]
      constructor
      · rintro (rfl | member)
        · exact Or.inr ⟨info, body, outer, rfl, free⟩
        · exact Or.inl member
      · rintro (member | ⟨_, _, _, same, _⟩)
        · exact Or.inr member
        · cases same
          exact Or.inl rfl
  · next noGroup =>
    constructor
    · exact Or.inl
    · rintro (member | ⟨info, body, outer, same, _⟩)
      · exact member
      · exact absurd same (noGroup mark info body outer)

namespace Search

/-- Every group in a document was met, and those that have to break are known. -/
def Settles (search : Search) (doc : Doc) : Prop :=
  ∀ node, doc.Contains node → node.isGroup = true → node.mark ∈ search.visited ∧
    ∀ mark info body, node = .group mark info body → info.mustBreak = false → body.Forces →
      mark ∈ search.breaks.marks

/-- What is known so far is right, and it is everything about the groups that were met and left. -/
structure Exact (root : Doc) (search : Search) : Prop where
  inside : ∀ group ∈ search.opened, root.Contains group
  sound : ∀ mark ∈ search.breaks.marks,
    ∃ info body, root.Contains (.group mark info body) ∧ info.mustBreak = false ∧ body.Forces
  known : ∀ group, root.Contains group → group.isGroup = true → group.mark ∈ search.visited →
    group ∈ search.opened ∨ search.Settles group

/-- A node is about to be entered: the open groups are around it, and it breaks the innermost of them if it forces
a break. -/
structure Ready (root : Doc) (search : Search) (doc : Doc) : Prop extends search.Exact root where
  contains : root.Contains doc
  around : ∀ group ∈ search.opened, doc.weight < group.weight
  feeds : ∀ mark info body outer, search.opened = .group mark info body :: outer → doc.Forces → body.Forces

/-- Nothing that was known is forgotten. -/
structure Extends (search after : Search) : Prop where
  sameOpened : after.opened = search.opened
  visited : ∀ mark ∈ search.visited, mark ∈ after.visited
  breaks : ∀ mark ∈ search.breaks.marks, mark ∈ after.breaks.marks

/-- The innermost open group breaks, if it is one that can be broken. -/
def BreaksInnermost (search : Search) : Prop :=
  ∀ mark info body outer, search.opened = .group mark info body :: outer → info.mustBreak = false →
    mark ∈ search.breaks.marks

/-- A node was left: everything in it is settled, and it broke the group around it if it forces a break. -/
structure Found (root : Doc) (search : Search) (doc : Doc) (after : Search) : Prop extends
    search.Extends after, after.Exact root where
  settles : after.Settles doc
  passedOn : doc.Forces → after.BreaksInnermost

variable {root doc : Doc} {search middle after : Search}

theorem Extends.trans (first : search.Extends middle) (second : middle.Extends after) : search.Extends after :=
  ⟨second.sameOpened.trans first.sameOpened, fun mark member => second.visited mark (first.visited mark member),
    fun mark member => second.breaks mark (first.breaks mark member)⟩

theorem Settles.mono (settles : search.Settles doc) (visited : ∀ mark ∈ search.visited, mark ∈ after.visited)
    (breaks : ∀ mark ∈ search.breaks.marks, mark ∈ after.breaks.marks) : after.Settles doc := by
  intro node contains isGroup
  obtain ⟨met, known⟩ := settles node contains isGroup
  exact ⟨visited _ met, fun mark info body same free forces => breaks _ (known mark info body same free forces)⟩

theorem BreaksInnermost.mono (broken : search.BreaksInnermost) (extends_ : search.Extends after) :
    after.BreaksInnermost := by
  intro mark info body outer same free
  rw [extends_.sameOpened] at same
  exact extends_.breaks mark (broken mark info body outer same free)

/-- What the walk finds below a node, from whatever it knew before. -/
def Finds (root doc : Doc) : Prop :=
  ∀ search frames, Ready root search doc → ∃ after,
    walk visitor true search (.enter doc :: frames) = walk visitor true after frames ∧ Found root search doc after

theorem finds_all {docs : List Doc} (frames : List Frame) (each : ∀ doc ∈ docs, Finds root doc)
    (ready : ∀ doc ∈ docs, Ready root search doc) (exact_ : search.Exact root) :
    ∃ after, walk visitor true search (docs.map .enter ++ frames) = walk visitor true after frames ∧
      search.Extends after ∧ after.Exact root ∧ (∀ doc ∈ docs, after.Settles doc) ∧
      ((∃ doc ∈ docs, doc.Forces) → after.BreaksInnermost) := by
  induction docs generalizing search with
  | nil =>
    refine ⟨search, rfl, ⟨rfl, fun _ => id, fun _ => id⟩, exact_, nofun, ?_⟩
    rintro ⟨_, member, _⟩
    cases member
  | cons doc rest ih =>
    have here := ready doc List.mem_cons_self
    obtain ⟨middle, walked, found⟩ := each doc List.mem_cons_self search (rest.map .enter ++ frames) here
    have later : ∀ other ∈ rest, Ready root middle other := by
      intro other member
      have before := ready other (List.mem_cons_of_mem _ member)
      refine { found.toExact with contains := before.contains, around := ?_, feeds := ?_ }
      · rw [found.sameOpened]
        exact before.around
      · rw [found.sameOpened]
        exact before.feeds
    obtain ⟨after, walkedRest, extends_, exactAfter, settles, passedOn⟩ :=
      ih (fun other member => each other (List.mem_cons_of_mem _ member)) later found.toExact
    refine ⟨after, walked.trans walkedRest, found.toExtends.trans extends_, exactAfter, ?_, ?_⟩
    · intro other member
      rcases List.mem_cons.mp member with rfl | member
      · exact found.settles.mono extends_.visited extends_.breaks
      · exact settles other member
    · rintro ⟨other, member, forces⟩
      rcases List.mem_cons.mp member with rfl | member
      · exact (found.passedOn forces).mono extends_
      · exact passedOn ⟨other, member, forces⟩

/-- A group that is settled is broken exactly if it forces a break. -/
theorem isBroken_eq_true_iff (apart : root.MarksTellApart) (exact_ : search.Exact root) (settles : search.Settles doc)
    (contains : root.Contains doc) {mark : Mark} {info : GroupInfo} (isMark : doc.mark = mark)
    (isInfo : doc.info? = some info) : search.breaks.isBroken mark info = true ↔ doc.Forces := by
  rw [isBroken_iff]
  cases doc <;> simp only [Doc.info?, reduceCtorEq, Option.some.injEq] at isInfo
  case group groupMark groupInfo body =>
    subst isInfo isMark
    rw [Doc.forces_group]
    constructor
    · rintro (must | member)
      · exact Or.inl must
      · obtain ⟨info, body, inside, _, forces⟩ := exact_.sound _ member
        cases apart _ _ inside contains rfl
        exact Or.inr forces
    · rintro (must | forces)
      · exact Or.inl must
      · by_cases must : groupInfo.mustBreak = true
        · exact Or.inl must
        · exact Or.inr ((settles _ (.here _) rfl).2 _ _ _ rfl (Bool.eq_false_iff.mpr must) forces)
  case choice =>
    subst isInfo isMark
    rw [Doc.forces_choice]
    constructor
    · rintro (must | member)
      · exact must
      · obtain ⟨info, body, inside, _, _⟩ := exact_.sound _ member
        cases apart _ _ inside contains rfl
    · exact Or.inl

/-- A node that forces a break breaks the innermost open group, and nothing else changes. -/
theorem found_of_broken {breaks : BreakSet} (ready : Ready root search doc) (settles : search.Settles doc)
    (changed : breaks = search.breaks.breakInnermost search.opened) (forces : doc.Forces) :
    Found root search doc { search with breaks := breaks } := by
  subst changed
  have kept : ∀ mark ∈ search.breaks.marks, mark ∈ (search.breaks.breakInnermost search.opened).marks :=
    fun mark member => mem_breakInnermost.mpr (Or.inl member)
  refine ⟨⟨rfl, fun _ => id, kept⟩, ⟨ready.inside, ?_, ?_⟩, settles.mono (fun _ => id) kept, ?_⟩
  · intro mark member
    rcases mem_breakInnermost.mp member with member | ⟨info, body, outer, same, free⟩
    · exact ready.sound mark member
    · refine ⟨info, body, ready.inside _ ?_, free, ready.feeds mark info body outer same forces⟩
      rw [same]
      exact List.mem_cons_self
  · intro group contains isGroup met
    rcases ready.known group contains isGroup met with member | settled
    · exact Or.inl member
    · exact Or.inr (settled.mono (fun _ => id) kept)
  · intro _ mark info body outer same free
    exact mem_breakInnermost.mpr (Or.inr ⟨info, body, outer, same, free⟩)

/-- A node that does not force a break leaves what is known as it is. -/
theorem found_of_kept (exact_ : search.Exact root) (settles : search.Settles doc) (calm : ¬doc.Forces) :
    Found root search doc search :=
  ⟨⟨rfl, fun _ => id, fun _ => id⟩, exact_, settles, fun forces => absurd forces calm⟩

theorem found_of_left (apart : root.MarksTellApart) (ready : Ready root search doc) (isGroup : doc.isGroup = true)
    (opened : middle.opened = doc :: search.opened) (visited : ∀ mark ∈ search.visited, mark ∈ middle.visited)
    (breaks : ∀ mark ∈ search.breaks.marks, mark ∈ middle.breaks.marks) (exact_ : middle.Exact root)
    (settles : middle.Settles doc) : Found root search doc (visitor.leave middle doc) := by
  have extends_ : search.Extends { middle with opened := search.opened } := ⟨rfl, visited, breaks⟩
  have ready' : Ready root { middle with opened := search.opened } doc := by
    refine ⟨⟨ready.inside, exact_.sound, fun group contains isGroup met => ?_⟩, ready.contains, ready.around,
      ready.feeds⟩
    rcases exact_.known group contains isGroup met with member | settled
    · rw [opened] at member
      rcases List.mem_cons.mp member with rfl | member
      · exact Or.inr settles
      · exact Or.inl member
    · exact Or.inr settled
  have left (mark : Mark) (info : GroupInfo) (isMark : doc.mark = mark) (isInfo : doc.info? = some info) :
      Found root search doc (middle.close mark info) := by
    have broken := isBroken_eq_true_iff apart exact_ settles ready.contains isMark isInfo
    have found : Found root { middle with opened := search.opened } doc (middle.close mark info) := by
      unfold close
      rw [opened]
      dsimp only [List.tail_cons]
      by_cases forces : doc.Forces
      · rw [if_pos (broken.mpr forces)]
        exact found_of_broken ready' settles rfl forces
      · rw [if_neg (mt broken.mp forces)]
        exact found_of_kept ready'.toExact settles forces
    exact { found with toExtends := extends_.trans found.toExtends }
  cases doc <;> simp only [Doc.isGroup, Bool.false_eq_true] at isGroup
  case group => exact left _ _ rfl rfl
  case choice => exact left _ _ rfl rfl

theorem exact_open (apart : root.MarksTellApart) (ready : Ready root search doc) :
    (search.open' doc).2.Exact root := by
  refine ⟨fun group member => ?_, ready.sound, fun group contains isGroup met => ?_⟩
  · rcases List.mem_cons.mp member with rfl | member
    · exact ready.contains
    · exact ready.inside group member
  · change group.mark ∈ search.visited.insert doc.mark at met
    rw [Std.HashSet.mem_insert, beq_iff_eq] at met
    rcases met with same | met
    · cases apart _ _ ready.contains contains same
      exact Or.inl List.mem_cons_self
    · rcases ready.known group contains isGroup met with member | settled
      · exact Or.inl (List.mem_cons_of_mem _ member)
      · exact Or.inr (settled.mono (fun mark => Std.HashSet.mem_insert.mpr ∘ Or.inr) fun _ => id)

/-- A group is searched when it is met for the first time. When it is met again, what there is in it is known. -/
theorem finds_group (apart : root.MarksTellApart) (isGroup : doc.isGroup = true)
    (each : ∀ child ∈ doc.children true, Finds root child) : Finds root doc := by
  intro search frames ready
  have entered : visitor.enter search doc = search.open' doc := by
    cases doc <;> first | rfl | exact absurd isGroup Bool.false_ne_true
  have exactOpen := exact_open apart ready
  have opened : (search.open' doc).2.opened = doc :: search.opened := rfl
  have visited : ∀ mark ∈ search.visited, mark ∈ (search.open' doc).2.visited :=
    fun mark => Std.HashSet.mem_insert.mpr ∘ Or.inr
  have isMet : doc.mark ∈ (search.open' doc).2.visited := Std.HashSet.mem_insert_self
  by_cases met : search.visited.contains doc.mark = true
  · have skips : visitor.enter search doc = (.skipChildren, (search.open' doc).2) := by
      rw [entered]
      unfold open'
      rw [if_pos met]
    have settles : (search.open' doc).2.Settles doc := by
      rcases ready.known doc ready.contains isGroup (Std.HashSet.contains_iff_mem.mp met) with member | settled
      · exact absurd (ready.around doc member) (Nat.lt_irrefl _)
      · exact settled.mono visited fun _ => id
    refine ⟨_, ?_, found_of_left apart ready isGroup opened visited (fun _ => id) exactOpen settles⟩
    rw [walk, skips]
    dsimp only
    rw [walk]
  · have proceeds : visitor.enter search doc = (.proceed, (search.open' doc).2) := by
      rw [entered]
      unfold open'
      rw [if_neg met]
    have readyChildren : ∀ child ∈ doc.children true, Ready root (search.open' doc).2 child := by
      intro child below
      have lighter : child.weight < doc.weight :=
        Nat.lt_of_le_of_lt (Doc.weight_le_weights below) (doc.weights_children_lt true)
      refine { exactOpen with contains := Doc.contains_child ready.contains below, around := ?_, feeds := ?_ }
      · intro group member
        rcases List.mem_cons.mp member with rfl | member
        · exact lighter
        · exact Nat.lt_trans lighter (ready.around group member)
      · intro mark info body outer same forces
        cases same
        rwa [List.mem_singleton.mp below] at forces
    obtain ⟨after, walked, extends_, exactAfter, settles, passedOn⟩ :=
      finds_all (.leave doc :: frames) each readyChildren exactOpen
    have settlesDoc : after.Settles doc := by
      intro node contains isGroup
      rcases Doc.contains_iff.mp contains with rfl | ⟨child, below, contains⟩
      · refine ⟨extends_.visited _ isMet, fun mark info body same free forces => ?_⟩
        subst same
        exact passedOn ⟨body, List.mem_cons_self, forces⟩ mark info body search.opened
          (extends_.sameOpened.trans opened) free
      · exact settles child below node contains isGroup
    refine ⟨_, ?_, found_of_left apart ready isGroup (extends_.sameOpened.trans opened)
      (fun mark member => extends_.visited mark (visited mark member)) extends_.breaks exactAfter settlesDoc⟩
    rw [walk, proceeds]
    dsimp only
    rw [walked, walk]

theorem finds_other (noGroup : doc.isGroup = false)
    (each : ∀ child ∈ doc.children true, Finds root child) : Finds root doc := by
  intro search frames ready
  have passes : doc.isChoice = false := by
    cases doc <;> first | rfl | exact absurd noGroup.symm Bool.false_ne_true
  have proceeds : visitor.enter search doc = (.proceed, search) := by
    cases doc <;> first | rfl | exact absurd noGroup.symm Bool.false_ne_true
  have readyChildren : ∀ child ∈ doc.children true, Ready root search child := by
    intro child below
    have lighter : child.weight < doc.weight :=
      Nat.lt_of_le_of_lt (Doc.weight_le_weights below) (doc.weights_children_lt true)
    refine { ready.toExact with contains := Doc.contains_child ready.contains below, around := ?_, feeds := ?_ }
    · exact fun group member => Nat.lt_trans lighter (ready.around group member)
    · intro mark info body outer same forces
      exact ready.feeds mark info body outer same ((Doc.forces_iff passes).mpr (Or.inr ⟨child, below, forces⟩))
  obtain ⟨after, walked, extends_, exactAfter, settles, passedOn⟩ :=
    finds_all (.leave doc :: frames) each readyChildren ready.toExact
  have settlesDoc : after.Settles doc := by
    intro node contains isGroup
    rcases Doc.contains_iff.mp contains with rfl | ⟨child, below, contains⟩
    · rw [noGroup] at isGroup
      cases isGroup
    · exact settles child below node contains isGroup
  have whole : walk visitor true search (.enter doc :: frames) =
      walk visitor true (visitor.leave after doc) frames := by
    rw [walk, proceeds]
    dsimp only
    rw [walked, walk]
  refine ⟨_, whole, ?_⟩
  by_cases asks : doc.asksForBreak = true
  · have readyAfter : Ready root after doc := by
      refine { exactAfter with contains := ready.contains, around := ?_, feeds := ?_ }
      · rw [extends_.sameOpened]
        exact ready.around
      · rw [extends_.sameOpened]
        exact ready.feeds
    have forces : doc.Forces := (Doc.forces_iff passes).mpr (Or.inl asks)
    have left : visitor.leave after doc = { after with breaks := after.breaks.breakInnermost after.opened } := by
      cases doc <;> first | rfl | exact absurd asks Bool.false_ne_true | exact absurd noGroup.symm Bool.false_ne_true
    have found : Found root after doc (visitor.leave after doc) := by
      rw [left]
      exact found_of_broken readyAfter settlesDoc rfl forces
    exact { found with toExtends := extends_.trans found.toExtends }
  · have left : visitor.leave after doc = after := by
      cases doc <;> first | rfl | exact absurd noGroup.symm Bool.false_ne_true | exact absurd rfl asks
    rw [left]
    refine ⟨extends_, exactAfter, settlesDoc, fun forces => ?_⟩
    rcases (Doc.forces_iff passes).mp forces with itself | below
    · exact absurd itself asks
    · exact passedOn below

theorem finds (apart : root.MarksTellApart) (doc : Doc) : Finds root doc := by
  induction size : doc.weight using Nat.strongRecOn generalizing doc with
  | ind size ih =>
    have each : ∀ child ∈ doc.children true, Finds root child := by
      intro child below
      have lighter : child.weight < doc.weight :=
        Nat.lt_of_le_of_lt (Doc.weight_le_weights below) (doc.weights_children_lt true)
      exact ih child.weight (size ▸ lighter) child rfl
    by_cases isGroup : doc.isGroup = true
    · exact finds_group apart isGroup each
    · exact finds_other (Bool.eq_false_iff.mpr isGroup) each

theorem exists_search (apart : root.MarksTellApart) :
    ∃ search : Search, root.breaks = search.breaks ∧ search.Exact root ∧ search.Settles root := by
  have ready : Ready root {} root := by
    refine ⟨⟨nofun, ?_, ?_⟩, .here root, nofun, nofun⟩
    · intro mark member
      exact absurd member Std.HashSet.not_mem_empty
    · intro group _ _ met
      exact absurd met Std.HashSet.not_mem_empty
  obtain ⟨after, walked, found⟩ := finds apart root {} [] ready
  refine ⟨after, ?_, found.toExact, found.settles⟩
  unfold Doc.breaks Doc.walk
  rw [walked, walk]

end Search

end BreakSet

/-! ### Lines directly in a group -/

namespace Doc

mutual

/-- The nodes directly in a node, in order: whether these are laid out broken is decided nowhere below it. -/
def directNodes : Doc → List Doc
  | concat _ parts => directNodesAll parts
  | indent _ body | align _ _ body | indentIfBreak _ body _ _ | label _ _ body => body.directNodes
  | doc => [doc]

/-- The nodes directly in several nodes. -/
def directNodesAll : List Doc → List Doc
  | [] => []
  | doc :: docs => doc.directNodes ++ directNodesAll docs

end

theorem directNodesAll_append (docs more : List Doc) :
    directNodesAll (docs ++ more) = directNodesAll docs ++ directNodesAll more := by
  induction docs with
  | nil => rfl
  | cons doc docs ih => rw [List.cons_append, directNodesAll, directNodesAll, ih, List.append_assoc]

end Doc

namespace RenderContext

variable (context : RenderContext)

theorem reaches_rest (state : RenderState) (pending rest : List Command) :
    ∃ after, context.Reaches ⟨state, pending ++ rest⟩ ⟨after, rest⟩ := by
  induction total : Command.weights pending using Nat.strongRecOn generalizing state pending with
  | ind size ih =>
    cases pending with
    | nil => exact ⟨state, .refl _⟩
    | cons command pending =>
      let step := context.renderStep state (pending ++ rest) command
      have lighter : Command.weights (step.2 ++ pending) < size := by
        have smaller : Command.weights step.2 < command.doc.weight := context.renderStep_lt ..
        rw [← total, Command.weights_append, Command.weights_cons]
        omega
      obtain ⟨after, reached⟩ := ih _ lighter step.1 (step.2 ++ pending) rfl
      rw [List.append_assoc] at reached
      exact ⟨after, .step reached⟩

/-- The moment comes at which a node is next that lies directly in what is pending, and it is laid out broken. What
lies behind it is still pending. -/
def Meets (state : RenderState) (pending rest : List Command) (node : Doc)
    (behind : List Doc) : Prop :=
  ∃ later indentation more, context.Reaches ⟨state, pending ++ rest⟩
    ⟨later, ⟨indentation, .broken, node⟩ :: (more ++ rest)⟩ ∧ Doc.directNodesAll (more.map (·.doc)) = behind

theorem meets_itself {doc node : Doc} {before after : List Doc} (state : RenderState) (indentation : Indentation)
    (rest : List Command) (split : [doc] = before ++ node :: after) :
    context.Meets state [⟨indentation, .broken, doc⟩] rest node after := by
  cases before with
  | nil =>
    cases split
    exact ⟨state, indentation, [], .refl _, rfl⟩
  | cons head before =>
    rw [List.cons_append, List.cons.injEq] at split
    exact absurd split.2.symm (List.append_ne_nil_of_right_ne_nil _ (List.cons_ne_nil _ _))

mutual

theorem meets_direct : ∀ (doc : Doc) (state : RenderState) (indentation : Indentation) (rest : List Command)
    {before after : List Doc} {node : Doc}, doc.directNodes = before ++ node :: after →
    context.Meets state [⟨indentation, .broken, doc⟩] rest node after
  | .concat mark parts, state, indentation, rest, _, _, _, split => by
    obtain ⟨later, inner, more, reached, behind⟩ := meets_directAll parts state indentation rest split
    exact ⟨later, inner, more, .step reached, behind⟩
  | .indent mark body, state, indentation, rest, _, _, _, split => by
    obtain ⟨later, inner, more, reached, behind⟩ := meets_direct body state _ rest split
    exact ⟨later, inner, more, .step reached, behind⟩
  | .align mark kind body, state, indentation, rest, _, _, _, split => by
    obtain ⟨later, inner, more, reached, behind⟩ := meets_direct body state _ rest split
    exact ⟨later, inner, more, .step reached, behind⟩
  | .label mark name body, state, indentation, rest, _, _, _, split => by
    obtain ⟨later, inner, more, reached, behind⟩ := meets_direct body state _ rest split
    exact ⟨later, inner, more, .step reached, behind⟩
  | .indentIfBreak mark body id negate, state, indentation, rest, _, _, _, split => by
    have next : ∃ inner, context.advance state ⟨indentation, .broken, .indentIfBreak mark body id negate⟩ rest =
        ⟨state, ⟨inner, .broken, body⟩ :: rest⟩ := by
      unfold advance renderStep
      dsimp only
      split
      · exact ⟨_, rfl⟩
      · exact ⟨_, rfl⟩
    obtain ⟨inner, next⟩ := next
    obtain ⟨later, inner, more, reached, behind⟩ := meets_direct body state inner rest split
    exact ⟨later, inner, more, .step (next ▸ reached), behind⟩
  | .text .., state, indentation, rest, _, _, _, split | .group .., state, indentation, rest, _, _, _, split
  | .choice .., state, indentation, rest, _, _, _, split | .fill .., state, indentation, rest, _, _, _, split
  | .line .., state, indentation, rest, _, _, _, split | .breakParent .., state, indentation, rest, _, _, _, split
  | .ifBreak .., state, indentation, rest, _, _, _, split | .trim .., state, indentation, rest, _, _, _, split =>
    context.meets_itself state indentation rest split

theorem meets_directAll : ∀ (docs : List Doc) (state : RenderState) (indentation : Indentation)
    (rest : List Command) {before after : List Doc} {node : Doc},
    Doc.directNodesAll docs = before ++ node :: after →
    context.Meets state (docs.map (⟨indentation, .broken, ·⟩)) rest node after
  | [], _, _, _, _, _, _, split => by
    rw [Doc.directNodesAll] at split
    exact absurd split.symm (List.append_ne_nil_of_right_ne_nil _ (List.cons_ne_nil _ _))
  | doc :: docs, state, indentation, rest, before, after, node, split => by
    let behindDoc := docs.map (fun doc : Doc => (⟨indentation, .broken, doc⟩ : Command))
    have skip : ∀ skipped, Doc.directNodesAll docs = skipped ++ node :: after →
        context.Meets state (⟨indentation, .broken, doc⟩ :: behindDoc) rest node after := by
      intro skipped split
      obtain ⟨passed, reachedRest⟩ :=
        context.reaches_rest state [⟨indentation, .broken, doc⟩] (behindDoc ++ rest)
      obtain ⟨later, inner, more, reached, behind⟩ := meets_directAll docs passed indentation rest split
      exact ⟨later, inner, more, reachedRest.trans reached, behind⟩
    rw [Doc.directNodesAll] at split
    rcases List.append_eq_append_iff.mp split with ⟨skipped, _, split⟩ | ⟨found, here, split⟩
    · exact skip skipped split
    · cases found with
      | nil => exact skip [] split.symm
      | cons _ found =>
        cases split
        obtain ⟨later, inner, more, reached, behind⟩ :=
          meets_direct doc state indentation (behindDoc ++ rest) here
        refine ⟨later, inner, more ++ behindDoc, ?_, ?_⟩
        · rwa [List.append_assoc]
        · rw [List.map_append, Doc.directNodesAll_append, behind, List.map_map]
          exact congrArg (found ++ Doc.directNodesAll ·) (List.map_id docs)

end

/-- A group that has to break is laid out broken, in whatever mode it is met and whatever room there is. -/
theorem advance_group {mark : Mark} {info : GroupInfo} (body : Doc)
    (broken : context.breaks.isBroken mark info = true) (state : RenderState) (indentation : Indentation)
    (mode : Mode) (rest : List Command) :
    ∃ opened, context.advance state ⟨indentation, mode, .group mark info body⟩ rest =
      ⟨opened, ⟨indentation, .broken, body⟩ :: rest⟩ := by
  unfold advance renderStep openGroup chooseMeasured
  dsimp only
  rw [broken]
  split
  · exact ⟨_, rfl⟩
  · exact ⟨_, rfl⟩

/-- A line that need not break does so where it is laid out broken. -/
theorem advance_brokenLine {mark : Mark} {kind : LineKind} (free : kind.isHard = false) (state : RenderState)
    (indentation : Indentation) (rest : List Command) :
    context.advance state ⟨indentation, .broken, .line mark kind⟩ rest =
      ⟨{ state with
          out := (state.out.trim.newline context.config.lineEnding).emit indentation.value
          column := indentation.length }, rest⟩ := by
  cases kind with
  | soft | plain => rfl
  | hard | literal => cases free

end RenderContext

/-! ### What is found and what it does -/

/-- The groups that have to break are those that force a break, however many parents they have, and never those with
alternatives. A line that lies directly in such a group ends the line. -/
theorem breaks_exact {doc : Doc} (apart : doc.MarksTellApart) :
    (∀ mark info body, doc.Contains (.group mark info body) → info.mustBreak = false →
      (mark ∈ doc.breaks.marks ↔ ∃ last, body.LeadsTo last ∧ last.asksForBreak = true)) ∧
    (∀ mark info body first others, doc.Contains (.choice mark info body first others) →
      mark ∉ doc.breaks.marks) ∧
    ∀ mark info body, mark ∈ doc.breaks.marks → ∀ before lineMark kind after,
      body.directNodes = before ++ .line lineMark kind :: after → kind.isHard = false →
      ∀ config state indentation mode rest, ∃ later inner more,
        RenderContext.Reaches ⟨config, doc.breaks⟩ ⟨state, ⟨indentation, mode, .group mark info body⟩ :: rest⟩
          ⟨later, ⟨inner, .broken, .line lineMark kind⟩ :: (more ++ rest)⟩ ∧
        Doc.directNodesAll (more.map (·.doc)) = after ∧
        RenderContext.advance ⟨config, doc.breaks⟩ later ⟨inner, .broken, .line lineMark kind⟩ (more ++ rest) =
          ⟨{ later with
              out := (later.out.trim.newline config.lineEnding).emit inner.value
              column := inner.length }, more ++ rest⟩ := by
  obtain ⟨search, same, exact_, settles⟩ := BreakSet.Search.exists_search apart
  refine ⟨?_, ?_, ?_⟩
  · intro mark info body contains free
    rw [same]
    constructor
    · intro member
      obtain ⟨otherInfo, otherBody, inside, _, forces⟩ := exact_.sound mark member
      cases apart _ _ inside contains rfl
      exact forces
    · intro forces
      exact (settles _ contains rfl).2 mark info body rfl free forces
  · intro mark info body first others contains member
    rw [same] at member
    obtain ⟨otherInfo, otherBody, inside, _, _⟩ := exact_.sound mark member
    cases apart _ _ inside contains rfl
  · intro mark info body member before lineMark kind after split free config state indentation mode rest
    have broken : doc.breaks.isBroken mark info = true := BreakSet.isBroken_iff.mpr (Or.inr member)
    obtain ⟨opened, next⟩ := RenderContext.advance_group ⟨config, doc.breaks⟩ body broken state
      indentation mode rest
    obtain ⟨later, inner, more, reached, behind⟩ :=
      RenderContext.meets_direct ⟨config, doc.breaks⟩ body opened indentation rest split
    refine ⟨later, inner, more, .step (next ▸ reached), behind, ?_⟩
    exact RenderContext.advance_brokenLine ⟨config, doc.breaks⟩ free later inner (more ++ rest)

/-- A group that asks for a break from within, with its mark and the marks that follow. -/
def askingGroup (mark : Mark) : Doc :=
  .group mark ⟨none, false⟩ (.concat (mark + 1) [.text (mark + 2) "a", .line (mark + 3) .soft, .breakParent (mark + 4)])

/-- One such group stands in another group, and one among alternatives. -/
def askedTwice (inner alternative : Mark) : Doc :=
  .concat 0 [.group 6 ⟨none, false⟩ (.indent 7 (askingGroup inner)),
    .choice 8 ⟨none, false⟩ (askingGroup alternative) (askingGroup alternative) [.text 9 "b"]]

/-- The nodes of the group that asks for a break. -/
def askingNodes (mark : Mark) : List Doc :=
  [askingGroup mark, .concat (mark + 1) [.text (mark + 2) "a", .line (mark + 3) .soft, .breakParent (mark + 4)],
    .text (mark + 2) "a", .line (mark + 3) .soft, .breakParent (mark + 4)]

/-- The nodes around the groups that ask for a break. -/
def aroundAsking (inner alternative : Mark) : List Doc :=
  [askedTwice inner alternative, .group 6 ⟨none, false⟩ (.indent 7 (askingGroup inner)), .indent 7 (askingGroup inner),
    .choice 8 ⟨none, false⟩ (askingGroup alternative) (askingGroup alternative) [.text 9 "b"], .text 9 "b"]

theorem marksTellApart_askedTwice : (askedTwice 1 1).MarksTellApart := by
  have closed : ∀ node ∈ aroundAsking 1 1 ++ askingNodes 1, ∀ child ∈ node.children true,
      child ∈ aroundAsking 1 1 ++ askingNodes 1 := by
    simp [aroundAsking, askingNodes, askedTwice, askingGroup, Doc.children]
  exact Doc.marksTellApart_of_closed List.mem_cons_self closed (by decide)

theorem breaks_askedTwice : (askedTwice 1 1).MarksTellApart ∧
    (1 ∈ (askedTwice 1 1).breaks.marks ∧ 6 ∈ (askedTwice 1 1).breaks.marks) ∧
    8 ∉ (askedTwice 1 1).breaks.marks ∧
    ∀ config state indentation rest, ∃ later inner more,
      RenderContext.Reaches ⟨config, (askedTwice 1 1).breaks⟩ ⟨state, ⟨indentation, .flat, askingGroup 1⟩ :: rest⟩
        ⟨later, ⟨inner, .broken, .line 4 .soft⟩ :: (more ++ rest)⟩ := by
  obtain ⟨found, spared, broken⟩ := breaks_exact marksTellApart_askedTwice
  have outer : (askedTwice 1 1).Contains (.group 6 ⟨none, false⟩ (.indent 7 (askingGroup 1))) :=
    .down trivial List.mem_cons_self (.here _)
  have inner : (askedTwice 1 1).Contains (askingGroup 1) :=
    outer.trans (.down trivial List.mem_cons_self (.down trivial List.mem_cons_self (.here _)))
  have path : Doc.LeadsTo (.concat 2 [.text 3 "a", .line 4 .soft, .breakParent 5]) (.breakParent 5) :=
    .down rfl (by simp [Doc.children]) (.here _)
  have asks : (1 : Mark) ∈ (askedTwice 1 1).breaks.marks := (found 1 _ _ inner rfl).mpr ⟨_, path, rfl⟩
  refine ⟨marksTellApart_askedTwice, ⟨asks, (found 6 _ _ outer rfl).mpr ?_⟩, ?_, ?_⟩
  · exact ⟨_, .down rfl List.mem_cons_self (.down rfl List.mem_cons_self path), rfl⟩
  · exact spared 8 ⟨none, false⟩ (askingGroup 1) (askingGroup 1) [.text 9 "b"]
      (.down trivial (List.mem_cons_of_mem _ List.mem_cons_self) (.here _))
  · intro config state indentation rest
    obtain ⟨later, inner, more, reached, _⟩ :=
      broken 1 ⟨none, false⟩ (.concat 2 [.text 3 "a", .line 4 .soft, .breakParent 5]) asks [.text 3 "a"] 4 .soft
        [.breakParent 5] rfl rfl config state indentation .flat rest
    exact ⟨later, inner, more, reached⟩

end MarkupFormat.Layout
