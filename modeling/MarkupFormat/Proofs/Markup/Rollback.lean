import MarkupFormat.Proofs.Markup.Building

/-!
# Dropping what was read of a section

While the section of a conditional comment is read, nodes are added after the node of the comment, and only these and
the children of this node are changed (`above_read`), however far reading comes and whatever it opens and ends. So no
node from before refers to what is dropped when the section cannot be read, and the table is the one to which the
comment was added with the section as its text (`endSection_of_error`).
-/

namespace MarkupFormat.Markup

namespace Tree

/-- A table grows after a node: the nodes up to this one stay, apart from the children of this one. -/
structure GrowsAfter (id : NodeId) (before after : Tree) : Prop where
  inside : id < after.size
  earlier : ∀ other < id, after.nodes[other]? = before.nodes[other]?
  node : ∃ children, after.nodes[id]? = before.nodes[id]?.map fun node => { node with children := children }
  source_eq : after.source = before.source
  lines_eq : after.lines = before.lines

variable {id other parent : NodeId} {before middle after : Tree}

theorem getElem?_modify (tree : Tree) (id other : NodeId) (change : Node → Node) :
    (tree.modify id change).nodes[other]? = if id = other then tree.nodes[other]?.map change else tree.nodes[other]? :=
  Array.getElem?_modify

theorem size_append (tree : Tree) (parent : NodeId) (node : Node) :
    (tree.append parent node).1.size = tree.size + 1 := by
  unfold append alloc
  dsimp only
  rw [size_modify]
  exact Array.size_push ..

theorem getElem?_append (tree : Tree) (parent other : NodeId) (node : Node) :
    (tree.append parent node).1.nodes[other]? =
      (if other = tree.size then some { node with parent := some parent } else tree.nodes[other]?).map fun found =>
        if parent = other then { found with children := found.children ++ [tree.size] } else found := by
  unfold append alloc
  dsimp only
  rw [getElem?_modify, Array.getElem?_push]
  show (if parent = other then Option.map _ (if other = tree.nodes.size then _ else _) else _) =
    Option.map _ (if other = tree.nodes.size then _ else _)
  split
  · rfl
  · exact (Option.map_id' ..).symm

theorem GrowsAfter.refl (inside : id < before.size) : before.GrowsAfter id before :=
  ⟨inside, fun _ _ => rfl, ⟨(before.node id).children, by
    unfold Tree.node
    rw [Array.getD_eq_getD_getElem?]
    cases before.nodes[id]? <;> rfl⟩, rfl, rfl⟩

theorem GrowsAfter.trans (first : before.GrowsAfter id middle) (later : id < other)
    (second : middle.GrowsAfter other after) : before.GrowsAfter id after := by
  refine ⟨Nat.lt_trans later second.inside, fun earlier less => ?_, ?_, second.source_eq.trans first.source_eq,
    second.lines_eq.trans first.lines_eq⟩
  · rw [second.earlier earlier (Nat.lt_trans less later), first.earlier earlier less]
  · rw [second.earlier id later]
    exact first.node

theorem GrowsAfter.modify (grows : before.GrowsAfter id after) (later : id < other) (change : Node → Node) :
    before.GrowsAfter id (after.modify other change) := by
  have kept (earlier : NodeId) (atMost : earlier ≤ id) :
      (after.modify other change).nodes[earlier]? = after.nodes[earlier]? := by
    rw [getElem?_modify, if_neg (Nat.ne_of_gt (Nat.lt_of_le_of_lt atMost later))]
  refine ⟨by rw [size_modify]; exact grows.inside, fun earlier less => ?_, ?_, grows.source_eq, grows.lines_eq⟩
  · rw [kept earlier (Nat.le_of_lt less), grows.earlier earlier less]
  · rw [kept id (Nat.le_refl id)]
    exact grows.node

theorem GrowsAfter.append (grows : before.GrowsAfter id after) (later : id ≤ parent) (node : Node) :
    before.GrowsAfter id (after.append parent node).1 := by
  have inside := grows.inside
  refine ⟨by rw [size_append]; exact Nat.lt_succ_of_lt inside, fun earlier less => ?_, ?_, grows.source_eq,
    grows.lines_eq⟩
  · rw [getElem?_append, if_neg (Nat.ne_of_lt (Nat.lt_trans less inside)), grows.earlier earlier less]
    simp only [Nat.ne_of_gt (Nat.lt_of_lt_of_le less later), if_false]
    exact Option.map_id' ..
  · obtain ⟨children, same⟩ := grows.node
    rw [getElem?_append, if_neg (Nat.ne_of_lt inside), same, Option.map_map]
    by_cases here : parent = id
    · refine ⟨children ++ [after.size], ?_⟩
      simp only [here, if_true]
      rfl
    · refine ⟨children, ?_⟩
      simp only [here, if_false]
      rfl

theorem getElem?_truncate (tree : Tree) {count : Nat} (less : other < count) :
    (tree.truncate count).nodes[other]? = tree.nodes[other]? := by
  show (tree.nodes.extract 0 count)[other]? = _
  rw [← Array.getElem?_toList, Array.toList_extract, ← Array.getElem?_toList]
  exact List.getElem?_take_of_lt less

theorem GrowsAfter.truncate {count : Nat} (grows : before.GrowsAfter id after) (later : id < count) :
    before.GrowsAfter id (after.truncate count) := by
  have inside : id < (after.truncate count).size := by
    show id < (after.nodes.extract 0 count).size
    rw [Array.size_extract, Nat.sub_zero]
    exact Nat.lt_min.mpr ⟨later, grows.inside⟩
  refine ⟨inside, fun earlier less => ?_, ?_, grows.source_eq, grows.lines_eq⟩
  · rw [getElem?_truncate _ (Nat.lt_trans less later), grows.earlier earlier less]
  · rw [getElem?_truncate _ later]
    exact grows.node

theorem eq_of_nodes_eq (nodes : after.nodes = before.nodes) (source : after.source = before.source)
    (lines : after.lines = before.lines) : after = before := by
  cases after
  cases before
  cases nodes
  cases source
  cases lines
  rfl

/-- What was added after the last node can be dropped again: only the children of that node may tell of it. -/
theorem GrowsAfter.modify_truncate (grows : before.GrowsAfter id after) (last : before.size = id + 1)
    (change : Node → Node) (forgets : ∀ node children, change { node with children := children } = change node) :
    (after.truncate (id + 1)).modify id change = before.modify id change := by
  refine eq_of_nodes_eq (Array.ext_getElem? fun other => ?_) grows.source_eq grows.lines_eq
  rw [getElem?_modify, getElem?_modify]
  rcases Nat.lt_trichotomy other id with less | rfl | more
  · rw [if_neg (Nat.ne_of_gt less), if_neg (Nat.ne_of_gt less), getElem?_truncate _ (Nat.lt_succ_of_lt less),
      grows.earlier other less]
  · obtain ⟨children, same⟩ := grows.node
    rw [if_pos rfl, if_pos rfl, getElem?_truncate _ (Nat.lt_succ_self _), same, Option.map_map]
    exact congrFun (congrArg Option.map (funext fun node => forgets node children)) _
  · have dropped : (after.truncate (id + 1)).size ≤ other := by
      show (after.nodes.extract 0 (id + 1)).size ≤ other
      rw [Array.size_extract, Nat.sub_zero]
      exact Nat.le_trans (Nat.min_le_left ..) more
    have none_before : before.size ≤ other := last.symm ▸ more
    rw [if_neg (Nat.ne_of_lt more), if_neg (Nat.ne_of_lt more), Array.getElem?_eq_none dropped,
      Array.getElem?_eq_none none_before]

end Tree

namespace Builder

variable {builder after : Builder} {id : NodeId} {before : Tree}

/-- What is read goes into the node `id` of a table and into nodes after it. -/
structure Above (id : NodeId) (before : Tree) (builder : Builder) : Prop where
  grows : before.GrowsAfter id builder.tree
  base_eq : builder.base = id
  opened : ∀ other ∈ builder.opened, id < other

theorem Above.le_container (above : builder.Above id before) : id ≤ builder.container := by
  unfold container
  cases same : builder.opened with
  | nil => exact Nat.le_of_eq above.base_eq.symm
  | cons innermost outer => exact Nat.le_of_lt (above.opened innermost (same ▸ List.mem_cons_self))

theorem Above.append (above : builder.Above id before) (info : NodeInfo) :
    (builder.append info).1.Above id before ∧ id < (builder.append info).2 :=
  ⟨⟨above.grows.append above.le_container _, above.base_eq, above.opened⟩, above.grows.inside⟩

theorem Above.leave (above : builder.Above id before) : builder.leave.Above id before :=
  ⟨above.grows, above.base_eq, fun other member => above.opened other (List.mem_of_mem_tail member)⟩

theorem Above.withOpened (above : builder.Above id before) {opened : List NodeId} (fewer : opened ⊆ builder.opened) :
    { builder with opened := opened : Builder }.Above id before :=
  ⟨above.grows, above.base_eq, fun other member => above.opened other (fewer member)⟩

theorem Above.close (above : builder.Above id before) (endSpan : Span) : (builder.close endSpan).Above id before := by
  unfold Builder.close
  split
  · exact above
  · next innermost outer same =>
    have later := above.opened innermost (same ▸ List.mem_cons_self)
    refine ⟨above.grows.modify later _, above.base_eq, fun other member => ?_⟩
    exact above.opened other (same ▸ List.mem_cons_of_mem _ member)

theorem subset_of_closedBy? {tree : Tree} {name : String} {ns : Option String} {opened rest : List NodeId}
    (found : tree.closedBy? name ns opened = some rest) : rest ⊆ opened := by
  induction opened with
  | nil => cases found
  | cons innermost outer ih =>
    unfold Tree.closedBy? at found
    split at found
    · cases found
    · split at found
      · cases found
        exact fun _ member => member
      · split at found
        · exact fun _ member => List.mem_cons_of_mem _ (ih found member)
        · cases found

theorem Above.follow {lexeme : Lexeme} (above : builder.Above id before)
    (followed : builder.follow lexeme = .ok after) : after.Above id before := by
  cases lexeme with
  | text | cdata | doctype | directive =>
    cases followed
    exact (above.append _).1
  | comment | startTag =>
    cases followed
    exact above
  | endTag tag =>
    simp only [Builder.follow, endTag] at followed
    split at followed
    · cases followed
    · split at followed
      · next opened found =>
        cases followed
        exact (above.withOpened (subset_of_closedBy? found)).close _
      · cases followed
  | componentEnd span =>
    simp only [Builder.follow, componentEnd] at followed
    split at followed
    · cases followed
    · cases followed
      exact above.close _

theorem Above.startElement (above : builder.Above id before) (info : NodeInfo) (childless raw : Bool) :
    (if childless then ((builder.append info).1, false)
      else ({ (builder.append info).1 with opened := (builder.append info).2 :: (builder.append info).1.opened },
        raw)).1.Above id before := by
  obtain ⟨added, later⟩ := above.append info
  split
  · exact added
  · exact ⟨added.grows, added.base_eq, List.forall_mem_cons.mpr ⟨later, added.opened⟩⟩

theorem Above.startTag (above : builder.Above id before) (tag : StartTag) :
    (builder.startTag tag).1.Above id before := by
  unfold Builder.startTag
  cases builder.innermost? with
  | none => exact above.startElement _ _ _
  | some parent =>
    dsimp only
    by_cases closed : parent.tag.isClosedBy tag.name.name = true
    · rw [if_pos closed]
      exact above.leave.startElement _ _ _
    · rw [if_neg closed]
      exact above.startElement _ _ _

theorem Above.readRawContent (above : builder.Above id before) (name : String) (cursor : Cursor) :
    (builder.readRawContent name cursor).1.Above id before := by
  unfold Builder.readRawContent
  generalize readRaw name.toList cursor.rest = raw
  obtain ⟨value, rest⟩ := raw
  dsimp only
  have inside : (if value = [] then builder
      else builder.add
        { kind := .text (String.ofList value)
          span := cursor.spanTo (cursor.skip value rest) }).Above id before := by
    split
    · exact above
    · exact (above.append _).1
  split
  · exact inside
  · split
    · exact inside.close _
    · exact inside

theorem Above.readElement (above : builder.Above id before) (tag : StartTag) (cursor : Cursor) :
    (builder.readElement tag cursor).1.Above id before := by
  have started := above.startTag tag
  unfold Builder.readElement
  split
  · next same =>
    rw [same] at started
    exact started.readRawContent _ _
  · next same =>
    rw [same] at started
    exact started

/-- A section that is read inside of a later node, and then dropped or not, leaves the earlier ones alone. -/
theorem Above.endSection {inner : Builder × Except Failure Unit} {span : Span} {condition : String}
    {body : List Char} {info : NodeInfo} (above : builder.Above id before)
    (inside : inner.1.Above (builder.append info).2 (builder.append info).1.tree) :
    ((builder.append info).1.endSection (builder.append info).2 condition body span inner).Above id before := by
  obtain ⟨added, later⟩ := above.append info
  obtain ⟨inner, result⟩ := inner
  have grows := added.grows.trans later inside.grows
  cases result with
  | ok => exact ⟨grows, added.base_eq, added.opened⟩
  | error failure =>
    refine ⟨?_, added.base_eq, added.opened⟩
    exact ((grows.truncate added.grows.inside).modify later _).append (Nat.le_of_lt later) _

theorem above_start (builder : Builder) (info : NodeInfo) :
    { tree := (builder.append info).1.tree, base := (builder.append info).2 : Builder }.Above
      (builder.append info).2 (builder.append info).1.tree := by
  refine ⟨.refl ?_, rfl, nofun⟩
  show builder.tree.size < (builder.tree.append builder.container _).1.size
  rw [Tree.size_append]
  exact Nat.lt_succ_self _

/-- What is read inside of a node goes into it and into nodes after it, also if reading fails. -/
theorem above_read (options : ParseOptions) (cursor : Cursor) (above : builder.Above id before) :
    (builder.read options cursor).1.Above id before := by
  fun_induction Builder.read options builder cursor generalizing id before with
  | case1 => exact above
  | case2 => exact above
  | case3 builder cursor nonempty tag next lexed after failure element =>
    have read := above.readElement tag next
    rw [element] at read
    exact read
  | case4 builder cursor nonempty tag next lexed after later element ih =>
    have read := above.readElement tag next
    rw [element] at read
    exact ih read
  | case5 builder cursor nonempty value span next lexed condition opening body found added comment appended =>
    rename_i inner read ihInside _ ih
    -- The section is read with nothing open, into the node that was just added, so only later ones change.
    obtain rfl : (builder.append (conditionalInfo span condition opening body true)).1 = added :=
      congrArg Prod.fst appended
    obtain rfl : (builder.append (conditionalInfo span condition opening body true)).2 = comment :=
      congrArg Prod.snd appended
    exact ih (above.endSection (ihInside (builder.above_start _)))
  | case6 builder cursor nonempty value span next lexed other ih => exact ih (above.append _).1
  | case7 => exact above
  | case8 builder cursor nonempty lexeme next noElement noComment lexed after followed ih =>
    exact ih (above.follow followed)

/-! ### Rolling back -/

/-- Adds a conditional comment with its section as a text, without an attempt to read the section. -/
def addUnread (builder : Builder) (span : Span) (condition : String) (before body : List Char) : Builder :=
  let (added, id) := builder.append (conditionalInfo span condition before body false)
  { added with
    tree := (added.tree.append id { kind := .text (String.ofList body), span := sectionSpan span before body }).1 }

theorem modify_append (placed : builder.container < builder.tree.size) (info : NodeInfo)
    (change : NodeInfo → NodeInfo) :
    (builder.append info).1.tree.modify builder.tree.size
        (fun node => { node with toNodeInfo := change node.toNodeInfo, children := [] }) =
      (builder.append (change info)).1.tree := by
  have nodes (info : NodeInfo) (other : NodeId) :
      (builder.append info).1.tree.nodes[other]? = _ :=
    Tree.getElem?_append builder.tree builder.container other { toNodeInfo := info }
  have apart : builder.container ≠ builder.tree.size := Nat.ne_of_lt placed
  refine Tree.eq_of_nodes_eq (Array.ext_getElem? fun other => ?_) rfl rfl
  rw [Tree.getElem?_modify, nodes, nodes]
  by_cases added : other = builder.tree.size
  · simp only [added, apart, if_true, if_false, Option.map_some]
  · simp only [added, Ne.symm added, if_false]

/-- Dropping what was read of a section leaves nothing of it. -/
theorem endSection_of_error {inner : Builder} {span : Span} {condition : String} {opening body : List Char}
    (placed : builder.container < builder.tree.size) (failure : Failure)
    (inside : inner.Above (builder.append (conditionalInfo span condition opening body true)).2
      (builder.append (conditionalInfo span condition opening body true)).1.tree) :
    (builder.append (conditionalInfo span condition opening body true)).1.endSection
        (builder.append (conditionalInfo span condition opening body true)).2 condition body
        (sectionSpan span opening body) (inner, .error failure) =
      builder.addUnread span condition opening body := by
  have size : (builder.append (conditionalInfo span condition opening body true)).1.tree.size =
      builder.tree.size + 1 := Tree.size_append ..
  have restored := (inside.grows.modify_truncate size
    (fun node => { node with kind := .conditional condition false, children := [] }) fun _ _ => rfl).trans
      (builder.modify_append placed _ fun info => { info with kind := .conditional condition false })
  unfold Builder.endSection keepSection
  dsimp only
  rw [size]
  let text : Node := { kind := .text (String.ofList body), span := sectionSpan span opening body }
  exact congrArg (fun tree : Tree => Builder.mk (tree.append builder.tree.size text).1 builder.base builder.opened)
    restored

end Builder

end MarkupFormat.Markup
