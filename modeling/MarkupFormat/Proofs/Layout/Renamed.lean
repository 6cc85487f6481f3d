import MarkupFormat.Proofs.Layout.Sharing

/-!
# Renamed group ids

The ids of groups serve only to tell groups apart. `render_eq_of_renamed` says that documents are rendered as one text
if their trees are the same up to a renaming of the ids that confuses none of them.
-/

namespace MarkupFormat.Layout

def GroupInfo.renamed (rename : GroupId → GroupId) (info : GroupInfo) : GroupInfo :=
  ⟨info.id.map rename, info.mustBreak⟩

namespace Doc

mutual

def renamed (rename : GroupId → GroupId) : Doc → Doc
  | text mark content => text mark content
  | concat mark parts => concat mark (renamedAll rename parts)
  | indent mark body => indent mark (body.renamed rename)
  | align mark kind body => align mark kind (body.renamed rename)
  | group mark info body => group mark (info.renamed rename) (body.renamed rename)
  | choice mark info body first others =>
    choice mark (info.renamed rename) (body.renamed rename) (first.renamed rename) (renamedAll rename others)
  | fill mark parts => fill mark (renamedAll rename parts)
  | line mark kind => line mark kind
  | breakParent mark => breakParent mark
  | ifBreak mark broken flat id => ifBreak mark (broken.renamed rename) (flat.renamed rename) (id.map rename)
  | indentIfBreak mark body id negate => indentIfBreak mark (body.renamed rename) (rename id) negate
  | trim mark => trim mark
  | label mark name body => label mark name (body.renamed rename)

def renamedAll (rename : GroupId → GroupId) : List Doc → List Doc
  | [] => []
  | doc :: docs => doc.renamed rename :: renamedAll rename docs

end

mutual

/-- The group ids that a document mentions. -/
def ids : Doc → List GroupId
  | text .. | line .. | breakParent _ | trim _ => []
  | concat _ parts | fill _ parts => idsAll parts
  | indent _ body | align _ _ body | label _ _ body => body.ids
  | group _ info body => body.ids ++ info.id.toList
  | choice _ info body first others => body.ids ++ (first.ids ++ (idsAll others ++ info.id.toList))
  | ifBreak _ broken flat id => broken.ids ++ (flat.ids ++ id.toList)
  | indentIfBreak _ body id _ => body.ids ++ [id]

def idsAll : List Doc → List GroupId
  | [] => []
  | doc :: docs => doc.ids ++ idsAll docs

end

variable {rename other : GroupId → GroupId}

@[simp]
theorem renamedAll_eq_map (docs : List Doc) : renamedAll rename docs = docs.map (renamed rename) := by
  induction docs with
  | nil => rfl
  | cons doc docs ih => rw [renamedAll, ih, List.map_cons]

theorem map_eq_of_mem_toList {id : Option GroupId} (same : ∀ found ∈ id.toList, rename found = other found) :
    id.map rename = id.map other := by
  cases id with
  | none => rfl
  | some id => exact congrArg some (same id List.mem_cons_self)

mutual

theorem renamed_congr : ∀ doc : Doc, (∀ id ∈ doc.ids, rename id = other id) → doc.renamed rename = doc.renamed other
  | text .., _ | line .., _ | breakParent _, _ | trim _, _ => rfl
  | concat mark parts, same => congrArg (concat mark) (renamedAll_congr parts same)
  | fill mark parts, same => congrArg (fill mark) (renamedAll_congr parts same)
  | indent mark body, same => congrArg (indent mark) (renamed_congr body same)
  | align mark kind body, same => congrArg (align mark kind) (renamed_congr body same)
  | label mark name body, same => congrArg (label mark name) (renamed_congr body same)
  | group mark info body, same => by
    obtain ⟨inside, own⟩ := List.forall_mem_append.mp same
    simp only [renamed, GroupInfo.renamed, renamed_congr body inside, map_eq_of_mem_toList own]
  | choice mark info body first others, same => by
    obtain ⟨inBody, same⟩ := List.forall_mem_append.mp same
    obtain ⟨inFirst, same⟩ := List.forall_mem_append.mp same
    obtain ⟨inOthers, own⟩ := List.forall_mem_append.mp same
    simp only [renamed, GroupInfo.renamed, renamed_congr body inBody, renamed_congr first inFirst,
      renamedAll_congr others inOthers, map_eq_of_mem_toList own]
  | ifBreak mark broken flat id, same => by
    obtain ⟨inBroken, same⟩ := List.forall_mem_append.mp same
    obtain ⟨inFlat, own⟩ := List.forall_mem_append.mp same
    simp only [renamed, renamed_congr broken inBroken, renamed_congr flat inFlat, map_eq_of_mem_toList own]
  | indentIfBreak mark body id negate, same => by
    obtain ⟨inside, own⟩ := List.forall_mem_append.mp same
    simp only [renamed, renamed_congr body inside, own id List.mem_cons_self]

theorem renamedAll_congr : ∀ docs : List Doc, (∀ id ∈ idsAll docs, rename id = other id) →
    renamedAll rename docs = renamedAll other docs
  | [], _ => rfl
  | doc :: docs, same => by
    obtain ⟨here, behind⟩ := List.forall_mem_append.mp same
    rw [renamedAll, renamedAll, renamed_congr doc here, renamedAll_congr docs behind]

end

mutual

theorem renamed_id : ∀ doc : Doc, doc.renamed id = doc
  | text .. | line .. | breakParent _ | trim _ => rfl
  | concat mark parts => congrArg (concat mark) (renamedAll_id parts)
  | fill mark parts => congrArg (fill mark) (renamedAll_id parts)
  | indent mark body => congrArg (indent mark) (renamed_id body)
  | align mark kind body => congrArg (align mark kind) (renamed_id body)
  | label mark name body => congrArg (label mark name) (renamed_id body)
  | group mark info body => by simp only [renamed, GroupInfo.renamed, renamed_id body, Option.map_id, id_eq]
  | choice mark info body first others => by
    simp only [renamed, GroupInfo.renamed, renamed_id body, renamed_id first, renamedAll_id others, Option.map_id,
      id_eq]
  | ifBreak mark broken flat id => by
    simp only [renamed, renamed_id broken, renamed_id flat, Option.map_id, id_eq]
  | indentIfBreak mark body id negate => by simp only [renamed, renamed_id body, id_eq]

theorem renamedAll_id : ∀ docs : List Doc, renamedAll id docs = docs
  | [] => rfl
  | doc :: docs => congrArg₂ List.cons (renamed_id doc) (renamedAll_id docs)

end

mutual

theorem ids_renamed : ∀ doc : Doc, (doc.renamed rename).ids = doc.ids.map rename
  | text .. | line .. | breakParent _ | trim _ => rfl
  | concat _ parts | fill _ parts => idsAll_renamed parts
  | indent _ body | align _ _ body | label _ _ body => ids_renamed body
  | group _ info body => by
    simp only [renamed, ids, GroupInfo.renamed, ids_renamed body, List.map_append, Option.toList_map]
  | choice _ info body first others => by
    simp only [renamed, ids, GroupInfo.renamed, ids_renamed body, ids_renamed first, idsAll_renamed others,
      List.map_append, Option.toList_map]
  | ifBreak _ broken flat id => by
    simp only [renamed, ids, ids_renamed broken, ids_renamed flat, List.map_append, Option.toList_map]
  | indentIfBreak _ body id _ => by
    simp only [renamed, ids, ids_renamed body, List.map_append, List.map_cons, List.map_nil]

theorem idsAll_renamed : ∀ docs : List Doc, idsAll (renamedAll rename docs) = (idsAll docs).map rename
  | [] => rfl
  | doc :: docs => by rw [renamedAll, idsAll, idsAll, List.map_append, ids_renamed doc, idsAll_renamed docs]

end

mutual

theorem ids_unfolded : ∀ doc : Doc, doc.unfolded.ids = doc.ids
  | text .. | line .. | breakParent _ | trim _ => rfl
  | concat _ parts | fill _ parts => idsAll_unfolded parts
  | indent _ body | align _ _ body | label _ _ body => ids_unfolded body
  | group _ info body => congrArg (· ++ info.id.toList) (ids_unfolded body)
  | choice _ info body first others => by
    simp only [unfolded, ids, ids_unfolded body, ids_unfolded first, idsAll_unfolded others]
  | ifBreak _ broken flat id => by simp only [unfolded, ids, ids_unfolded broken, ids_unfolded flat]
  | indentIfBreak _ body id _ => congrArg (· ++ [id]) (ids_unfolded body)

theorem idsAll_unfolded : ∀ docs : List Doc, idsAll (unfoldedAll docs) = idsAll docs
  | [] => rfl
  | doc :: docs => congrArg₂ (· ++ ·) (ids_unfolded doc) (idsAll_unfolded docs)

end

mutual

theorem forces_renamed : ∀ doc : Doc, (doc.renamed rename).forces = doc.forces
  | text .. | line .. | trim _ | breakParent _ | choice .. => rfl
  | concat _ parts | fill _ parts => forcesAny_renamed parts
  | indent _ body | align _ _ body | indentIfBreak _ body _ _ | label _ _ body => forces_renamed body
  | group _ info body => congrArg (info.mustBreak || ·) (forces_renamed body)
  | ifBreak _ broken flat _ => congrArg₂ (· || ·) (forces_renamed broken) (forces_renamed flat)

theorem forcesAny_renamed : ∀ docs : List Doc, forcesAny (renamedAll rename docs) = forcesAny docs
  | [] => rfl
  | doc :: docs => congrArg₂ (· || ·) (forces_renamed doc) (forcesAny_renamed docs)

end

mutual

theorem settled_renamed : ∀ doc : Doc, (doc.renamed rename).settled = doc.settled.renamed rename
  | text .. | line .. | trim _ | breakParent _ => rfl
  | concat _ parts => congrArg (concat 0) (settledAll_renamed parts)
  | fill _ parts => congrArg (fill 0) (settledAll_renamed parts)
  | indent _ body => congrArg (indent 0) (settled_renamed body)
  | align _ kind body => congrArg (align 0 kind) (settled_renamed body)
  | label _ name body => congrArg (label 0 name) (settled_renamed body)
  | indentIfBreak _ body id negate => congrArg (indentIfBreak 0 · (rename id) negate) (settled_renamed body)
  | ifBreak _ broken flat id =>
    congrArg₂ (ifBreak 0 · · (id.map rename)) (settled_renamed broken) (settled_renamed flat)
  | group _ info body => by
    simp only [renamed, settled, GroupInfo.renamed, forces_renamed body, settled_renamed body]
  | choice _ info body first others => by
    simp only [renamed, settled, settled_renamed body, settled_renamed first, settledAll_renamed others]

theorem settledAll_renamed : ∀ docs : List Doc,
    settledAll (renamedAll rename docs) = renamedAll rename (settledAll docs)
  | [] => rfl
  | doc :: docs => congrArg₂ List.cons (settled_renamed doc) (settledAll_renamed docs)

end

end Doc

/-! ### Rendering with other ids -/

variable {rename : GroupId → GroupId}

/-- Groups were laid out alike, with the ids that they have before and after a renaming. -/
def GroupModes.Agree (rename : GroupId → GroupId) (modes other : GroupModes) : Prop :=
  ∀ id, other.getD (rename id) .flat = modes.getD id .flat

namespace GroupModes

variable {modes other : GroupModes}

theorem Agree.read (agree : modes.Agree rename other) (id : Option GroupId) (mode : Mode) :
    other.read (id.map rename) mode = modes.read id mode := by
  cases id with
  | none => rfl
  | some id => exact agree id

theorem Agree.insert (injective : Function.Injective rename) (agree : modes.Agree rename other) (id : GroupId)
    (mode : Mode) : Agree rename (modes.insert id mode) (other.insert (rename id) mode) := by
  intro asked
  rw [Std.HashMap.getD_insert, Std.HashMap.getD_insert, agree asked]
  by_cases same : id = asked
  · simp [same]
  · simp [same, injective.ne same]

theorem Agree.recorded (injective : Function.Injective rename) (agree : modes.Agree rename other) (info : GroupInfo)
    (mode : Mode) :
    Agree rename
      (match info.id with
        | some id => modes.insert id mode
        | none => modes)
      (match (info.renamed rename).id with
        | some id => other.insert id mode
        | none => other) := by
  obtain ⟨id, mustBreak⟩ := info
  cases id with
  | none => exact agree
  | some id => exact agree.insert injective id mode

end GroupModes

theorem Lookahead.glance_renamed {look : Lookahead} {modes : GroupModes} (agree : look.modes.Agree rename modes)
    (line : Line) (command : Command) :
    Lookahead.glance { look with modes := modes } line (command.changed (Doc.renamed rename)) =
      (look.glance line command).changed (Doc.renamed rename) := by
  obtain ⟨indentation, mode, doc⟩ := command
  cases doc with
  | text | trim | breakParent | indent | align | indentIfBreak | label => rfl
  | concat _ parts | fill _ parts =>
    simp [glance, Command.changed, Doc.renamed, Glance.changed, Command.on]
  | line _ kind =>
    dsimp only [glance, Command.changed, Doc.renamed]
    split
    · rfl
    · split <;> rfl
  | ifBreak _ broken flat id =>
    dsimp only [glance, Command.changed, Doc.renamed]
    rw [agree.read]
    split <;> rfl
  | group mark info body =>
    dsimp only [glance, Command.changed, Doc.renamed]
    have same : look.breaks.isBroken mark (info.renamed rename) = look.breaks.isBroken mark info := rfl
    rw [same]
    split <;> rfl
  | choice mark info body first others =>
    dsimp only [glance, Command.changed, Doc.renamed]
    have same : look.breaks.isBroken mark (info.renamed rename) = look.breaks.isBroken mark info := rfl
    rw [same]
    split
    · rfl
    · split
      · simp [Glance.changed, Command.changed, Command.on, List.getLastD_eq_getLast?, List.getLast?_map]
      · rfl

namespace RenderContext

variable {context : RenderContext} {modes : GroupModes}

theorem fits_renamed {state : RenderState} (agree : state.modes.Agree rename modes) (mustBeFlat : Bool)
    (pending : List Command) :
    context.fits { state with modes := modes } mustBeFlat (pending.map (Command.changed (Doc.renamed rename))) =
      context.fits state mustBeFlat pending := by
  let look : Lookahead := ⟨context.config, context.breaks, state.modes, mustBeFlat⟩
  show Lookahead.fits { look with modes := modes } _ _ = look.fits _ _
  exact Lookahead.fits_map (fun _ => True) (fun line command _ => Lookahead.glance_renamed agree line command)
    (fun _ _ _ _ _ _ _ _ => trivial) _ pending fun _ _ => trivial

theorem writeLine_modes (context : RenderContext) (state : RenderState) (modes : GroupModes) (kind : LineKind)
    (indentation : Indentation) (mode : Mode) :
    context.writeLine { state with modes := modes } kind indentation mode =
      { context.writeLine state kind indentation mode with modes := modes } := by
  have breakLine (state : RenderState) : context.breakLine { state with modes := modes } kind indentation =
      { context.breakLine state kind indentation with modes := modes } := by
    unfold RenderContext.breakLine
    dsimp only
    split
    · split <;> rfl
    · rfl
  unfold writeLine
  split
  · rfl
  · rfl
  · exact breakLine { state with remeasure := true }
  · exact breakLine state

theorem openGroup_renamed (context : RenderContext) {state : RenderState} (injective : Function.Injective rename)
    (agree : state.modes.Agree rename modes) (rest : List Command) (command : Command) (mark : Mark) (info : GroupInfo)
    (body : Doc) (alternatives : List Doc) :
    ∃ later, context.openGroup { state with modes := modes } (rest.map (Command.changed (Doc.renamed rename)))
          (command.changed (Doc.renamed rename)) mark (info.renamed rename) (body.renamed rename)
          (alternatives.map (Doc.renamed rename)) =
        ({ (context.openGroup state rest command mark info body alternatives).1 with modes := later },
          (context.openGroup state rest command mark info body alternatives).2.changed (Doc.renamed rename)) ∧
      (context.openGroup state rest command mark info body alternatives).1.modes.Agree rename later := by
  have chosen : context.chooseMeasured { state with modes := modes } (rest.map (Command.changed (Doc.renamed rename)))
      (command.changed (Doc.renamed rename)) (context.breaks.isBroken mark info) (body.renamed rename)
      (alternatives.map (Doc.renamed rename)) =
        (context.chooseMeasured state rest command (context.breaks.isBroken mark info) body alternatives).changed
          (Doc.renamed rename) :=
    chooseMeasured_map command _ fun doc _ => fits_renamed agree false (command.on .flat doc :: rest)
  have known : context.breaks.isBroken mark (info.renamed rename) = context.breaks.isBroken mark info := rfl
  unfold openGroup
  dsimp only
  rw [known, chosen]
  by_cases measured : (decide (command.mode = .broken) || state.remeasure) = true
  · have same : (decide ((command.changed (Doc.renamed rename)).mode = .broken) || state.remeasure) = true := measured
    simp only [if_pos measured, if_pos same]
    exact ⟨_, rfl, agree.recorded injective info _⟩
  · have same : ¬(decide ((command.changed (Doc.renamed rename)).mode = .broken) || state.remeasure) = true := measured
    simp only [if_neg measured, if_neg same]
    exact ⟨_, rfl, agree.recorded injective info _⟩

theorem renderStep_renamed (context : RenderContext) {state : RenderState} (injective : Function.Injective rename)
    (agree : state.modes.Agree rename modes) (rest : List Command) (command : Command) :
    ∃ later, context.renderStep { state with modes := modes } (rest.map (Command.changed (Doc.renamed rename)))
          (command.changed (Doc.renamed rename)) =
        ({ (context.renderStep state rest command).1 with modes := later },
          (context.renderStep state rest command).2.map (Command.changed (Doc.renamed rename))) ∧
      (context.renderStep state rest command).1.modes.Agree rename later := by
  obtain ⟨indentation, mode, doc⟩ := command
  cases doc with
  | text | trim | breakParent | indent | align | label => exact ⟨modes, rfl, agree⟩
  | concat _ parts =>
    refine ⟨modes, ?_, agree⟩
    simp [renderStep, Command.changed, Doc.renamed, Command.on]
  | line mark kind =>
    refine ⟨modes, congrArg (·, []) (context.writeLine_modes state modes kind indentation mode), ?_⟩
    have kept := congrArg RenderState.modes (context.writeLine_modes state state.modes kind indentation mode)
    exact kept ▸ agree
  | fill mark parts =>
    refine ⟨modes, congrArg (Prod.mk _) ?_, agree⟩
    let here : Command := ⟨indentation, mode, .fill mark (parts.map (Doc.renamed rename))⟩
    have fits : ∀ docs ⊆ parts, context.fits { state with modes := modes } true
          ((docs.map (Doc.renamed rename)).map (here.on .flat)) =
        context.fits state true (docs.map (.on ⟨indentation, mode, .fill mark parts⟩ .flat)) := by
      intro docs _
      rw [← fits_renamed agree, List.map_map, List.map_map]
      rfl
    have renames (parts : List Doc) :
        (Doc.fill mark parts).renamed rename = .fill mark (parts.map (Doc.renamed rename)) :=
      congrArg (Doc.fill mark) (Doc.renamedAll_eq_map parts)
    show context.openFill _ (Command.changed (Doc.renamed rename) ⟨indentation, mode, .fill mark parts⟩) mark
      (Doc.renamedAll rename parts) = _
    rw [Doc.renamedAll_eq_map]
    exact openFill_map ⟨indentation, mode, .fill mark parts⟩ renames fits
  | group mark info body =>
    obtain ⟨later, opened, agrees⟩ := context.openGroup_renamed injective agree rest
      ⟨indentation, mode, .group mark info body⟩ mark info body []
    refine ⟨later, ?_, agrees⟩
    exact congrArg (fun opened : RenderState × Command => (opened.1, [opened.2])) opened
  | choice mark info body first others =>
    obtain ⟨later, opened, agrees⟩ := context.openGroup_renamed injective agree rest
      ⟨indentation, mode, .choice mark info body first others⟩ mark info body (first :: others)
    refine ⟨later, ?_, agrees⟩
    rw [List.map_cons, ← Doc.renamedAll_eq_map] at opened
    exact congrArg (fun opened : RenderState × Command => (opened.1, [opened.2])) opened
  | ifBreak _ broken flat id =>
    refine ⟨modes, ?_, agree⟩
    dsimp only [renderStep, Command.changed, Doc.renamed]
    rw [agree.read]
    split <;> rfl
  | indentIfBreak _ body id negate =>
    refine ⟨modes, ?_, agree⟩
    have same : modes.read (some (rename id)) mode = state.modes.read (some id) mode := agree.read (some id) mode
    dsimp only [renderStep, Command.changed, Doc.renamed]
    rw [same]
    split <;> rfl

/-- Rendering what is pending does not depend on its ids. -/
theorem run_renamed (injective : Function.Injective rename) (state : RenderState) (pending : List Command)
    (modes : GroupModes) (agree : state.modes.Agree rename modes) :
    (context.run { state with modes := modes } (pending.map (Command.changed (Doc.renamed rename)))).out =
      (context.run state pending).out := by
  fun_induction RenderContext.run context state pending generalizing modes with
  | case1 state => rw [List.map_nil, run]
  | case2 state command rest step ih =>
    obtain ⟨later, stepped, agrees⟩ := context.renderStep_renamed injective agree rest command
    rw [List.map_cons, run, stepped, ← List.map_append]
    exact ih later agrees

end RenderContext

/-- Two documents are rendered as one text if their trees are the same up to their group ids. -/
theorem Doc.render_eq_of_renamed {first second : Doc} (graph : first.IsGraph) (other : second.IsGraph)
    (injective : Function.Injective rename) (same : first.unfolded.renamed rename = second.unfolded) (config : Config) :
    first.render config = second.render config := by
  have settled : second.settled = first.settled.renamed rename := by
    rw [← settled_unfolded second, ← same, settled_renamed, settled_unfolded]
  have agree : GroupModes.Agree rename {} {} := fun id => by simp
  rw [graph.render_eq, other.render_eq, settled]
  exact congrArg Emitter.text
    (RenderContext.run_renamed injective {} [⟨.none, .broken, first.settled⟩] {} agree).symm

end MarkupFormat.Layout
