import MarkupFormat.Proofs.Layout.Phrased

/-!
# Dumps determine documents

A dump numbers group ids as it mentions them, so a part of it is settled only when the whole has been made: `Doc.Dumps`
says what a part is, given the numbers that the ids have in the end. With that, a dump is the text of a phrase, and
documents with one dump have one phrase. `Doc.exists_renaming_of_dump_eq` reads both of them off it.
-/

namespace MarkupFormat.Layout

open Text (quoted)

namespace Doc

/-! ### Dumping -/

def numberIn (known : List GroupId) (id : GroupId) : Nat :=
  known.idxOf id + 1

theorem numberIn_of_prefix {known later : List GroupId} {id : GroupId} (extends_ : known <+: later)
    (member : id ∈ known) : numberIn later id = numberIn known id := by
  obtain ⟨more, rfl⟩ := extends_
  rw [numberIn, List.idxOf_append_of_mem member]
  rfl

theorem numberIn_inj {known : List GroupId} {id other : GroupId} (member : id ∈ known)
    (same : numberIn known id = numberIn known other) : id = other :=
  (List.idxOf_inj member).mp (Nat.succ.inj same)

/-- A dump mentions some ids, and makes what follows from the numbers that the ids have in the end. -/
def Dumps {α : Type} (dump : Dump α) (ids : List GroupId) (value : (GroupId → Nat) → α) : Prop :=
  ∀ known, ∃ later, known <+: later ∧ ids ⊆ later ∧
    ∀ final, later <+: final → dump.run known = (value (numberIn final), later)

variable {α β : Type}

theorem dumps_pure (value : α) : Dumps (pure value) [] fun _ => value :=
  fun known => ⟨known, List.prefix_refl _, List.nil_subset _, fun _ _ => rfl⟩

theorem dumps_bind {dump : Dump α} {next : α → Dump β} {ids more : List GroupId} {value : (GroupId → Nat) → α}
    {after : α → (GroupId → Nat) → β} (first : Dumps dump ids value)
    (second : ∀ made, Dumps (next made) more (after made)) :
    Dumps (dump >>= next) (ids ++ more) fun number => after (value number) number := by
  intro known
  obtain ⟨middle, begins, mentioned, made⟩ := first known
  obtain ⟨later, extends_, mentionedToo, madeToo⟩ := second (dump.run known).1 middle
  refine ⟨later, begins.trans extends_, ?_, fun final ends => ?_⟩
  · exact List.append_subset.mpr ⟨List.Subset.trans mentioned extends_.subset, mentionedToo⟩
  · have here := made final (extends_.trans ends)
    have step : (dump >>= next).run known = (next (dump.run known).1).run (dump.run known).2 := rfl
    rw [step, show (dump.run known).2 = middle by rw [here], madeToo final ends, here]

theorem Dumps.of_eq {dump : Dump α} {ids fewer : List GroupId} {value other : (GroupId → Nat) → α}
    (dumps : Dumps dump ids value) (mentioned : fewer ⊆ ids) (same : ∀ number, value number = other number) :
    Dumps dump fewer other := by
  obtain rfl : value = other := funext same
  intro known
  obtain ⟨later, begins, all, made⟩ := dumps known
  exact ⟨later, begins, List.Subset.trans mentioned all, made⟩

theorem run_dumpId (id : GroupId) (known : List GroupId) :
    (dumpId id).run known = (id.name ++ "#" ++ toString (numberIn known id),
      if known.idxOf id = known.length then known ++ [id] else known) := by
  unfold dumpId
  by_cases new : known.idxOf id = known.length
  · simp [new, numberIn]
    rfl
  · simp [new, numberIn]
    rfl

theorem dumps_dumpId (id : GroupId) :
    Dumps (dumpId id) [id] fun number => id.name ++ "#" ++ toString (number id) := by
  intro known
  by_cases member : id ∈ known
  · have old : known.idxOf id ≠ known.length := Nat.ne_of_lt (List.idxOf_lt_length_iff.mpr member)
    refine ⟨known, List.prefix_refl _, fun other isId => List.mem_singleton.mp isId ▸ member, fun final extends_ => ?_⟩
    dsimp only
    rw [run_dumpId, if_neg old, numberIn_of_prefix extends_ member]
  · have new : known.idxOf id = known.length := List.idxOf_eq_length_iff.mpr member
    have inside : id ∈ known ++ [id] := List.mem_append_right known List.mem_cons_self
    refine ⟨known ++ [id], List.prefix_append _ _, fun other isId => List.mem_singleton.mp isId ▸ inside,
      fun final extends_ => ?_⟩
    have same : numberIn (known ++ [id]) id = numberIn known id := by
      rw [numberIn, List.idxOf_append_of_notMem member, List.idxOf_cons_self, numberIn, new]
    dsimp only
    rw [run_dumpId, if_pos new, numberIn_of_prefix extends_ inside, same]

theorem dumps_map {dump : Dump α} {ids : List GroupId} {value : (GroupId → Nat) → α} (dumps : Dumps dump ids value)
    (make : α → β) : Dumps (dump >>= fun made => pure (make made)) ids fun number => make (value number) :=
  (dumps_bind dumps fun made => dumps_pure (make made)).of_eq (List.subset_append_left ids []) fun _ => rfl

def shown (phrase : Phrase) : String :=
  String.ofList phrase.spelled

theorem shown_eq {s : String} {phrase : Phrase} (same : s.toList = phrase.spelled) : s = shown phrase := by
  rw [← String.toList_inj, same, shown, String.toList_ofList]

theorem toList_intercalate_shown (phrases : List Phrase) :
    (", ".intercalate (phrases.map shown)).toList = Phrase.spelledAll phrases := by
  have more (phrase : Phrase) (phrases : List Phrase) :
      (", ".intercalate ((phrase :: phrases).map shown)).toList = phrase.spelled ++ Phrase.spelledMore phrases := by
    induction phrases generalizing phrase with
    | nil => simp [shown, Phrase.spelledMore]
    | cons next phrases ih =>
      have later := ih next
      rw [String.toList_intercalate] at later ⊢
      simp only [List.map_cons] at later ⊢
      rw [List.intercalate_cons_cons, later]
      simp [shown, Phrase.spelledMore]
  cases phrases with
  | nil => rfl
  | cons phrase phrases => exact more phrase phrases

theorem toList_dumpOptions (fields : List Phrase) :
    (dumpOptions (fields.map shown)).toList = Phrase.spelledMore (optionPhrases fields) := by
  cases fields with
  | nil => rfl
  | cons field fields =>
    have items := toList_intercalate_shown (field :: fields)
    rw [List.map_cons] at items ⊢
    simp [dumpOptions, items, optionPhrases, Phrase.spelledMore, Phrase.spelled]

theorem dumps_dumpInfo (info : GroupInfo) :
    Dumps (dumpInfo info) info.id.toList fun number =>
      String.ofList (Phrase.spelledMore (infoPhrases number info)) := by
  obtain ⟨id, mustBreak⟩ := info
  let asked : List Phrase := if mustBreak then [.field "shouldBreak" (.word "true")] else []
  have spelled : (if mustBreak then ["shouldBreak: true"] else []) = asked.map shown := by
    cases mustBreak with
    | true => exact congrArg (· :: []) (shown_eq (by simp [Phrase.spelled]))
    | false => rfl
  cases id with
  | none =>
    refine (dumps_pure _).of_eq (List.Subset.refl _) fun number => ?_
    rw [spelled, ← String.toList_inj, String.toList_ofList, toList_dumpOptions]
    simp [infoPhrases, asked]
  | some id =>
    refine (dumps_map (dumps_dumpId id) fun text =>
      dumpOptions ((if mustBreak then ["shouldBreak: true"] else []) ++ ["id: " ++ text])).of_eq (List.Subset.refl _)
        fun number => ?_
    have refers : "id: " ++ (id.name ++ "#" ++ toString (number id)) = shown (referTo number "id" id) :=
      shown_eq (by simp [referTo, Phrase.spelled])
    rw [spelled, refers, ← List.map_singleton, ← List.map_append, ← String.toList_inj, String.toList_ofList,
      toList_dumpOptions]
    rfl

theorem shown_refer (number : GroupId → Nat) (id : GroupId) :
    "groupId: " ++ (id.name ++ "#" ++ toString (number id)) = shown (referTo number "groupId" id) :=
  shown_eq (by simp [referTo, Phrase.spelled])

theorem dumps_refer (id : Option GroupId) :
    Dumps (id.mapM fun id => return "groupId: " ++ (← dumpId id)) id.toList fun number =>
      id.map (shown ∘ referTo number "groupId") := by
  cases id with
  | none => exact dumps_pure none
  | some id =>
    refine (dumps_map (dumps_dumpId id) fun text => some ("groupId: " ++ text)).of_eq (List.Subset.refl _)
      fun number => ?_
    rw [shown_refer]
    rfl

mutual

/-- A document is dumped as the phrase that shows it. -/
theorem dumps_dumpDoc : ∀ doc : Doc, doc.BodiesFirst →
    Dumps (dumpDoc doc) doc.ids fun number => shown (doc.phrase number)
  | text _ content, _ => (dumps_pure (quoted content)).of_eq (List.Subset.refl _) fun number =>
    shown_eq (by simp [phrase, Phrase.spelled])
  | concat mark parts, first => by
    rw [dumpDoc]
    by_cases forced : isForcedLine parts = true
    · rw [if_pos forced]
      obtain ⟨lineMark, kind, breakMark, rfl, hard⟩ := exists_of_isForcedLine forced
      refine (dumps_pure _).of_eq (List.Subset.refl _) fun number => shown_eq ?_
      simp [phrase, forced, Phrase.spelled]
    · rw [if_neg forced]
      refine (dumps_map (dumps_dumpDocs parts fun doc member => bodiesFirst_child first member) _).of_eq
        (List.Subset.refl _) fun number => shown_eq ?_
      have items := toList_intercalate_shown (phrases number parts)
      simp only [String.toList_append, items, phrase, if_neg forced, Phrase.spelled]
      rfl
  | indent mark body, first =>
    (dumps_map (dumps_dumpDoc body (bodiesFirst_child first List.mem_cons_self)) _).of_eq (List.Subset.refl _)
      fun number => shown_eq (by simp [phrase, Phrase.spelled, Phrase.spelledAll, Phrase.spelledMore, shown])
  | align mark kind body, first => by
    refine (dumps_map (dumps_dumpDoc body (bodiesFirst_child first List.mem_cons_self)) (dumpAlign kind)).of_eq
      (List.Subset.refl _) fun number => shown_eq ?_
    cases kind <;>
      simp [phrase, alignPhrase, dumpAlign, Phrase.spelled, Phrase.spelledAll, Phrase.spelledMore, shown]
  | group mark info body, first => by
    refine (dumps_bind (dumps_dumpDoc body (bodiesFirst_child first List.mem_cons_self)) fun text =>
      dumps_map (dumps_dumpInfo info) fun options => "group(" ++ text ++ options ++ ")").of_eq (List.Subset.refl _)
        fun number => shown_eq ?_
    simp [phrase, Phrase.spelled, Phrase.spelledAll, shown]
  | choice mark info body first others, bodies => by
    -- The body is not dumped, but it mentions no other ids than the first alternative.
    obtain rfl := bodies mark info body first others (.here _)
    have mentioned : (choice mark info body body others).ids ⊆ body.ids ++ (idsAll others ++ info.id.toList) :=
      List.append_subset.mpr ⟨List.subset_append_left _ _, List.Subset.refl _⟩
    refine (dumps_bind (dumps_dumpDoc body (bodiesFirst_child bodies List.mem_cons_self)) fun text =>
      dumps_bind (dumps_dumpDocs others fun doc member => bodiesFirst_child bodies (List.mem_cons_of_mem _ member))
        fun texts => dumps_map (dumps_dumpInfo info) fun options =>
          "conditionalGroup([" ++ ", ".intercalate (text :: texts) ++ "]" ++ options ++ ")").of_eq mentioned
            fun number => shown_eq ?_
    have items := toList_intercalate_shown (body.phrase number :: phrases number others)
    rw [List.map_cons] at items
    simp only [String.toList_append, items, phrase, Phrase.spelled, Phrase.spelledAll, String.toList_ofList]
    simp
  | fill mark parts, first => by
    refine (dumps_map (dumps_dumpDocs parts fun doc member => bodiesFirst_child first member) _).of_eq
      (List.Subset.refl _) fun number => shown_eq ?_
    have items := toList_intercalate_shown (phrases number parts)
    simp only [String.toList_append, items, phrase, Phrase.spelled, Phrase.spelledAll, Phrase.spelledMore]
    simp
  | line _ kind, _ => by
    refine (dumps_pure (dumpLine kind)).of_eq (List.Subset.refl _) fun number => shown_eq ?_
    simp [phrase, Phrase.spelled]
  | breakParent _, _ => (dumps_pure "breakParent").of_eq (List.Subset.refl _) fun number => shown_eq rfl
  | ifBreak mark broken flat id, first => by
    have second : flat ∈ (ifBreak mark broken flat id).children true := List.mem_cons_of_mem _ List.mem_cons_self
    refine (dumps_bind (dumps_dumpDoc broken (bodiesFirst_child first List.mem_cons_self)) fun inBroken =>
      dumps_bind (dumps_dumpDoc flat (bodiesFirst_child first second)) fun inFlat =>
        dumps_map (dumps_refer id) fun options =>
          "ifBreak(" ++ inBroken ++ ", " ++ inFlat ++ dumpOptions options.toList ++ ")").of_eq (List.Subset.refl _)
            fun number => shown_eq ?_
    have options := toList_dumpOptions (id.toList.map (referTo number "groupId"))
    rw [List.map_map, ← Option.toList_map] at options
    rw [String.toList_append, String.toList_append, options]
    simp [phrase, Phrase.spelled, Phrase.spelledAll, Phrase.spelledMore, shown]
  | indentIfBreak mark body id negate, first => by
    refine (dumps_bind (dumps_dumpDoc body (bodiesFirst_child first List.mem_cons_self)) fun text =>
      dumps_map (dumps_dumpId id) fun name =>
        "indentIfBreak(" ++ text ++ dumpOptions
          (if negate then ["groupId: " ++ name, "negate: true"] else ["groupId: " ++ name]) ++ ")").of_eq
            (List.Subset.refl _) fun number => shown_eq ?_
    have fields : (if negate then
          ["groupId: " ++ (id.name ++ "#" ++ toString (number id)), "negate: true"]
        else ["groupId: " ++ (id.name ++ "#" ++ toString (number id))]) =
        (referTo number "groupId" id :: if negate then [.field "negate" (.word "true")] else []).map shown := by
      rw [shown_refer]
      cases negate with
      | true => exact congrArg (_ :: · :: []) (shown_eq (by simp [Phrase.spelled]))
      | false => rfl
    have options := toList_dumpOptions
      (referTo number "groupId" id :: if negate then [.field "negate" (.word "true")] else [])
    rw [fields, String.toList_append, String.toList_append, options]
    simp [phrase, Phrase.spelled, Phrase.spelledAll, shown, optionPhrases]
  | trim _, _ => (dumps_pure "trim").of_eq (List.Subset.refl _) fun number => shown_eq rfl
  | label mark name body, first =>
    (dumps_map (dumps_dumpDoc body (bodiesFirst_child first List.mem_cons_self)) _).of_eq (List.Subset.refl _)
      fun number => shown_eq (by simp [phrase, Phrase.spelled, Phrase.spelledAll, Phrase.spelledMore, shown])

theorem dumps_dumpDocs : ∀ docs : List Doc, (∀ doc ∈ docs, doc.BodiesFirst) →
    Dumps (dumpDocs docs) (idsAll docs) fun number => (phrases number docs).map shown
  | [], _ => dumps_pure []
  | doc :: docs, first => by
    obtain ⟨here, behind⟩ := List.forall_mem_cons.mp first
    exact dumps_bind (dumps_dumpDoc doc here) fun text => dumps_map (dumps_dumpDocs docs behind) (text :: ·)

end

/-! ### Documents with one dump -/

variable {first second : Doc}

/-- A renaming that tells some ids apart can be chosen so that it tells all apart. -/
theorem exists_injective_renaming (ids : List GroupId) (rename : GroupId → GroupId)
    (names : ∀ id ∈ ids, (rename id).name = id.name)
    (apart : ∀ id ∈ ids, ∀ other ∈ ids, rename id = rename other → id = other) :
    ∃ extended : GroupId → GroupId, Function.Injective extended ∧ (∀ id, (extended id).name = id.name) ∧
      ∀ id ∈ ids, extended id = rename id := by
  -- The other ids move beyond all that these are renamed to.
  let beyond := (ids.map fun id => (rename id).index).max?.getD 0 + 1
  have below : ∀ id ∈ ids, (rename id).index < beyond := fun id member =>
    Nat.lt_succ_of_le (List.le_max?_getD_of_mem (List.mem_map_of_mem member))
  let extended (id : GroupId) : GroupId := if id ∈ ids then rename id else ⟨id.index + beyond, id.name⟩
  have inside {id : GroupId} (member : id ∈ ids) : extended id = rename id := if_pos member
  have outside {id : GroupId} (new : id ∉ ids) : extended id = ⟨id.index + beyond, id.name⟩ := if_neg new
  have clash {id other : GroupId} (member : id ∈ ids) (new : other ∉ ids) : extended id ≠ extended other := by
    intro same
    rw [inside member, outside new] at same
    have lower := below id member
    rw [same] at lower
    exact Nat.not_lt.mpr (Nat.le_add_left beyond other.index) lower
  refine ⟨extended, fun id other same => ?_, fun id => ?_, fun id => inside⟩
  · by_cases member : id ∈ ids
    · by_cases otherMember : other ∈ ids
      · exact apart id member other otherMember (by rwa [inside member, inside otherMember] at same)
      · exact absurd same (clash member otherMember)
    · by_cases otherMember : other ∈ ids
      · exact absurd same.symm (clash otherMember member)
      · rw [outside member, outside otherMember] at same
        obtain ⟨index, name⟩ := id
        simp only [GroupId.mk.injEq, Nat.add_right_cancel_iff] at same
        obtain ⟨rfl, rfl⟩ := same
        rfl
  · by_cases member : id ∈ ids
    · rw [inside member, names id member]
    · rw [outside member]

theorem renamed_eq_of_phrase_eq (bodies : first.BodiesFirst) (others : second.BodiesFirst)
    {number other : GroupId → Nat} (same : first.phrase number = second.phrase other) (read : String → Nat → GroupId) :
    first.unfolded.renamed (fun id => read id.name (number id)) =
      second.unfolded.renamed fun id => read id.name (other id) := by
  rw [← doc_phrase read number first bodies, same, doc_phrase read other second others]

theorem exists_id_of_phrase_eq (bodies : first.BodiesFirst) (others : second.BodiesFirst)
    {number other : GroupId → Nat} (same : first.phrase number = second.phrase other) {id : GroupId}
    (member : id ∈ first.ids) : ∃ found ∈ second.ids, found.name = id.name ∧ other found = number id := by
  let numbered (number : GroupId → Nat) (id : GroupId) : GroupId := ⟨number id, id.name⟩
  have trees : first.unfolded.renamed (numbered number) = second.unfolded.renamed (numbered other) :=
    renamed_eq_of_phrase_eq bodies others same fun name number => ⟨number, name⟩
  have ids : first.ids.map (numbered number) = second.ids.map (numbered other) := by
    rw [← ids_unfolded first, ← ids_unfolded second, ← ids_renamed, ← ids_renamed, trees]
  have listed : numbered number id ∈ second.ids.map (numbered other) := ids ▸ List.mem_map_of_mem member
  obtain ⟨found, isFound, same⟩ := List.mem_map.mp listed
  obtain ⟨numbers, names⟩ := GroupId.mk.inj same
  exact ⟨found, isFound, names, numbers⟩

/-- Documents with one phrase, whose ids are numbered as they were mentioned, are the same up to their ids. -/
theorem exists_renaming_of_phrase_eq (bodies : first.BodiesFirst) (others : second.BodiesFirst)
    {known later : List GroupId} (mentioned : first.ids ⊆ known) (mentionedToo : second.ids ⊆ later)
    (same : first.phrase (numberIn known) = second.phrase (numberIn later)) :
    ∃ rename : GroupId → GroupId, Function.Injective rename ∧ (∀ id, (rename id).name = id.name) ∧
      first.unfolded.renamed rename = second.unfolded := by
  let read (name : String) (number : Nat) : GroupId := later[number - 1]?.getD ⟨0, name⟩
  have back : ∀ found ∈ second.ids, read found.name (numberIn later found) = found := by
    intro found member
    simp [read, numberIn, List.getElem?_idxOf (mentionedToo member)]
  have turns : ∀ id ∈ first.ids, ∃ found ∈ second.ids,
      read id.name (numberIn known id) = found ∧ found.name = id.name ∧ numberIn later found = numberIn known id := by
    intro id member
    obtain ⟨found, isFound, name, number⟩ := exists_id_of_phrase_eq bodies others same member
    exact ⟨found, isFound, by rw [← name, ← number, back found isFound], name, number⟩
  obtain ⟨rename, injective, names, extends_⟩ := exists_injective_renaming first.ids
    (fun id => read id.name (numberIn known id))
    (fun id member => by
      obtain ⟨found, -, isFound, name, -⟩ := turns id member
      rw [isFound, name])
    (fun id member other otherMember same => by
      obtain ⟨found, -, isFound, -, number⟩ := turns id member
      obtain ⟨otherFound, -, isOther, -, otherNumber⟩ := turns other otherMember
      have one : found = otherFound := isFound.symm.trans (same.trans isOther)
      exact numberIn_inj (mentioned member) (number.symm.trans (one ▸ otherNumber)))
  refine ⟨rename, injective, names, ?_⟩
  calc first.unfolded.renamed rename
    _ = first.unfolded.renamed fun id => read id.name (numberIn known id) :=
      renamed_congr _ fun id member => extends_ id (ids_unfolded first ▸ member)
    _ = second.unfolded.renamed fun id => read id.name (numberIn later id) :=
      renamed_eq_of_phrase_eq bodies others same read
    _ = second.unfolded.renamed id := renamed_congr _ fun found member => back found (ids_unfolded second ▸ member)
    _ = second.unfolded := renamed_id _

/-- The dump of a document is its phrase when the ids are numbered as they were mentioned. -/
theorem exists_dump_eq {doc : Doc} (bodies : doc.BodiesFirst) :
    ∃ known, doc.ids ⊆ known ∧ doc.dump = shown (doc.phrase (numberIn known)) := by
  obtain ⟨known, -, mentioned, made⟩ := dumps_dumpDoc doc bodies []
  exact ⟨known, mentioned, congrArg Prod.fst (made known (List.prefix_refl known))⟩

/-- Two documents with one dump are the same up to an injective renaming of their group ids that keeps the names of
these, and so they are rendered as one text, as long as no name has a character that stands between words. -/
theorem exists_renaming_of_dump_eq (graph : first.IsGraph) (other : second.IsGraph)
    (names : ∀ id ∈ first.ids ++ second.ids, Phrase.Plain id.name) (same : first.dump = second.dump) :
    ∃ rename : GroupId → GroupId, Function.Injective rename ∧ (∀ id, (rename id).name = id.name) ∧
      first.unfolded.renamed rename = second.unfolded ∧ ∀ config, first.render config = second.render config := by
  obtain ⟨plain, otherPlain⟩ := List.forall_mem_append.mp names
  obtain ⟨known, mentioned, dumped⟩ := exists_dump_eq graph.bodies
  obtain ⟨later, mentionedToo, dumpedToo⟩ := exists_dump_eq other.bodies
  have spelled : (first.phrase (numberIn known)).spelled = (second.phrase (numberIn later)).spelled :=
    String.ofList_inj.mp (dumped.symm.trans (same.trans dumpedToo))
  have phrases : first.phrase (numberIn known) = second.phrase (numberIn later) :=
    (Phrase.spelled_append_inj _ _ [] [] (sound_phrase _ first plain) (sound_phrase _ second otherPlain) nofun nofun
      (congrArg (· ++ []) spelled)).1
  obtain ⟨rename, injective, kept, trees⟩ :=
    exists_renaming_of_phrase_eq graph.bodies other.bodies mentioned mentionedToo phrases
  exact ⟨rename, injective, kept, trees, render_eq_of_renamed graph other injective trees⟩

/-- Two nodes that depend on groups, one of them on a group that comes after it. -/
def dependents (tag content : GroupId) : Doc :=
  .concat 0 [.ifBreak 1 (.text 2 "a") (.text 3 "b") (some content), .group 4 ⟨some tag, true⟩ (.line 5 .soft),
    .choice 6 ⟨some content, false⟩ (.text 7 "c") (.text 7 "c") [.indentIfBreak 8 (.text 9 "d") tag true]]

def dependentNodes (tag content : GroupId) : List Doc :=
  [dependents tag content, .ifBreak 1 (.text 2 "a") (.text 3 "b") (some content), .text 2 "a", .text 3 "b",
    .group 4 ⟨some tag, true⟩ (.line 5 .soft), .line 5 .soft,
    .choice 6 ⟨some content, false⟩ (.text 7 "c") (.text 7 "c") [.indentIfBreak 8 (.text 9 "d") tag true], .text 7 "c",
    .indentIfBreak 8 (.text 9 "d") tag true, .text 9 "d"]

theorem isGraph_dependents (tag content : GroupId) : (dependents tag content).IsGraph := by
  have closed : ∀ node ∈ dependentNodes tag content, ∀ child ∈ node.children true,
      child ∈ dependentNodes tag content := by
    simp [dependentNodes, dependents, children]
  refine ⟨marksTellApart_of_closed List.mem_cons_self closed ?_, fun mark info body first others contains => ?_⟩
  · show [0, 1, 2, 3, 4, 5, 6, 7, 8, 9].Nodup
    decide
  · have member := mem_of_contains List.mem_cons_self closed contains
    simp [dependents] at member
    rw [member.2.2.1, member.2.2.2.1]

theorem dump_dependents :
    (dependents ⟨1, "attr-group"⟩ ⟨2, "children"⟩).dump = (dependents ⟨2, "attr-group"⟩ ⟨7, "children"⟩).dump := by
  decide +kernel

theorem exists_renaming_dependents :
    ∃ rename : GroupId → GroupId, Function.Injective rename ∧ (∀ id, (rename id).name = id.name) ∧
      (dependents ⟨1, "attr-group"⟩ ⟨2, "children"⟩).unfolded.renamed rename =
        (dependents ⟨2, "attr-group"⟩ ⟨7, "children"⟩).unfolded ∧
      ∀ config, (dependents ⟨1, "attr-group"⟩ ⟨2, "children"⟩).render config =
        (dependents ⟨2, "attr-group"⟩ ⟨7, "children"⟩).render config :=
  exists_renaming_of_dump_eq (isGraph_dependents _ _) (isGraph_dependents _ _)
    (by simp [dependents, ids, idsAll, Phrase.Plain, Phrase.isMark]) dump_dependents

end Doc

end MarkupFormat.Layout
