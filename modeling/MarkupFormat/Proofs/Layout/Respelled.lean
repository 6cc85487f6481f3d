import MarkupFormat.Proofs.Layout.ForcedBreaks
import MarkupFormat.Proofs.Layout.LineFit

/-!
# Dependent indentation spelled out

A node that indents its body if a group broke says the same as a choice between the indented body and the body itself.
`Respelled` puts one for the other anywhere in a document. The walk for forced breaks finds the same groups then
(`agrees_breaks`), looking ahead has the same answer (`fits_respelled`), and the renderer comes through the same states
(`run_respelled`), with one more step where a body is indented. So the text is the same (`render_eq_of_respelled`).
-/

namespace MarkupFormat.Layout

/-! ### Related lists -/

section Related

variable {α β : Type} {R : α → β → Prop} {xs : List α} {ys : List β}

theorem rel_head? (related : List.Forall₂ R xs ys) : Option.Rel R xs.head? ys.head? := by
  cases related with
  | nil => exact .none
  | cons here _ => exact .some here

theorem rel_getLast? (related : List.Forall₂ R xs ys) : Option.Rel R xs.getLast? ys.getLast? := by
  rw [← List.head?_reverse, ← List.head?_reverse]
  exact rel_head? (List.rel_reverse related)

theorem rel_find? {p : α → Bool} {q : β → Bool} (related : List.Forall₂ R xs ys)
    (same : ∀ x y, R x y → p x = q y) : Option.Rel R (xs.find? p) (ys.find? q) := by
  rw [← List.head?_filter, ← List.head?_filter]
  exact rel_head? (List.rel_filter (fun x y here => Bool.eq_iff_iff.mp (same x y here)) related)

end Related

/-! ### Documents -/

namespace Doc

/-- The second document is the first one, in which some nodes that indent their bodies depending on a group are spelled
out. The other nodes are the same nodes. -/
inductive Respelled : Doc → Doc → Prop where
  | text (mark : Mark) (content : String) : Respelled (.text mark content) (.text mark content)
  | line (mark : Mark) (kind : LineKind) : Respelled (.line mark kind) (.line mark kind)
  | breakParent (mark : Mark) : Respelled (.breakParent mark) (.breakParent mark)
  | trim (mark : Mark) : Respelled (.trim mark) (.trim mark)
  | concat {mark : Mark} {parts made : List Doc} : List.Forall₂ Respelled parts made →
      Respelled (.concat mark parts) (.concat mark made)
  | fill {mark : Mark} {parts made : List Doc} : List.Forall₂ Respelled parts made →
      Respelled (.fill mark parts) (.fill mark made)
  | indent {mark : Mark} {body made : Doc} : Respelled body made → Respelled (.indent mark body) (.indent mark made)
  | align {mark : Mark} {kind : AlignKind} {body made : Doc} : Respelled body made →
      Respelled (.align mark kind body) (.align mark kind made)
  | group {mark : Mark} {info : GroupInfo} {body made : Doc} : Respelled body made →
      Respelled (.group mark info body) (.group mark info made)
  | choice {mark : Mark} {info : GroupInfo} {body made first madeFirst : Doc} {others madeOthers : List Doc} :
      Respelled body made → List.Forall₂ Respelled (first :: others) (madeFirst :: madeOthers) →
      Respelled (.choice mark info body first others) (.choice mark info made madeFirst madeOthers)
  | ifBreak {mark : Mark} {broken madeBroken flat madeFlat : Doc} {id : Option GroupId} :
      Respelled broken madeBroken → Respelled flat madeFlat →
      Respelled (.ifBreak mark broken flat id) (.ifBreak mark madeBroken madeFlat id)
  | indentIfBreak {mark : Mark} {body made : Doc} {id : GroupId} {negate : Bool} : Respelled body made →
      Respelled (.indentIfBreak mark body id negate) (.indentIfBreak mark made id negate)
  | label {mark : Mark} {name : String} {body made : Doc} : Respelled body made →
      Respelled (.label mark name body) (.label mark name made)
  | indentIfBroken {mark anew inner : Mark} {body made : Doc} {id : GroupId} : Respelled body made →
      Respelled (.indentIfBreak mark body id false) (.ifBreak anew (.indent inner made) made (some id))
  | indentIfFlat {mark anew inner : Mark} {body made : Doc} {id : GroupId} : Respelled body made →
      Respelled (.indentIfBreak mark body id true) (.ifBreak anew made (.indent inner made) (some id))

/-- The second document is the first one spelled out, or this indented. -/
def Stands (doc other : Doc) : Prop :=
  doc.Respelled other ∨ ∃ mark made, other = .indent mark made ∧ doc.Respelled made

variable {doc other node child made : Doc} {through : Doc → Prop}

theorem isChoice_respelled (respelled : doc.Respelled other) : other.isChoice = doc.isChoice := by
  cases respelled <;> rfl

theorem asksForBreak_respelled (respelled : doc.Respelled other) : other.asksForBreak = doc.asksForBreak := by
  cases respelled <;> rfl

theorem exists_group_of_respelled {mark : Mark} {info : GroupInfo} {body : Doc}
    (respelled : (group mark info body).Respelled other) :
    ∃ made, other = group mark info made ∧ body.Respelled made := by
  cases respelled with
  | group respelled => exact ⟨_, rfl, respelled⟩

theorem exists_group_of_stands {mark : Mark} {info : GroupInfo} {made : Doc}
    (stands : doc.Stands (group mark info made)) : ∃ body, doc = group mark info body ∧ body.Respelled made := by
  rcases stands with respelled | ⟨_, _, same, _⟩
  · cases respelled with
    | group respelled => exact ⟨_, rfl, respelled⟩
  · cases same

theorem exists_respelled_child (respelled : doc.Respelled other) (below : child ∈ doc.children true) :
    ∃ made ∈ other.children true, child.Respelled made := by
  cases respelled with
  | text | line | breakParent | trim => cases below
  | concat respelled | fill respelled | choice _ respelled => exact exists_of_forall₂ respelled below
  | indent respelled | align respelled | group respelled | indentIfBreak respelled | label respelled =>
    exact ⟨_, List.mem_cons_self, List.mem_singleton.mp below ▸ respelled⟩
  | ifBreak respelledBroken respelledFlat =>
    rcases List.mem_cons.mp below with rfl | below
    · exact ⟨_, List.mem_cons_self, respelledBroken⟩
    · exact ⟨_, List.mem_cons_of_mem _ List.mem_cons_self, List.mem_singleton.mp below ▸ respelledFlat⟩
  | indentIfBroken respelled =>
    exact ⟨_, List.mem_cons_of_mem _ List.mem_cons_self, List.mem_singleton.mp below ▸ respelled⟩
  | indentIfFlat respelled => exact ⟨_, List.mem_cons_self, List.mem_singleton.mp below ▸ respelled⟩

theorem exists_stands_child (respelled : doc.Respelled other) (below : made ∈ other.children true) :
    ∃ child ∈ doc.children true, child.Stands made := by
  cases respelled with
  | text | line | breakParent | trim => cases below
  | concat respelled | fill respelled | choice _ respelled =>
    obtain ⟨child, member, respelledChild⟩ :=
      exists_of_forall₂ (List.Forall₂.flip (R := flip Respelled) respelled) below
    exact ⟨child, member, .inl respelledChild⟩
  | indent respelled | align respelled | group respelled | indentIfBreak respelled | label respelled =>
    exact ⟨_, List.mem_cons_self, .inl (List.mem_singleton.mp below ▸ respelled)⟩
  | ifBreak respelledBroken respelledFlat =>
    rcases List.mem_cons.mp below with rfl | below
    · exact ⟨_, List.mem_cons_self, .inl respelledBroken⟩
    · exact ⟨_, List.mem_cons_of_mem _ List.mem_cons_self, .inl (List.mem_singleton.mp below ▸ respelledFlat)⟩
  | indentIfBroken respelled =>
    rcases List.mem_cons.mp below with rfl | below
    · exact ⟨_, List.mem_cons_self, .inr ⟨_, _, rfl, respelled⟩⟩
    · exact ⟨_, List.mem_cons_self, .inl (List.mem_singleton.mp below ▸ respelled)⟩
  | indentIfFlat respelled =>
    rcases List.mem_cons.mp below with rfl | below
    · exact ⟨_, List.mem_cons_self, .inl respelled⟩
    · exact ⟨_, List.mem_cons_self, .inr ⟨_, _, List.mem_singleton.mp below, respelled⟩⟩

theorem exists_respelled_path (same : ∀ doc other : Doc, doc.Respelled other → through doc → through other)
    (respelled : doc.Respelled other) (path : doc.Path through node) :
    ∃ made, other.Path through made ∧ node.Respelled made := by
  induction path generalizing other with
  | here => exact ⟨other, .here other, respelled⟩
  | down allowed below _ ih =>
    obtain ⟨child, member, respelledChild⟩ := exists_respelled_child respelled below
    obtain ⟨made, path, respelledMade⟩ := ih respelledChild
    exact ⟨made, .down (same _ _ respelled allowed) member path, respelledMade⟩

theorem exists_stands_path (same : ∀ doc other : Doc, doc.Respelled other → through other → through doc)
    (stands : doc.Stands other) (path : other.Path through made) :
    ∃ node, doc.Path through node ∧ node.Stands made := by
  induction path generalizing doc with
  | here => exact ⟨doc, .here doc, stands⟩
  | down allowed below _ ih =>
    rcases stands with respelled | ⟨mark, inner, rfl, respelled⟩
    · obtain ⟨child, member, standsChild⟩ := exists_stands_child respelled below
      obtain ⟨node, path, standsNode⟩ := ih standsChild
      exact ⟨node, .down (same _ _ respelled allowed) member path, standsNode⟩
    · -- The indentation is no node of the first document, which stays where it is.
      obtain rfl := List.mem_singleton.mp below
      exact ih (.inl respelled)

theorem forces_respelled_iff (respelled : doc.Respelled other) : other.Forces ↔ doc.Forces := by
  constructor
  · rintro ⟨last, path, asks⟩
    obtain ⟨node, pathNode, stands⟩ := exists_stands_path (fun doc other respelled passes => by
      rwa [← isChoice_respelled respelled]) (.inl respelled) path
    rcases stands with respelledNode | ⟨_, _, rfl, _⟩
    · exact ⟨node, pathNode, asksForBreak_respelled respelledNode ▸ asks⟩
    · cases asks
  · rintro ⟨last, path, asks⟩
    obtain ⟨made, pathMade, respelledMade⟩ := exists_respelled_path (fun doc other respelled passes => by
      rwa [isChoice_respelled respelled]) respelled path
    exact ⟨made, pathMade, (asksForBreak_respelled respelledMade).trans asks⟩

end Doc

/-! ### Forced breaks -/

namespace BreakSet

/-- Two sets that break the same groups. -/
def Agrees (breaks other : BreakSet) : Prop :=
  ∀ mark info, other.isBroken mark info = breaks.isBroken mark info

theorem mem_marks_breaks_iff {doc : Doc} (apart : doc.MarksTellApart) {mark : Mark} :
    mark ∈ doc.breaks.marks ↔
      ∃ info body, doc.Contains (.group mark info body) ∧ info.mustBreak = false ∧ body.Forces := by
  obtain ⟨search, same, exact_, settles⟩ := Search.exists_search apart
  rw [same]
  constructor
  · exact exact_.sound mark
  · rintro ⟨info, body, contains, free, forces⟩
    exact (settles _ contains rfl).2 mark info body rfl free forces

theorem agrees_breaks {doc other : Doc} (respelled : doc.Respelled other) (apart : doc.MarksTellApart)
    (otherApart : other.MarksTellApart) : doc.breaks.Agrees other.breaks := by
  have same (mark : Mark) : mark ∈ other.breaks.marks ↔ mark ∈ doc.breaks.marks := by
    rw [mem_marks_breaks_iff apart, mem_marks_breaks_iff otherApart]
    constructor
    · rintro ⟨info, made, contains, free, forces⟩
      obtain ⟨node, containsNode, stands⟩ :=
        Doc.exists_stands_path (fun _ _ _ _ => trivial) (.inl respelled) contains
      obtain ⟨body, rfl, respelledBody⟩ := Doc.exists_group_of_stands stands
      exact ⟨info, body, containsNode, free, (Doc.forces_respelled_iff respelledBody).mp forces⟩
    · rintro ⟨info, body, contains, free, forces⟩
      obtain ⟨node, containsNode, respelledNode⟩ :=
        Doc.exists_respelled_path (fun _ _ _ _ => trivial) respelled contains
      obtain ⟨made, rfl, respelledBody⟩ := Doc.exists_group_of_respelled respelledNode
      exact ⟨info, made, containsNode, free, (Doc.forces_respelled_iff respelledBody).mpr forces⟩
  intro mark info
  rw [Bool.eq_iff_iff, isBroken_iff, isBroken_iff, same]

end BreakSet

/-! ### Looking ahead -/

/-- Two commands that wait at one place, the second one for a node spelled out. -/
inductive Command.Respelled : Command → Command → Prop where
  | intro {indentation : Indentation} {mode : Mode} {doc other : Doc} : doc.Respelled other →
      Command.Respelled ⟨indentation, mode, doc⟩ ⟨indentation, mode, other⟩

theorem Command.Respelled.mode_eq {command other : Command} (here : command.Respelled other) :
    other.mode = command.mode := by
  cases here
  rfl

theorem Command.Respelled.on {command other : Command} {doc made : Doc} (here : command.Respelled other) (mode : Mode)
    (respelled : doc.Respelled made) : (command.on mode doc).Respelled (other.on mode made) := by
  cases here
  exact .intro respelled

theorem Command.Respelled.map_on {command other : Command} {docs made : List Doc} (here : command.Respelled other)
    (mode : Mode) (each : List.Forall₂ Doc.Respelled docs made) :
    List.Forall₂ Command.Respelled (docs.map (command.on mode)) (made.map (other.on mode)) := by
  rw [List.forall₂_map_left_iff, List.forall₂_map_right_iff]
  exact each.imp fun _ _ => here.on mode

namespace Lookahead

variable {look : Lookahead} {breaks : BreakSet} {line after : Line} {command other : Command} {next made : List Command}

/-- What looking at one of two commands leads to, the other leads to as well, if need be by way of another node. -/
def Follows (look other : Lookahead) (line : Line) (command made : Command) : Prop :=
  (∃ answer, look.glance line command = .settled answer ∧ other.glance line made = .settled answer) ∨
    ∃ after next later, look.glance line command = .go after next ∧ List.Forall₂ Command.Respelled next later ∧
      ∀ rest, 0 ≤ line.room → other.fits line (made :: rest) = other.fits after (later ++ rest)

theorem fits_go_of_room {rest : List Command} (seen : look.glance line command = .go after next)
    (room : 0 ≤ line.room) : look.fits line (command :: rest) = look.fits after (next ++ rest) := by
  rw [fits_go seen, decide_eq_true room, Bool.true_and]

theorem follows_of_go {other : Lookahead} {made : Command} {later : List Command}
    (seen : look.glance line command = .go after next) (sees : other.glance line made = .go after later)
    (respelled : List.Forall₂ Command.Respelled next later) : Follows look other line command made :=
  .inr ⟨after, next, later, seen, respelled, fun _ room => fits_go_of_room sees room⟩

theorem follows_of_stands {other : Lookahead} {made : Command} {indentation : Indentation} {mode : Mode}
    {body chosen : Doc}
    (seen : look.glance line command = .go line [⟨indentation, mode, body⟩])
    (sees : other.glance line made = .go line [⟨indentation, mode, chosen⟩]) (stands : body.Stands chosen) :
    Follows look other line command made := by
  rcases stands with respelled | ⟨mark, inner, rfl, respelled⟩
  · exact follows_of_go seen sees (.cons (.intro respelled) .nil)
  · refine .inr ⟨line, _, _, seen, .cons (.intro respelled) .nil, fun rest room => ?_⟩
    rw [fits_go_of_room sees room]
    exact fits_go_of_room rfl room

theorem glance_respelled (agrees : look.breaks.Agrees breaks) (line : Line) (respelled : command.Respelled other) :
    Follows look { look with breaks := breaks } line command other := by
  obtain @⟨indentation, mode, doc, other, respelled⟩ := respelled
  have one {mode : Mode} {body made : Doc} (respelled : body.Respelled made) :
      List.Forall₂ Command.Respelled [⟨indentation, mode, body⟩] [⟨indentation, mode, made⟩] :=
    .cons (.intro respelled) .nil
  have all {parts made : List Doc} (each : List.Forall₂ Doc.Respelled parts made) :
      List.Forall₂ Command.Respelled (parts.map (Command.on ⟨indentation, mode, doc⟩ mode))
        (made.map (Command.on ⟨indentation, mode, other⟩ mode)) :=
    (Command.Respelled.intro respelled).map_on mode each
  cases respelled with
  | text | breakParent | trim => exact follows_of_go rfl rfl .nil
  | concat respelled | fill respelled => exact follows_of_go rfl rfl (all respelled)
  | indent respelled | align respelled | indentIfBreak respelled | label respelled =>
    exact follows_of_go rfl rfl (one respelled)
  | line mark kind =>
    by_cases ends : (mode = .broken || kind.isHard) = true
    · exact .inl ⟨true, if_pos ends, if_pos ends⟩
    · by_cases plain : kind = .plain
      · exact follows_of_go ((if_neg ends).trans (if_pos plain)) ((if_neg ends).trans (if_pos plain)) .nil
      · exact follows_of_go ((if_neg ends).trans (if_neg plain)) ((if_neg ends).trans (if_neg plain)) .nil
  | @group mark info body made respelled =>
    have same := agrees mark info
    by_cases settled : (look.mustBeFlat && look.breaks.isBroken mark info) = true
    · refine .inl ⟨false, if_pos settled, ?_⟩
      exact if_pos (same.symm ▸ settled)
    · refine follows_of_go (if_neg settled) ?_ (one respelled)
      rw [← same] at settled ⊢
      exact if_neg settled
  | @choice mark info body made first madeFirst others madeOthers respelled alternatives =>
    have same := agrees mark info
    have last : (others.getLastD first).Respelled (madeOthers.getLastD madeFirst) := by
      have last := rel_getLast? alternatives
      rw [List.getLast?_cons, List.getLast?_cons, ← List.getLastD_eq_getLast?, ← List.getLastD_eq_getLast?] at last
      cases last with
      | some respelled => exact respelled
    by_cases settled : (look.mustBeFlat && look.breaks.isBroken mark info) = true
    · refine .inl ⟨false, if_pos settled, ?_⟩
      exact if_pos (same.symm ▸ settled)
    · by_cases expanded : (look.breaks.isBroken mark info || mode = .broken) = true
      · refine follows_of_go ((if_neg settled).trans (if_pos expanded)) ?_ (one last)
        rw [← same] at settled expanded
        exact (if_neg settled).trans (if_pos expanded)
      · refine follows_of_go ((if_neg settled).trans (if_neg expanded)) ?_ (one respelled)
        rw [← same] at settled expanded
        exact (if_neg settled).trans (if_neg expanded)
  | ifBreak respelledBroken respelledFlat =>
    refine follows_of_stands rfl rfl (.inl ?_)
    dsimp only
    split
    · exact respelledBroken
    · exact respelledFlat
  | indentIfBroken respelled =>
    refine follows_of_stands rfl rfl ?_
    dsimp only
    split
    · exact .inr ⟨_, _, rfl, respelled⟩
    · exact .inl respelled
  | indentIfFlat respelled =>
    refine follows_of_stands rfl rfl ?_
    dsimp only
    split
    · exact .inl respelled
    · exact .inr ⟨_, _, rfl, respelled⟩

theorem fits_respelled (agrees : look.breaks.Agrees breaks) (line : Line)
    (respelled : List.Forall₂ Command.Respelled next made) :
    Lookahead.fits { look with breaks := breaks } line made = look.fits line next := by
  fun_induction look.fits line next generalizing made with
  | case1 line pending full => rw [fits.eq_def, if_pos full]
  | case2 line room =>
    cases respelled
    rw [fits_nil, decide_eq_true (Int.not_lt.mp room)]
  | case3 line room command rest answer seen =>
    cases respelled with
    | cons here behind =>
      rcases glance_respelled agrees line here with ⟨answer', sees, made⟩ | ⟨after, next, later, sees, _⟩
      · cases seen.symm.trans sees
        rw [fits_settled made, decide_eq_true (Int.not_lt.mp room), Bool.true_and]
      · cases seen.symm.trans sees
  | case4 line room command rest after next seen ih =>
    cases respelled with
    | cons here behind =>
      rcases glance_respelled agrees line here with ⟨answer, sees, _⟩ | ⟨after', next', later, sees, respelled, fits⟩
      · cases seen.symm.trans sees
      · cases seen.symm.trans sees
        rw [fits _ (Int.not_lt.mp room)]
        exact ih (List.rel_append respelled behind)

end Lookahead

/-! ### Rendering -/

namespace RenderContext

variable {config : Config} {breaks other : BreakSet} {state : RenderState} {rest madeRest : List Command}

theorem fits_respelled (agrees : breaks.Agrees other) (state : RenderState) (mustBeFlat : Bool)
    {pending made : List Command} (respelled : List.Forall₂ Command.Respelled pending made) :
    RenderContext.fits ⟨config, other⟩ state mustBeFlat made =
      RenderContext.fits ⟨config, breaks⟩ state mustBeFlat pending := by
  let look : Lookahead := ⟨config, breaks, state.modes, mustBeFlat⟩
  have agreesLook : look.breaks.Agrees other := agrees
  exact Lookahead.fits_respelled agreesLook _ respelled

theorem chooseMeasured_respelled (agrees : breaks.Agrees other) (behind : List.Forall₂ Command.Respelled rest madeRest)
    {command made : Command} (here : command.Respelled made) (broken : Bool) {body madeBody : Doc}
    {alternatives madeAlternatives : List Doc} (respelled : body.Respelled madeBody)
    (each : List.Forall₂ Doc.Respelled alternatives madeAlternatives) :
    (RenderContext.chooseMeasured ⟨config, breaks⟩ state rest command broken body alternatives).Respelled
      (RenderContext.chooseMeasured ⟨config, other⟩ state madeRest made broken madeBody madeAlternatives) := by
  have fits {doc made' : Doc} (respelled : doc.Respelled made') :
      RenderContext.fits ⟨config, breaks⟩ state false (command.on .flat doc :: rest) =
        RenderContext.fits ⟨config, other⟩ state false (made.on .flat made' :: madeRest) :=
    (fits_respelled agrees state false (.cons (here.on .flat respelled) behind)).symm
  have last := rel_getLast? each
  have tails := List.forall₂_drop 1 each
  rw [List.drop_one, List.drop_one] at tails
  have fitting := rel_find? tails fun doc made respelled => fits respelled
  unfold chooseMeasured
  dsimp only
  rw [← fits respelled]
  split
  · exact here.on .flat respelled
  · generalize alternatives.getLast? = expanded, madeAlternatives.getLast? = madeExpanded at last ⊢
    cases last with
    | none => exact here.on .broken respelled
    | some respelledLast =>
      generalize alternatives.tail.find? _ = found, madeAlternatives.tail.find? _ = madeFound at fitting ⊢
      cases broken with
      | true => exact here.on .broken respelledLast
      | false =>
        cases fitting with
        | none => exact here.on .broken respelledLast
        | some respelledFound => exact here.on .flat respelledFound

theorem openGroup_respelled (config : Config) (state : RenderState) (agrees : breaks.Agrees other)
    (behind : List.Forall₂ Command.Respelled rest madeRest) {command made : Command} (here : command.Respelled made)
    (mark : Mark) (info : GroupInfo) {body madeBody : Doc} {alternatives madeAlternatives : List Doc}
    (respelled : body.Respelled madeBody) (each : List.Forall₂ Doc.Respelled alternatives madeAlternatives) :
    let opened := RenderContext.openGroup ⟨config, breaks⟩ state rest command mark info body alternatives
    let madeOpened := RenderContext.openGroup ⟨config, other⟩ state madeRest made mark info madeBody madeAlternatives
    madeOpened.1 = opened.1 ∧ opened.2.Respelled madeOpened.2 := by
  have measured : (RenderContext.chooseMeasured ⟨config, breaks⟩ state rest command (breaks.isBroken mark info) body
      alternatives).Respelled (RenderContext.chooseMeasured ⟨config, other⟩ state madeRest made
        (other.isBroken mark info) madeBody madeAlternatives) := by
    rw [agrees mark info]
    exact chooseMeasured_respelled agrees behind here _ respelled each
  have unmeasured : (command.on (if breaks.isBroken mark info then .broken else .flat) body).Respelled
      (made.on (if other.isBroken mark info then .broken else .flat) madeBody) := by
    rw [agrees mark info]
    exact here.on _ respelled
  unfold openGroup
  dsimp only
  by_cases again : (decide (command.mode = .broken) || state.remeasure) = true
  · have madeAgain : (decide (made.mode = .broken) || state.remeasure) = true := here.mode_eq ▸ again
    simp only [if_pos again, if_pos madeAgain]
    exact ⟨by rw [measured.mode_eq], measured⟩
  · have madeAgain : ¬(decide (made.mode = .broken) || state.remeasure) = true := here.mode_eq ▸ again
    simp only [if_neg again, if_neg madeAgain]
    exact ⟨by rw [unmeasured.mode_eq], unmeasured⟩

theorem openFill_respelled (config : Config) (state : RenderState) (agrees : breaks.Agrees other)
    {command made : Command} (here : command.Respelled made) (mark : Mark) {parts madeParts : List Doc}
    (each : List.Forall₂ Doc.Respelled parts madeParts) :
    List.Forall₂ Command.Respelled (RenderContext.openFill ⟨config, breaks⟩ state command mark parts)
      (RenderContext.openFill ⟨config, other⟩ state made mark madeParts) := by
  have fits {docs madeDocs : List Doc} (each : List.Forall₂ Doc.Respelled docs madeDocs) :
      RenderContext.fits ⟨config, breaks⟩ state true (docs.map (command.on .flat)) =
        RenderContext.fits ⟨config, other⟩ state true (madeDocs.map (made.on .flat)) :=
    (fits_respelled agrees state true (here.map_on .flat each)).symm
  have contentFits {content made' : Doc} (respelled : content.Respelled made') :
      RenderContext.fits ⟨config, breaks⟩ state true [command.on .flat content] =
        RenderContext.fits ⟨config, other⟩ state true [made.on .flat made'] :=
    fits (.cons respelled .nil)
  unfold openFill
  cases each with
  | nil => exact .nil
  | cons content each =>
    cases each with
    | nil =>
      dsimp only
      rw [← contentFits content]
      split
      · exact .cons (here.on .flat content) .nil
      · exact .cons (here.on .broken content) .nil
    | cons separator each =>
      cases each with
      | nil =>
        dsimp only
        rw [← contentFits content]
        exact .cons (here.on _ content) (.cons (here.on _ separator) .nil)
      | cons next each =>
        have pairFits := fits (.cons content (.cons separator (.cons next .nil)))
        dsimp only
        rw [← contentFits content, ← pairFits, ← here.mode_eq]
        exact .cons (here.on _ content) (.cons (here.on _ separator) (.cons (here.on _ (.fill (.cons next each))) .nil))

/-- The second renderer comes to where the first one is after one command. -/
def Keeps (config : Config) (breaks other : BreakSet) (state : RenderState) (rest madeRest : List Command)
    (command made : Command) : Prop :=
  ∃ madeNext, List.Forall₂ Command.Respelled (RenderContext.renderStep ⟨config, breaks⟩ state rest command).2 madeNext ∧
    RenderContext.Reaches ⟨config, other⟩ ⟨state, made :: madeRest⟩
      ⟨(RenderContext.renderStep ⟨config, breaks⟩ state rest command).1, madeNext ++ madeRest⟩

theorem keeps_of_step {command made : Command}
    (same : (RenderContext.renderStep ⟨config, other⟩ state madeRest made).1 =
      (RenderContext.renderStep ⟨config, breaks⟩ state rest command).1)
    (respelled : List.Forall₂ Command.Respelled (RenderContext.renderStep ⟨config, breaks⟩ state rest command).2
      (RenderContext.renderStep ⟨config, other⟩ state madeRest made).2) :
    Keeps config breaks other state rest madeRest command made := by
  refine ⟨_, respelled, .step ?_⟩
  rw [← same]
  exact .refl _

/-- A node that indents its body depending on a group leads to the body at once, and a choice between this indented and
the body itself by way of what is chosen. -/
theorem keeps_spelled {mark anew : Mark} (inner : Mark) {body made broken flat : Doc} {id : GroupId} {negate : Bool}
    (indentation : Indentation) (mode : Mode) (respelled : body.Respelled made)
    (chosen : (if state.modes.read (some id) mode = .broken then broken else flat) =
      if (state.modes.read (some id) mode = .broken) = (negate = true) then made else .indent inner made) :
    Keeps config breaks other state rest madeRest ⟨indentation, mode, .indentIfBreak mark body id negate⟩
      ⟨indentation, mode, .ifBreak anew broken flat (some id)⟩ := by
  by_cases plain : (state.modes.read (some id) mode = .broken) = (negate = true)
  · rw [if_pos plain] at chosen
    refine ⟨[⟨indentation, mode, made⟩], ?_, .step ?_⟩
    · unfold renderStep
      dsimp only
      rw [if_pos plain]
      exact .cons (.intro respelled) .nil
    · unfold advance renderStep
      dsimp only
      rw [chosen]
      exact .refl _
  · rw [if_neg plain] at chosen
    -- What is chosen is an indentation, and the second step goes into it.
    refine ⟨[⟨indentation.indent config, mode, made⟩], ?_, .step ?_⟩
    · unfold renderStep
      dsimp only
      rw [if_neg plain]
      exact .cons (.intro respelled) .nil
    · unfold advance renderStep
      dsimp only
      rw [chosen]
      exact .step (.refl _)

theorem renderStep_respelled (agrees : breaks.Agrees other) (behind : List.Forall₂ Command.Respelled rest madeRest)
    {command made : Command} (here : command.Respelled made) :
    Keeps config breaks other state rest madeRest command made := by
  have opened := openGroup_respelled config state agrees behind here
  have filled := openFill_respelled config state agrees here
  have all {parts madeParts : List Doc} (each : List.Forall₂ Doc.Respelled parts madeParts) :=
    here.map_on command.mode each
  obtain @⟨indentation, mode, doc, made, respelled⟩ := here
  cases respelled with
  | text | line | breakParent | trim => exact keeps_of_step rfl .nil
  | concat respelled => exact keeps_of_step rfl (all respelled)
  | fill respelled => exact keeps_of_step rfl (filled _ respelled)
  | indent respelled | align respelled | label respelled => exact keeps_of_step rfl (.cons (.intro respelled) .nil)
  | group respelled =>
    obtain ⟨same, chosen⟩ := opened _ _ respelled .nil
    exact keeps_of_step same (.cons chosen .nil)
  | choice respelled alternatives =>
    obtain ⟨same, chosen⟩ := opened _ _ respelled alternatives
    exact keeps_of_step same (.cons chosen .nil)
  | ifBreak respelledBroken respelledFlat =>
    refine keeps_of_step rfl (.cons (.intro ?_) .nil)
    split
    · exact respelledBroken
    · exact respelledFlat
  | indentIfBreak respelled =>
    refine keeps_of_step rfl (.cons ?_ .nil)
    split
    · exact .intro respelled
    · exact .intro respelled
  | @indentIfBroken _ _ inner _ _ id respelled =>
    refine keeps_spelled inner indentation mode respelled ?_
    by_cases broke : state.modes.read (some id) mode = .broken <;> simp [broke]
  | @indentIfFlat _ _ inner _ _ id respelled =>
    refine keeps_spelled inner indentation mode respelled ?_
    by_cases broke : state.modes.read (some id) mode = .broken <;> simp [broke]

/-- Rendering comes through the same states with nodes spelled out. -/
theorem run_respelled {context : RenderContext} (agrees : context.breaks.Agrees other) (state : RenderState)
    (pending made : List Command) (respelled : List.Forall₂ Command.Respelled pending made) :
    RenderContext.run ⟨context.config, other⟩ state made = context.run state pending := by
  fun_induction RenderContext.run context state pending generalizing made with
  | case1 state =>
    cases respelled
    rw [run]
  | case2 state command rest step ih =>
    cases respelled with
    | cons here behind =>
      obtain ⟨madeNext, respelledNext, reached⟩ := renderStep_respelled agrees behind here
      rw [run_eq_of_reaches reached]
      exact ih _ (List.rel_append respelledNext behind)

end RenderContext

/-- Nodes that indent their bodies depending on a group can be spelled out anywhere in a document: what is rendered
stays the same, whatever the configuration. -/
theorem Doc.render_eq_of_respelled {doc other : Doc} (respelled : doc.Respelled other) (apart : doc.MarksTellApart)
    (otherApart : other.MarksTellApart) (config : Config) : other.render config = doc.render config := by
  have pending : List.Forall₂ Command.Respelled [⟨.none, .broken, doc⟩] [⟨.none, .broken, other⟩] :=
    .cons (.intro respelled) .nil
  have agrees : (RenderContext.mk config doc.breaks).breaks.Agrees other.breaks :=
    BreakSet.agrees_breaks respelled apart otherApart
  exact congrArg (fun state => state.out.text) (RenderContext.run_respelled agrees {} _ _ pending)

/-- A group, a node that depends on it, and a fill with another one. -/
def aroundDependents (first second : Doc) : Doc :=
  .concat 0 [.group 1 ⟨some ⟨1, "attrs"⟩, false⟩ (.concat 2 [.text 3 "a", .line 4 .hard, .breakParent 5]), first,
    .fill 6 [second, .line 7 .plain, .text 8 "d"]]

/-- What is indented, or not. -/
def dependentBody : Doc :=
  .group 9 ⟨none, false⟩ (.concat 10 [.line 11 .soft, .text 12 "b"])

def dependentIndents : Doc :=
  aroundDependents (.indentIfBreak 13 dependentBody ⟨1, "attrs"⟩ false)
    (.indentIfBreak 14 dependentBody ⟨1, "attrs"⟩ true)

/-- The same with choices between two bodies. -/
def dependentChoices : Doc :=
  aroundDependents (.ifBreak 13 (.indent 15 dependentBody) dependentBody (some ⟨1, "attrs"⟩))
    (.ifBreak 14 dependentBody (.indent 16 dependentBody) (some ⟨1, "attrs"⟩))

theorem respelled_dependentBody : dependentBody.Respelled dependentBody :=
  .group (.concat (.cons (.line 11 .soft) (.cons (.text 12 "b") .nil)))

theorem respelled_dependentIndents : dependentIndents.Respelled dependentChoices := by
  refine .concat (.cons ?_ (.cons ?_ (.cons ?_ .nil)))
  · exact .group (.concat (.cons (.text 3 "a") (.cons (.line 4 .hard) (.cons (.breakParent 5) .nil))))
  · exact .indentIfBroken respelled_dependentBody
  · refine .fill (.cons ?_ (.cons (.line 7 .plain) (.cons (.text 8 "d") .nil)))
    exact .indentIfFlat respelled_dependentBody

/-- The nodes that stand in both documents. -/
def nodesAround (first second : Doc) : List Doc :=
  let lines : Doc := .concat 2 [.text 3 "a", .line 4 .hard, .breakParent 5]
  [aroundDependents first second, .group 1 ⟨some ⟨1, "attrs"⟩, false⟩ lines, lines, .text 3 "a", .line 4 .hard,
    .breakParent 5, .fill 6 [second, .line 7 .plain, .text 8 "d"], .line 7 .plain, .text 8 "d", dependentBody,
    .concat 10 [.line 11 .soft, .text 12 "b"], .line 11 .soft, .text 12 "b", first, second]

theorem marksTellApart_dependentIndents : dependentIndents.MarksTellApart := by
  let nodes := nodesAround (.indentIfBreak 13 dependentBody ⟨1, "attrs"⟩ false)
    (.indentIfBreak 14 dependentBody ⟨1, "attrs"⟩ true)
  have closed : ∀ node ∈ nodes, ∀ child ∈ node.children true, child ∈ nodes := by
    simp [nodes, nodesAround, aroundDependents, dependentBody, Doc.children]
  exact Doc.marksTellApart_of_closed List.mem_cons_self closed (by decide)

theorem marksTellApart_dependentChoices : dependentChoices.MarksTellApart := by
  let nodes := nodesAround (.ifBreak 13 (.indent 15 dependentBody) dependentBody (some ⟨1, "attrs"⟩))
    (.ifBreak 14 dependentBody (.indent 16 dependentBody) (some ⟨1, "attrs"⟩)) ++
      [.indent 15 dependentBody, .indent 16 dependentBody]
  have closed : ∀ node ∈ nodes, ∀ child ∈ node.children true, child ∈ nodes := by
    simp [nodes, nodesAround, aroundDependents, dependentBody, Doc.children]
  exact Doc.marksTellApart_of_closed List.mem_cons_self closed (by decide)

theorem render_eq_of_respelled_dependents :
    dependentIndents.MarksTellApart ∧ dependentChoices.MarksTellApart ∧
      ∀ config, dependentChoices.render config = dependentIndents.render config := by
  refine ⟨marksTellApart_dependentIndents, marksTellApart_dependentChoices, ?_⟩
  exact Doc.render_eq_of_respelled respelled_dependentIndents marksTellApart_dependentIndents
    marksTellApart_dependentChoices

end MarkupFormat.Layout
