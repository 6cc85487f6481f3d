import MarkupFormat.Proofs.Layout.Moments

/-!
# Flat groups fit their line

A group is laid out flat if looking ahead finds that it and what follows it fit on the line. The
renderer decides anew at every later group, so what follows need not be laid out as it was foreseen.
`column_le_of_fitsFlat` shows that the line fits all the same: the columns of a line on which a
measured group is laid out flat never exceed those available. Looking ahead does not tell numbers of
columns from `maxColumns` on apart, so fewer than these must be available (`not_column_le_maxColumns`).
-/

namespace MarkupFormat.Layout

open Text (LineEnding)

/-! ### Columns that are told apart -/

/-- Looking ahead tells whether so many columns are available. -/
def Config.Tells (config : Config) (columns : Nat) : Prop :=
  config.printWidth < maxColumns ∨ columns ≤ maxColumns

theorem Config.Tells.of_le {config : Config} {columns fewer : Nat} (told : config.Tells columns)
    (less : fewer ≤ columns) : config.Tells fewer :=
  told.imp_right (Nat.le_trans less)

/-- What columns may count as that are counted piece by piece. -/
structure Counts (columns count : Nat) : Prop where
  le : count ≤ columns
  told : count = columns ∨ maxColumns ≤ count

theorem counts_self (columns : Nat) : Counts columns columns :=
  ⟨Nat.le_refl _, .inl rfl⟩

theorem counts_counted (columns : Nat) : Counts columns (counted columns) := by
  unfold counted
  exact ⟨Nat.min_le_left _ _, by omega⟩

theorem Counts.add {columns count more further : Nat} (counts : Counts columns count) (others : Counts more further) :
    Counts (columns + more) (count + further) := by
  obtain ⟨le, told⟩ := counts
  obtain ⟨le', told'⟩ := others
  exact ⟨Nat.add_le_add le le', by omega⟩

/-- Columns are available for what they count as exactly if they are available. -/
theorem Counts.room_iff {config : Config} {column columns count : Nat} (counts : Counts columns count)
    (told : config.Tells (column + columns)) :
    0 ≤ (counted config.printWidth : Int) - counted column - count ↔ column + columns ≤ config.printWidth := by
  obtain ⟨le, same⟩ := counts
  unfold Config.Tells at told
  unfold counted
  omega

/-! ### Plain documents -/

namespace Doc

mutual

/-- Whether a document has neither alternatives, fills and trims nor choices by the layout of a
named group, and its texts hold no line feed. -/
def isPlain : Doc → Bool
  | text _ content => !content.toList.contains '\n'
  | concat _ parts => arePlain parts
  | indent _ body | align _ _ body | group _ _ body | indentIfBreak _ body _ _ | label _ _ body =>
    body.isPlain
  | line .. | breakParent _ => true
  | ifBreak _ broken flat id => id.isNone && broken.isPlain && flat.isPlain
  | choice .. | fill .. | trim _ => false

/-- Whether several documents are plain. -/
def arePlain : List Doc → Bool
  | [] => true
  | doc :: docs => doc.isPlain && arePlain docs

end

theorem isPlain_of_mem {doc : Doc} {docs : List Doc} (plain : arePlain docs = true)
    (member : doc ∈ docs) : doc.isPlain = true := by
  induction docs with
  | nil => cases member
  | cons head tail ih =>
    simp only [arePlain, Bool.and_eq_true] at plain
    rcases List.mem_cons.mp member with same | member
    · exact same ▸ plain.1
    · exact ih plain.2 member

end Doc

/-- Every waiting node is plain. -/
def Command.AllPlain (pending : List Command) : Prop :=
  ∀ command ∈ pending, command.doc.isPlain = true

/-- What looking ahead reads of a command: all but the indentation. -/
def Command.shape (command : Command) : Mode × Doc :=
  (command.mode, command.doc)

theorem Command.allPlain_append {first second : List Command} (h₁ : AllPlain first)
    (h₂ : AllPlain second) : AllPlain (first ++ second) := by
  intro command member
  rcases List.mem_append.mp member with member | member
  · exact h₁ command member
  · exact h₂ command member

theorem Command.allPlain_singleton {command : Command} (plain : command.doc.isPlain = true) :
    AllPlain [command] := by
  intro other member
  rw [List.mem_singleton.mp member]
  exact plain

theorem Command.allPlain_map_on {command : Command} {mode : Mode} {docs : List Doc}
    (plain : Doc.arePlain docs = true) : AllPlain (docs.map (command.on mode)) := by
  intro other member
  obtain ⟨doc, inside, rfl⟩ := List.mem_map.mp member
  exact Doc.isPlain_of_mem plain inside

theorem Command.shape_map_on {command other : Command} {mode : Mode} (docs : List Doc) :
    (docs.map (command.on mode)).map shape = (docs.map (other.on mode)).map shape := by
  simp [Function.comp_def, shape, on]

/-! ### Looking ahead on plain nodes -/

namespace Lookahead

theorem fits_nil {look : Lookahead} {line : Line} : look.fits line [] = decide (0 ≤ line.room) := by
  rw [fits]
  by_cases full : line.room < 0
  · rw [if_pos full, decide_eq_false (by omega)]
  · rw [if_neg full, decide_eq_true (by omega)]

theorem fits_settled {look : Lookahead} {line : Line} {command : Command} {rest : List Command}
    {answer : Bool} (seen : look.glance line command = .settled answer) :
    look.fits line (command :: rest) = (decide (0 ≤ line.room) && answer) := by
  rw [fits]
  by_cases full : line.room < 0
  · rw [if_pos full, decide_eq_false (by omega), Bool.false_and]
  · rw [if_neg full, decide_eq_true (by omega), Bool.true_and]
    split
    · next other => rw [seen] at other; exact (Glance.settled.inj other).symm
    · next other => rw [seen] at other; cases other

theorem fits_go {look : Lookahead} {line after : Line} {command : Command}
    {next rest : List Command} (seen : look.glance line command = .go after next) :
    look.fits line (command :: rest) = (decide (0 ≤ line.room) && look.fits after (next ++ rest)) := by
  rw [fits]
  by_cases full : line.room < 0
  · rw [if_pos full, decide_eq_false (by omega), Bool.false_and]
  · rw [if_neg full, decide_eq_true (by omega), Bool.true_and]
    split
    · next other => rw [seen] at other; cases other
    · next other => rw [seen] at other; obtain ⟨rfl, rfl⟩ := Glance.go.inj other; rfl

theorem fits_of_go {look : Lookahead} {line after : Line} {command : Command} {next rest : List Command}
    (seen : look.glance line command = .go after next) (room : 0 ≤ line.room)
    (fit : look.fits after (next ++ rest) = true) : look.fits line (command :: rest) = true := by
  rw [fits_go seen, fit, decide_eq_true room]
  rfl

theorem room_nonneg_of_fits {look : Lookahead} {line : Line} {pending : List Command}
    (fit : look.fits line pending = true) : 0 ≤ line.room := by
  rw [fits.eq_def] at fit
  by_cases full : line.room < 0
  · rw [if_pos full] at fit; cases fit
  · omega

/-- Two glances that lead to the same, blanks and indentation apart. -/
def SameGlance : Glance → Glance → Prop
  | .settled answer, .settled other => answer = other
  | .go line next, .go line' next' =>
    line.room = line'.room ∧ next.map Command.shape = next'.map Command.shape ∧
      Command.AllPlain next
  | _, _ => False

variable {look other : Lookahead} {line line' : Line}

/-- A glance at a plain node depends neither on the named groups nor on the blanks before it. -/
theorem sameGlance {command command' : Command} (config : look.config = other.config)
    (breaks : look.breaks = other.breaks) (strict : look.mustBeFlat = other.mustBeFlat)
    (room : line.room = line'.room) (same : command.shape = command'.shape)
    (plain : command.doc.isPlain = true) :
    SameGlance (look.glance line command) (other.glance line' command') := by
  obtain ⟨indentation, mode, doc⟩ := command
  obtain ⟨indentation', mode', doc'⟩ := command'
  obtain ⟨rfl, rfl⟩ := Prod.mk.inj same
  unfold glance
  cases doc <;> simp only [Doc.isPlain, Bool.false_eq_true] at plain
  case text => exact ⟨by simp [Line.write, room, config], rfl, nofun⟩
  case concat => exact ⟨room, Command.shape_map_on _, Command.allPlain_map_on plain⟩
  case indent => exact ⟨room, rfl, Command.allPlain_singleton plain⟩
  case align => exact ⟨room, rfl, Command.allPlain_singleton plain⟩
  case indentIfBreak => exact ⟨room, rfl, Command.allPlain_singleton plain⟩
  case label => exact ⟨room, rfl, Command.allPlain_singleton plain⟩
  case breakParent => exact ⟨room, rfl, nofun⟩
  case group mark info body =>
    simp only [breaks, strict]
    split
    · rfl
    · exact ⟨room, rfl, Command.allPlain_singleton plain⟩
  case ifBreak mark broken flat id =>
    simp only [Bool.and_eq_true, Option.isNone_iff_eq_none] at plain
    obtain ⟨⟨rfl, plainBroken⟩, plainFlat⟩ := plain
    refine ⟨room, rfl, Command.allPlain_singleton ?_⟩
    by_cases isBroken : mode = .broken
    · simpa [Command.on, GroupModes.read, isBroken] using plainBroken
    · simpa [Command.on, GroupModes.read, isBroken] using plainFlat
  case line mark kind =>
    dsimp only
    split
    · rfl
    · split
      · exact ⟨by rw [room], rfl, nofun⟩
      · exact ⟨room, rfl, nofun⟩

/-- Whether plain nodes fit depends only on the columns left, the modes and the nodes. -/
theorem fits_congr {pending pending' : List Command} (config : look.config = other.config)
    (breaks : look.breaks = other.breaks) (strict : look.mustBeFlat = other.mustBeFlat)
    (room : line.room = line'.room) (same : pending.map Command.shape = pending'.map Command.shape)
    (plain : Command.AllPlain pending) : look.fits line pending = other.fits line' pending' := by
  fun_induction Lookahead.fits look line pending generalizing line' pending' with
  | case1 line pending full =>
    rw [fits.eq_def, if_pos (by omega)]
  | case2 line full =>
    rw [List.map_eq_nil_iff.mp same.symm, fits_nil, decide_eq_true (by omega)]
  | case3 line full command rest answer seen =>
    obtain ⟨command', rest', rfl, sameHead, sameTail⟩ := List.map_eq_cons_iff.mp same.symm
    have agree := sameGlance config breaks strict room sameHead.symm (plain _ List.mem_cons_self)
    rw [seen] at agree
    cases seen' : other.glance line' command' with
    | settled answer' =>
      rw [seen'] at agree
      rw [fits_settled seen', decide_eq_true (by omega), Bool.true_and]
      exact agree
    | go => rw [seen'] at agree; exact agree.elim
  | case4 line full command rest after next seen ih =>
    obtain ⟨command', rest', rfl, sameHead, sameTail⟩ := List.map_eq_cons_iff.mp same.symm
    have agree := sameGlance config breaks strict room sameHead.symm (plain _ List.mem_cons_self)
    rw [seen] at agree
    cases seen' : other.glance line' command' with
    | settled => rw [seen'] at agree; exact agree.elim
    | go after' next' =>
      rw [seen'] at agree
      obtain ⟨roomAfter, sameNext, plainNext⟩ := agree
      rw [fits_go seen', decide_eq_true (by omega), Bool.true_and]
      refine ih roomAfter ?_ (Command.allPlain_append plainNext
        fun c member => plain c (List.mem_cons_of_mem _ member))
      rw [List.map_append, List.map_append, sameNext, sameTail]

end Lookahead

/-! ### The line of a flat group -/

namespace RenderContext

variable {context : RenderContext} {state : RenderState} {command : Command} {rest : List Command}

/-- Plain nodes wait, and with the room that is left they fit as far as the next line break. -/
def Fitting (context : RenderContext) (moment : Moment) : Prop :=
  Command.AllPlain moment.pending ∧ context.fits moment.state false moment.pending = true

theorem column_le_of_fitting {moment : Moment} (narrow : context.config.printWidth < maxColumns)
    (fitting : context.Fitting moment) : moment.state.column ≤ context.config.printWidth := by
  have nonneg : 0 ≤ context.room moment.state := Lookahead.room_nonneg_of_fits fitting.2
  unfold RenderContext.room counted at nonneg
  omega

/-- Plain nodes fit or not whatever was recorded of named groups, if the columns are the same. -/
theorem fits_eq_of_plain {other : RenderState} {pending pending' : List Command}
    (column : other.column = state.column)
    (same : pending'.map Command.shape = pending.map Command.shape)
    (plain : Command.AllPlain pending) :
    context.fits other false pending' = context.fits state false pending := by
  have room : context.room other = context.room state := by
    simp only [RenderContext.room, column]
  have agree : Lookahead.fits ⟨context.config, context.breaks, state.modes, false⟩
      { room := context.room state } pending =
    Lookahead.fits ⟨context.config, context.breaks, other.modes, false⟩
      { room := context.room other } pending' :=
    Lookahead.fits_congr rfl rfl rfl room.symm same.symm plain
  exact agree.symm

/-- How a group without alternatives is laid out. -/
def groupMode (context : RenderContext) (state : RenderState) (rest : List Command)
    (command : Command) (mark : Mark) (info : GroupInfo) (body : Doc) : Mode :=
  let broken := context.breaks.isBroken mark info
  if command.mode = .broken || state.remeasure then
    if !broken && context.fits state false (command.on .flat body :: rest) then .flat else .broken
  else if broken then .broken
  else .flat

theorem openGroup_nil (mark : Mark) (info : GroupInfo) (body : Doc) :
    (context.openGroup state rest command mark info body []).2 =
      command.on (context.groupMode state rest command mark info body) body := by
  unfold openGroup groupMode chooseMeasured
  dsimp only
  split
  · split
    · rfl
    · rfl
  · rfl

/-- Rendering a plain node leaves plain nodes. -/
theorem allPlain_renderStep (plain : command.doc.isPlain = true) :
    Command.AllPlain (context.renderStep state rest command).2 := by
  unfold renderStep
  cases doc : command.doc <;> simp only [doc, Doc.isPlain, Bool.false_eq_true] at plain
  case text => exact nofun
  case concat => exact Command.allPlain_map_on plain
  case indent => exact Command.allPlain_singleton plain
  case align => exact Command.allPlain_singleton plain
  case line => exact nofun
  case breakParent => exact nofun
  case label => exact Command.allPlain_singleton plain
  case indentIfBreak =>
    refine Command.allPlain_singleton ?_
    split
    · exact plain
    · exact plain
  case ifBreak mark broken flat id =>
    simp only [Bool.and_eq_true] at plain
    refine Command.allPlain_singleton ?_
    by_cases isBroken : state.modes.read id command.mode = .broken
    · simpa [Command.on, isBroken] using plain.1.2
    · simpa [Command.on, isBroken] using plain.2
  case group mark info body =>
    dsimp only
    rw [openGroup_nil]
    exact Command.allPlain_singleton plain

theorem allPlain_advance (plain : Command.AllPlain (command :: rest)) :
    Command.AllPlain (context.advance state command rest).pending :=
  Command.allPlain_append (allPlain_renderStep (plain command List.mem_cons_self))
    fun other member => plain other (List.mem_cons_of_mem _ member)

/-- What fits after a glance at a plain node fits after rendering the node, if that leaves the room
that was foreseen and the nodes that were foreseen. -/
theorem fits_of_glance {after : Line} {next made : List Command} {later : RenderState}
    (fits : context.fits state false (command :: rest) = true)
    (seen : Lookahead.glance ⟨context.config, context.breaks, state.modes, false⟩
      { room := context.room state } command = .go after next)
    (room : after.room = context.room later)
    (same : next.map Command.shape = made.map Command.shape)
    (plain : Command.AllPlain (next ++ rest)) :
    context.fits later false (made ++ rest) = true := by
  unfold RenderContext.fits at fits
  rw [Lookahead.fits_go seen, Bool.and_eq_true] at fits
  have sameAll : (next ++ rest).map Command.shape = (made ++ rest).map Command.shape := by
    rw [List.map_append, List.map_append, same]
  have agree : Lookahead.fits ⟨context.config, context.breaks, state.modes, false⟩ after
      (next ++ rest) =
    Lookahead.fits ⟨context.config, context.breaks, later.modes, false⟩
      { room := context.room later } (made ++ rest) :=
    Lookahead.fits_congr rfl rfl rfl room sameAll plain
  exact agree.symm.trans fits.2

/-- On a line with fewer than `maxColumns` columns, what fits is counted as it is. -/
theorem room_of_glance {after : Line} {next : List Command} {columns : Nat}
    (narrow : context.config.printWidth < maxColumns) (fits : context.fits state false (command :: rest) = true)
    (seen : Lookahead.glance ⟨context.config, context.breaks, state.modes, false⟩
      { room := context.room state } command = .go after next)
    (room : after.room = context.room state - counted columns) {later : RenderState}
    (column : later.column = state.column + columns) : after.room = context.room later := by
  unfold RenderContext.fits at fits
  rw [Lookahead.fits_go seen, Bool.and_eq_true] at fits
  have nonneg := Lookahead.room_nonneg_of_fits fits.2
  unfold RenderContext.room counted at *
  omega

/-- A plain group is laid out as was foreseen, or flat because it fits when measured anew. -/
theorem fits_openGroup {mark : Mark} {info : GroupInfo} {body : Doc} {later : RenderState}
    (plain : Command.AllPlain (command :: rest)) (group : command.doc = .group mark info body)
    (fits : context.fits state false (command :: rest) = true)
    (column : later.column = state.column) :
    context.fits later false
      (command.on (context.groupMode state rest command mark info body) body :: rest) = true := by
  have plainNext (mode : Mode) : Command.AllPlain (command.on mode body :: rest) := by
    intro other member
    rcases List.mem_cons.mp member with same | member
    · have plainHead := plain command List.mem_cons_self
      rw [group, Doc.isPlain] at plainHead
      rw [same]
      exact plainHead
    · exact plain other (List.mem_cons_of_mem _ member)
  have again (mode : Mode) : context.fits later false (command.on mode body :: rest) =
      context.fits state false (command.on mode body :: rest) :=
    fits_eq_of_plain column rfl (plainNext mode)
  -- Looking ahead took the group as broken if it must be, and else like the nodes around it.
  have foreseen : context.fits state false
      (command.on (if context.breaks.isBroken mark info then .broken else command.mode) body ::
        rest) = true := by
    have seen : Lookahead.glance ⟨context.config, context.breaks, state.modes, false⟩
        { room := context.room state } command = .go { room := context.room state }
          [command.on (if context.breaks.isBroken mark info then .broken else command.mode) body] := by
      simp [Lookahead.glance, group]
    exact fits_of_glance fits seen rfl rfl (plainNext _)
  rw [again]
  unfold groupMode
  dsimp only
  cases broken : context.breaks.isBroken mark info with
  | true => simpa [broken] using foreseen
  | false =>
    simp only [broken, Bool.false_eq_true, if_false, Bool.not_false, Bool.true_and] at foreseen ⊢
    cases mode : command.mode with
    | flat =>
      rw [mode] at foreseen
      simp [foreseen]
    | broken =>
      rw [mode] at foreseen
      by_cases measured : context.fits state false (command.on .flat body :: rest) = true
      · simp [measured]
      · simpa [measured] using foreseen

/-- A node that is replaced by others on the line, as looking ahead replaced it. -/
theorem fits_replace {next made : List Command} {later : RenderState}
    (fits : context.fits state false (command :: rest) = true)
    (seen : Lookahead.glance ⟨context.config, context.breaks, state.modes, false⟩
      { room := context.room state } command = .go { room := context.room state } next)
    (column : later.column = state.column) (same : next.map Command.shape = made.map Command.shape)
    (plain : Command.AllPlain (next ++ rest)) :
    context.fits later false (made ++ rest) = true := by
  refine fits_of_glance fits seen ?_ same plain
  simp only [room, column]

theorem fits_text {mark : Mark} {content : String} (narrow : context.config.printWidth < maxColumns)
    (plain : Command.AllPlain (command :: rest)) (text : command.doc = .text mark content)
    (fits : context.fits state false (command :: rest) = true) :
    context.fits (context.writeText state content) false rest = true := by
  have seen : Lookahead.glance ⟨context.config, context.breaks, state.modes, false⟩
      { room := context.room state } command =
        .go (Line.write context.config { room := context.room state } content) [] := by
    simp [Lookahead.glance, text]
  exact fits_of_glance fits seen (room_of_glance narrow fits seen rfl rfl) rfl fun other member =>
    plain other (List.mem_cons_of_mem _ member)

theorem fits_line {mark : Mark} {kind : LineKind} (narrow : context.config.printWidth < maxColumns)
    (plain : Command.AllPlain (command :: rest)) (line : command.doc = .line mark kind) (stays : command.breaksLine = false)
    (fits : context.fits state false (command :: rest) = true) :
    context.fits (context.writeLine state kind command.indentation command.mode) false rest = true := by
  have plainRest : Command.AllPlain ([] ++ rest) :=
    fun other member => plain other (List.mem_cons_of_mem _ member)
  simp only [Command.breaksLine, line, Bool.or_eq_false_iff, decide_eq_false_iff_not] at stays
  have flat : command.mode = .flat := by
    cases mode : command.mode with
    | broken => exact absurd mode stays.1
    | flat => rfl
  cases kind with
  | soft =>
    have seen : Lookahead.glance ⟨context.config, context.breaks, state.modes, false⟩
        { room := context.room state } command = .go { room := context.room state } [] := by
      simp [Lookahead.glance, line, flat, LineKind.isHard]
    rw [flat]
    exact fits_of_glance fits seen rfl rfl plainRest
  | plain =>
    have seen : Lookahead.glance ⟨context.config, context.breaks, state.modes, false⟩
        { room := context.room state } command =
          .go { room := context.room state - 1, blanks := 1 } [] := by
      simp [Lookahead.glance, line, flat, LineKind.isHard]
    rw [flat]
    exact fits_of_glance fits seen (room_of_glance narrow fits seen rfl rfl) rfl plainRest
  | hard => exact absurd stays.2 (by decide)
  | literal => exact absurd stays.2 (by decide)

/-- Rendering a plain node keeps the line fitting, unless it ends the line. -/
theorem fitting_advance (narrow : context.config.printWidth < maxColumns)
    (fitting : context.Fitting ⟨state, command :: rest⟩) (stays : command.breaksLine = false) : context.Fitting (context.advance state command rest) := by
  obtain ⟨plain, fits⟩ := fitting
  have plainNext : Command.AllPlain (context.advance state command rest).pending :=
    allPlain_advance plain
  refine ⟨plainNext, ?_⟩
  have plainHead := plain command List.mem_cons_self
  have plainRest : Command.AllPlain rest := fun other member =>
    plain other (List.mem_cons_of_mem _ member)
  -- The body of a node that only changes the indentation, which looking ahead does not read.
  have inner {body : Doc} {indentation : Indentation} (plainBody : body.isPlain = true)
      (seen : Lookahead.glance ⟨context.config, context.breaks, state.modes, false⟩
        { room := context.room state } command =
          .go { room := context.room state } [command.on command.mode body]) :
      context.fits state false ([⟨indentation, command.mode, body⟩] ++ rest) = true :=
    fits_replace fits seen rfl rfl
      (Command.allPlain_append (Command.allPlain_singleton plainBody) plainRest)
  unfold advance renderStep at plainNext ⊢
  cases doc : command.doc <;> simp only [doc, Doc.isPlain, Bool.false_eq_true] at plainHead plainNext ⊢
  case text mark content => exact fits_text narrow plain doc fits
  case line mark kind => exact fits_line narrow plain doc stays fits
  case group mark info body =>
    rw [openGroup_nil]
    exact fits_openGroup plain doc fits rfl
  case concat mark parts =>
    exact fits_replace fits (by simp [Lookahead.glance, doc]) rfl rfl plainNext
  case breakParent mark =>
    exact fits_replace fits (by simp [Lookahead.glance, doc]) rfl rfl plainNext
  case label mark name body =>
    exact fits_replace fits (by simp [Lookahead.glance, doc]) rfl rfl plainNext
  case indent mark body => exact inner plainHead (by simp [Lookahead.glance, doc])
  case align mark kind body => exact inner plainHead (by simp [Lookahead.glance, doc])
  case indentIfBreak mark body id negate =>
    split
    · exact inner plainHead (by simp [Lookahead.glance, doc])
    · exact inner plainHead (by simp [Lookahead.glance, doc])
  case ifBreak mark broken flat id =>
    simp only [Bool.and_eq_true, Option.isNone_iff_eq_none] at plainHead
    obtain ⟨⟨rfl, -⟩, -⟩ := plainHead
    exact fits_replace fits (by simp [Lookahead.glance, doc, GroupModes.read]) rfl rfl plainNext

/-- A group is met that is measured, and it fits on the line when flat, with what follows it. -/
structure FitsFlat (context : RenderContext) (state : RenderState) (command : Command)
    (rest : List Command) (mark : Mark) (info : GroupInfo) (body : Doc) : Prop where
  group : command.doc = .group mark info body
  measured : command.mode = .broken ∨ state.remeasure = true
  free : context.breaks.isBroken mark info = false
  fits : context.fits state false (command.on .flat body :: rest) = true

theorem FitsFlat.pending_advance {mark : Mark} {info : GroupInfo} {body : Doc}
    (flat : context.FitsFlat state command rest mark info body) :
    (context.advance state command rest).pending = command.on .flat body :: rest := by
  have mode : context.groupMode state rest command mark info body = .flat := by
    unfold groupMode
    rcases flat.measured with broken | remeasure
    · simp [broken, flat.free, flat.fits]
    · simp [remeasure, flat.free, flat.fits]
  unfold advance renderStep
  rw [flat.group]
  dsimp only
  rw [openGroup_nil, mode]
  rfl

theorem FitsFlat.fitting_advance {mark : Mark} {info : GroupInfo} {body : Doc}
    (flat : context.FitsFlat state command rest mark info body)
    (plain : Command.AllPlain (command :: rest)) :
    context.Fitting (context.advance state command rest) := by
  refine ⟨allPlain_advance plain, ?_⟩
  have plainNext : Command.AllPlain (context.advance state command rest).pending :=
    allPlain_advance plain
  rw [flat.pending_advance] at plainNext ⊢
  have column : (context.advance state command rest).state.column = state.column := by
    unfold advance renderStep
    rw [flat.group]
    rfl
  rw [fits_eq_of_plain column rfl plainNext]
  exact flat.fits

/-! ### What is written on a line -/

theorem writeLineEndings_of_no_lineFeed {ending : LineEnding} {content : String}
    (clean : '\n' ∉ content.toList) : Text.writeLineEndings ending content = content := by
  have kept (cs : List Char) (clean : '\n' ∉ cs) :
      cs.flatMap (fun c => if c = '\n' then ending.text.toList else [c]) = cs := by
    induction cs with
    | nil => rfl
    | cons c cs ih =>
      have other : c ≠ '\n' := fun same => clean (same ▸ List.mem_cons_self)
      have cleanTail : '\n' ∉ cs := fun member => clean (List.mem_cons_of_mem _ member)
      rw [List.flatMap_cons, if_neg other, ih cleanTail, List.singleton_append]
  unfold Text.writeLineEndings
  split
  · rfl
  · rw [kept _ clean, String.ofList_toList]

theorem chars_advance (plain : command.doc.isPlain = true) (stays : command.breaksLine = false) :
    ∃ written, (context.advance state command rest).state.out.chars = state.out.chars ++ written ∧
      '\n' ∉ written := by
  unfold advance renderStep
  cases doc : command.doc <;> simp only [doc, Doc.isPlain, Bool.false_eq_true] at plain
  case text mark content =>
    have clean : '\n' ∉ content.toList := by simpa using plain
    refine ⟨content.toList, ?_, clean⟩
    simp only [writeText, writeLineEndings_of_no_lineFeed clean, Emitter.chars_emit]
  case line mark kind =>
    simp only [Command.breaksLine, doc, Bool.or_eq_false_iff, decide_eq_false_iff_not] at stays
    cases mode : command.mode with
    | broken => exact absurd mode stays.1
    | flat =>
      cases kind with
      | soft => exact ⟨[], (List.append_nil _).symm, List.not_mem_nil⟩
      | plain => exact ⟨[' '], Emitter.chars_emit .., by decide⟩
      | hard => exact absurd stays.2 (by decide)
      | literal => exact absurd stays.2 (by decide)
  all_goals exact ⟨[], (List.append_nil _).symm, List.not_mem_nil⟩

theorem StaysOnLine.chars_eq {first last : Moment} (line : context.StaysOnLine first last)
    (plain : Command.AllPlain first.pending) :
    ∃ written, last.state.out.chars = first.state.out.chars ++ written ∧ '\n' ∉ written := by
  induction line with
  | refl => exact ⟨[], (List.append_nil _).symm, List.not_mem_nil⟩
  | step stays _ ih =>
    obtain ⟨before, same, clean⟩ := chars_advance (plain _ List.mem_cons_self) stays
    obtain ⟨after, sameAfter, cleanAfter⟩ := ih (allPlain_advance plain)
    refine ⟨before ++ after, by rw [sameAfter, same, List.append_assoc], ?_⟩
    intro member
    rcases List.mem_append.mp member with member | member
    · exact clean member
    · exact cleanAfter member

/-- Once a measured group is laid out flat because it fits, no column of its line exceeds those
available, whatever is decided for the groups after it. The line lasts as long as no line feed is
written. -/
theorem column_le_of_fitsFlat {doc : Doc} (plain : doc.isPlain = true) (config : Config)
    (narrow : config.printWidth < maxColumns) (out : Emitter) {mark : Mark} {info : GroupInfo} {body : Doc} {later : Moment}
    (reached : Reaches ⟨config, doc.breaks⟩ (.start doc out) ⟨state, command :: rest⟩)
    (flat : FitsFlat ⟨config, doc.breaks⟩ state command rest mark info body)
    (line : StaysOnLine ⟨config, doc.breaks⟩
      (advance ⟨config, doc.breaks⟩ state command rest) later) :
    (advance ⟨config, doc.breaks⟩ state command rest).pending = command.on .flat body :: rest ∧
      later.state.column ≤ config.printWidth ∧
      ∃ written, later.state.out.chars =
        (advance ⟨config, doc.breaks⟩ state command rest).state.out.chars ++ written ∧
          '\n' ∉ written := by
  have plainPending : Command.AllPlain (command :: rest) :=
    reached.preserves (P := fun moment => Command.AllPlain moment.pending)
      (fun _ _ _ => allPlain_advance) (Command.allPlain_singleton plain)
  refine ⟨flat.pending_advance, ?_, line.chars_eq (allPlain_advance plainPending)⟩
  have fitting := line.preserves (P := Fitting ⟨config, doc.breaks⟩)
    (fun _ _ _ stays fitting => fitting_advance narrow fitting stays) (flat.fitting_advance plainPending)
  exact column_le_of_fitting narrow fitting

/-- The group of two words that `column_le_of_fitsFlat` is tried on. -/
def twoWords : Command :=
  ⟨.none, .broken, .group 1 ⟨none, false⟩ (.concat 2 [.text 3 "a", .line 4 .plain, .text 5 "b"])⟩

/-- The text that stays with the second word. -/
def wordTail : Command :=
  ⟨.none, .broken, .text 6 "cc"⟩

/-- Six columns hold the two words and the text after them. -/
theorem column_le_of_fitsFlat_twoWords :
    ∃ later : Moment, later.pending = [] ∧ later.state.column = 5 ∧ later.state.column ≤ 6 := by
  let doc : Doc := .concat 0 [twoWords.doc, wordTail.doc]
  let context : RenderContext := ⟨{ printWidth := 6 }, doc.breaks⟩
  have reached : context.Reaches (.start doc {}) ⟨{}, [twoWords, wordTail]⟩ := .step (.refl _)
  have free : context.breaks.isBroken 1 ⟨none, false⟩ = false := by
    simp [context, doc, twoWords, wordTail, Doc.breaks, Doc.walk, walk, Doc.children, BreakSet.isBroken,
      BreakSet.Search.visitor, BreakSet.Search.open', BreakSet.Search.close]
  have fits : context.fits {} false
      [twoWords.on .flat (.concat 2 [.text 3 "a", .line 4 .plain, .text 5 "b"]), wordTail] = true := by
    unfold RenderContext.fits
    refine Lookahead.fits_of_go rfl (by decide) (Lookahead.fits_of_go rfl (by decide)
      (Lookahead.fits_of_go rfl (by decide) (Lookahead.fits_of_go rfl (by decide)
        (Lookahead.fits_of_go rfl (by decide) ?_))))
    exact .trans Lookahead.fits_nil (by decide)
  have flat : context.FitsFlat {} twoWords [wordTail] 1 ⟨none, false⟩
      (.concat 2 [.text 3 "a", .line 4 .plain, .text 5 "b"]) := ⟨rfl, .inl rfl, free, fits⟩
  have opened : context.advance {} twoWords [wordTail] =
      ⟨(context.advance {} twoWords [wordTail]).state,
        [twoWords.on .flat (.concat 2 [.text 3 "a", .line 4 .plain, .text 5 "b"]), wordTail]⟩ := by
    rw [← flat.pending_advance]
  obtain ⟨later, line, ended, column⟩ : ∃ later,
      context.StaysOnLine (context.advance {} twoWords [wordTail]) later ∧
        later.pending = [] ∧ later.state.column = 5 := by
    rw [opened]
    exact ⟨_, .step rfl (.step rfl (.step rfl (.step rfl (.step rfl (.refl _))))), rfl, rfl⟩
  have bound := column_le_of_fitsFlat rfl { printWidth := 6 } (by decide) {} reached flat line
  exact ⟨later, ended, column, bound.2.1⟩

/-- Two tabs and a line that breaks softly. -/
def twoTabs : Doc :=
  .concat 2 [.text 3 "\t\t", .line 4 .soft, .text 5 ""]

theorem fits_twoTabs (breaks : BreakSet) :
    RenderContext.fits ⟨{ printWidth := maxColumns, tabWidth := maxColumns }, breaks⟩ {} false
      [⟨.none, .flat, twoTabs⟩] = true := by
  have whole : 0 ≤ (counted maxColumns : Int) - counted 0 := by decide
  have full : 0 ≤ (counted maxColumns : Int) - counted 0 -
      counted (Text.displayWidth "\t\t" ⟨maxColumns, .unicode⟩) := by decide
  have stillFull : 0 ≤ (counted maxColumns : Int) - counted 0 -
      counted (Text.displayWidth "\t\t" ⟨maxColumns, .unicode⟩) -
        counted (Text.displayWidth "" ⟨maxColumns, .unicode⟩) := by decide
  unfold RenderContext.fits
  refine Lookahead.fits_of_go rfl whole (Lookahead.fits_of_go rfl whole
    (Lookahead.fits_of_go rfl full (Lookahead.fits_of_go rfl full ?_)))
  exact .trans Lookahead.fits_nil (decide_eq_true stillFull)

/-- Two tabs of `maxColumns` columns take `maxColumns` columns for all that looking ahead knows, so they are laid out
flat on a line that has just these, and the line is too long. -/
theorem not_column_le_maxColumns : ¬∀ (doc : Doc) (config : Config) (out : Emitter) (state : RenderState)
    (command : Command) (rest : List Command) (mark : Mark) (info : GroupInfo) (body : Doc) (later : Moment),
    doc.isPlain = true → Reaches ⟨config, doc.breaks⟩ (.start doc out) ⟨state, command :: rest⟩ →
      FitsFlat ⟨config, doc.breaks⟩ state command rest mark info body →
      StaysOnLine ⟨config, doc.breaks⟩ (advance ⟨config, doc.breaks⟩ state command rest) later →
      later.state.column ≤ config.printWidth := by
  intro bound
  let doc : Doc := .group 1 ⟨none, false⟩ twoTabs
  let config : Config := { printWidth := maxColumns, tabWidth := maxColumns }
  let context : RenderContext := ⟨config, doc.breaks⟩
  let start : Command := ⟨.none, .broken, doc⟩
  have free : context.breaks.isBroken 1 ⟨none, false⟩ = false := by
    simp [context, doc, twoTabs, Doc.breaks, Doc.walk, walk, Doc.children, BreakSet.isBroken,
      BreakSet.Search.visitor, BreakSet.Search.open', BreakSet.Search.close]
  have flat : context.FitsFlat {} start [] 1 ⟨none, false⟩ twoTabs := ⟨rfl, .inl rfl, free, fits_twoTabs _⟩
  have opened : context.advance {} start [] =
      ⟨(context.advance {} start []).state, [start.on .flat twoTabs]⟩ := by
    rw [← flat.pending_advance]
  obtain ⟨later, line, column⟩ : ∃ later,
      context.StaysOnLine (context.advance {} start []) later ∧ later.state.column = 2 * maxColumns := by
    rw [opened]
    refine ⟨_, .step rfl (.step rfl (.refl _)), ?_⟩
    show 0 + Text.displayWidth "\t\t" config.ruler = 2 * maxColumns
    decide
  have narrow := bound doc config {} {} start [] 1 ⟨none, false⟩ twoTabs later rfl (.refl _) flat line
  rw [column] at narrow
  exact absurd narrow (by decide)

end RenderContext

end MarkupFormat.Layout
