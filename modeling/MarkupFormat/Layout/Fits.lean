import MarkupFormat.Layout.Breaks
import MarkupFormat.Layout.Indentation
import MarkupFormat.Text.Blank
import Std.Data.HashMap

/-!
# Looking ahead

Whether what is pending fits on the rest of a line, up to the first line that breaks. Nothing is
written while looking ahead.
-/

namespace MarkupFormat.Layout

/-- How a node is laid out: with its lines broken, or on one line. -/
inductive Mode where
  | broken
  | flat
  deriving DecidableEq, Repr, Inhabited

/-- How the groups rendered so far were laid out. A group not rendered yet counts as flat. -/
abbrev GroupModes := Std.HashMap GroupId Mode

/-- The mode that a reference reads: that of the group it names, or else the enclosing one. -/
def GroupModes.read (modes : GroupModes) (id : Option GroupId) (enclosing : Mode) : Mode :=
  match id with
  | some id => modes.getD id .flat
  | none => enclosing

/-- A node that waits to be rendered. A fill that is partly rendered waits as the fill of its
remaining parts. -/
structure Command where
  indentation : Indentation
  mode : Mode
  doc : Doc
  deriving Inhabited

namespace Command

/-- A bound on the work that commands cause. -/
def weights (commands : List Command) : Nat :=
  commands.foldr (fun command weight => command.doc.weight + weight) 0

@[simp]
theorem weights_nil : weights [] = 0 := rfl

@[simp]
theorem weights_cons (command : Command) (commands : List Command) :
    weights (command :: commands) = command.doc.weight + weights commands := rfl

@[simp]
theorem weights_append (commands more : List Command) :
    weights (commands ++ more) = weights commands + weights more := by
  induction commands with
  | nil => simp
  | cons command commands ih => simp [ih, Nat.add_assoc]

/-- The command for a node in the place of another. -/
def on (command : Command) (mode : Mode) (doc : Doc) : Command :=
  { command with mode := mode, doc := doc }

theorem weights_map_on (command : Command) (mode : Mode) (docs : List Doc) :
    weights (docs.map (command.on mode)) = Doc.weights docs := by
  induction docs with
  | nil => rfl
  | cons doc docs ih => simp [Doc.weights, on, ih]

end Command

/-- What looking ahead depends on besides what is pending. -/
structure Lookahead where
  config : Config
  breaks : BreakSet
  modes : GroupModes
  /-- Whether a group that is known to break does not fit. -/
  mustBeFlat : Bool

/-- The largest number of columns that is told apart from larger ones while looking ahead, where columns may be less
than none. -/
def maxColumns : Nat := UInt64.size / 2 - 1

/-- What a number of columns counts as while looking ahead. -/
def counted (columns : Nat) : Nat :=
  min columns maxColumns

/-- A line that is simulated: the columns left, and the bytes of blanks that end it. -/
structure Line where
  room : Int
  blanks : Nat := 0
  deriving DecidableEq, Repr, Inhabited

namespace Line

/-- The line with `s` written on it. -/
def write (config : Config) (line : Line) (s : String) : Line :=
  let blanks := (Text.takeEnd Text.isLineBlank s.toList).length
  { room := line.room - counted (Text.displayWidth s config.ruler)
    blanks := if blanks = s.toList.length then line.blanks + blanks else blanks }

end Line

/-- What looking at one node leads to. -/
inductive Glance where
  /-- The question is settled. -/
  | settled (fits : Bool)
  /-- Goes on with the line and with further nodes before those that are pending. -/
  | go (line : Line) (next : List Command)

namespace Lookahead

/-- Looks at one pending node. -/
def glance (look : Lookahead) (line : Line) (command : Command) : Glance :=
  match command.doc with
  | .text _ content => .go (line.write look.config content) []
  | .concat _ parts | .fill _ parts => .go line (parts.map (command.on command.mode))
  | .indent _ body | .align _ _ body | .indentIfBreak _ body _ _ | .label _ _ body =>
    .go line [command.on command.mode body]
  | .trim _ => .go { room := line.room + counted line.blanks, blanks := 0 } []
  | .group mark info body =>
    let broken := look.breaks.isBroken mark info
    if look.mustBeFlat && broken then .settled false
    else .go line [command.on (if broken then .broken else command.mode) body]
  | .choice mark info body first others =>
    let broken := look.breaks.isBroken mark info
    if look.mustBeFlat && broken then .settled false
    else if broken || command.mode = .broken then
      .go line [command.on .broken (others.getLastD first)]
    else .go line [command.on command.mode body]
  | .ifBreak _ broken flat id =>
    .go line [command.on command.mode
      (if look.modes.read id command.mode = .broken then broken else flat)]
  | .line _ kind =>
    if command.mode = .broken || kind.isHard then .settled true
    else if kind = .plain then .go { room := line.room - 1, blanks := line.blanks + 1 } []
    else .go line []
  | .breakParent _ => .go line []

theorem weight_getLastD_le (first : Doc) (others : List Doc) :
    (others.getLastD first).weight ≤ first.weight + Doc.weights others := by
  cases others with
  | nil => simp [Doc.weights]
  | cons doc docs =>
    have mem : (doc :: docs).getLastD first ∈ doc :: docs := by
      rw [List.getLastD_cons]; exact List.getLastD_mem_cons ..
    have := Doc.weight_le_weights mem
    omega

theorem weights_glance_lt {look : Lookahead} {line after : Line} {command : Command}
    {next : List Command} (h : look.glance line command = .go after next) :
    Command.weights next < command.doc.weight := by
  unfold glance at h
  cases hd : command.doc <;> simp only [hd] at h <;> (repeat' split at h) <;> cases h <;>
    simp only [Command.weights_map_on, Command.weights_cons, Command.weights_nil, Command.on,
      Doc.weight] <;> try omega
  case choice.isFalse.isTrue mark info body first others _ _ =>
    have := weight_getLastD_le first others
    omega

/-- Whether the pending commands fit on the line, up to its end. -/
def fits (look : Lookahead) (line : Line) (pending : List Command) : Bool :=
  if line.room < 0 then false
  else
    match pending with
    | [] => true
    | command :: rest =>
      match _h : look.glance line command with
      | .settled answer => answer
      | .go line next => look.fits line (next ++ rest)
  termination_by Command.weights pending
  decreasing_by
    have := weights_glance_lt _h
    simp only [Command.weights_append, Command.weights_cons]
    omega

end Lookahead

end MarkupFormat.Layout
