import MarkupFormat.Proofs.Layout.Continued
import MarkupFormat.Proofs.Layout.LineFit
import MarkupFormat.Proofs.Layout.Unbroken
import MarkupFormat.Proofs.Layout.Verbatim
import MarkupFormat.Proofs.Text.Characters

/-!
# Documents on one line

A document is level if no line in it is forced and none of its groups is known to break. Then looking ahead takes what
its columns count as off the line and goes on with what follows it (`exists_fits_level`). Documents that are made up of texts are
level, and rendering writes them as one text (`run_texts`).
-/

namespace MarkupFormat.Layout

open Text (Ordinary Ruler Within displayWidth totalColumns)

namespace Doc

mutual

/-- Whether a document is made up of texts, without groups around them. -/
def isTexts : Doc → Bool
  | text .. => true
  | concat _ parts => areTexts parts
  | _ => false

def areTexts : List Doc → Bool
  | [] => true
  | doc :: docs => doc.isTexts && areTexts docs

end

mutual

/-- Whether a document can stand on one line. -/
def isLevel (breaks : BreakSet) : Doc → Bool
  | text .. => true
  | concat _ parts | fill _ parts => areLevel breaks parts
  | indent _ body => body.isLevel breaks
  | group mark info body => !breaks.isBroken mark info && body.isLevel breaks
  | line _ kind => !kind.isHard
  | _ => false

def areLevel (breaks : BreakSet) : List Doc → Bool
  | [] => true
  | doc :: docs => doc.isLevel breaks && areLevel breaks docs

end

mutual

/-- The columns that a document takes on one line. -/
def levelWidth (ruler : Ruler) : Doc → Nat
  | text _ content => displayWidth content ruler
  | concat _ parts | fill _ parts => levelWidths ruler parts
  | indent _ body | group _ _ body => body.levelWidth ruler
  | line _ .plain => 1
  | _ => 0

def levelWidths (ruler : Ruler) : List Doc → Nat
  | [] => 0
  | doc :: docs => doc.levelWidth ruler + levelWidths ruler docs

end

mutual

theorem isLevel_of_isTexts {breaks : BreakSet} : ∀ doc : Doc, doc.isTexts = true → doc.isLevel breaks = true
  | text .., _ => rfl
  | concat _ parts, texts => areLevel_of_areTexts parts texts

theorem areLevel_of_areTexts {breaks : BreakSet} : ∀ docs : List Doc, areTexts docs = true → areLevel breaks docs = true
  | [], _ => rfl
  | doc :: docs, texts => by
    obtain ⟨here, behind⟩ := Bool.and_eq_true_iff.mp texts
    exact Bool.and_eq_true_iff.mpr ⟨isLevel_of_isTexts doc here, areLevel_of_areTexts docs behind⟩

end

mutual

theorem levelWidth_eq_totalColumns {ruler : Ruler} : ∀ doc : Doc, doc.isTexts = true → Within Ordinary doc.content →
    doc.levelWidth ruler = totalColumns ruler doc.content
  | text _ content, _, ordinary => by
    have columns := Text.displayWidth_eq_totalColumns ruler ordinary
    rwa [Doc.content, String.ofList_toList] at columns
  | concat _ parts, texts, ordinary => levelWidths_eq_totalColumns parts texts ordinary

theorem levelWidths_eq_totalColumns {ruler : Ruler} : ∀ docs : List Doc, areTexts docs = true →
    Within Ordinary (contents docs) → levelWidths ruler docs = totalColumns ruler (contents docs)
  | [], _, _ => rfl
  | doc :: docs, texts, ordinary => by
    obtain ⟨here, behind⟩ := Bool.and_eq_true_iff.mp texts
    obtain ⟨ordinaryHere, ordinaryBehind⟩ := List.forall_mem_append.mp ordinary
    rw [levelWidths, contents, Text.totalColumns_append, levelWidth_eq_totalColumns doc here ordinaryHere,
      levelWidths_eq_totalColumns docs behind ordinaryBehind]

end

end Doc

/-! ### Looking ahead -/

namespace Lookahead

variable {look : Lookahead}

theorem fits_narrower {line after : Line} {command : Command} {next rest : List Command}
    (seen : look.glance line command = .go after next) (less : after.room ≤ line.room) :
    look.fits line (command :: rest) = look.fits after (next ++ rest) := by
  rw [fits_go seen]
  by_cases room : 0 ≤ line.room
  · rw [decide_eq_true room, Bool.true_and]
  · rw [decide_eq_false room, Bool.false_and, eq_comm, Bool.eq_false_iff]
    exact fun fit => room (Int.le_trans (room_nonneg_of_fits fit) less)

theorem fits_leaf {line after : Line} {command : Command} {rest : List Command}
    (seen : look.glance line command = .go after []) (less : after.room ≤ line.room) :
    look.fits line (command :: rest) = look.fits after rest :=
  fits_narrower seen less

mutual

theorem exists_fits_level : ∀ (doc : Doc) (line : Line) (indentation : Indentation) (rest : List Command),
    doc.isLevel look.breaks = true → ∃ (after : Line) (count : Nat),
      Counts (doc.levelWidth look.config.ruler) count ∧ after.room = line.room - count ∧
        look.fits line (⟨indentation, .flat, doc⟩ :: rest) = look.fits after rest
  | .text mark content, line, indentation, rest, _ => by
    refine ⟨line.write look.config content, _, counts_counted _, rfl, fits_leaf rfl ?_⟩
    simp only [Line.write]
    omega
  | .concat mark parts, line, indentation, rest, level => by
    obtain ⟨after, count, counts, room, same⟩ := exists_fits_levels parts line ⟨indentation, .flat, .concat mark parts⟩ rest level
    exact ⟨after, count, counts, room, (fits_narrower rfl (Int.le_refl _)).trans same⟩
  | .fill mark parts, line, indentation, rest, level => by
    obtain ⟨after, count, counts, room, same⟩ := exists_fits_levels parts line ⟨indentation, .flat, .fill mark parts⟩ rest level
    exact ⟨after, count, counts, room, (fits_narrower rfl (Int.le_refl _)).trans same⟩
  | .indent mark body, line, indentation, rest, level => by
    obtain ⟨after, count, counts, room, same⟩ := exists_fits_level body line indentation rest level
    exact ⟨after, count, counts, room, (fits_narrower rfl (Int.le_refl _)).trans same⟩
  | .group mark info body, line, indentation, rest, level => by
    -- Looked at flat, a group stays flat unless it is known to break.
    obtain ⟨calm, isLevel⟩ := Bool.and_eq_true_iff.mp level
    have whole : look.breaks.isBroken mark info = false := by simpa using calm
    have seen : look.glance line ⟨indentation, .flat, .group mark info body⟩ =
        .go line [⟨indentation, .flat, body⟩] := by
      simp [glance, whole, Command.on]
    obtain ⟨after, count, counts, room, same⟩ := exists_fits_level body line indentation rest isLevel
    exact ⟨after, count, counts, room, (fits_narrower seen (Int.le_refl _)).trans same⟩
  | .line mark .plain, line, indentation, rest, _ => by
    refine ⟨{ room := line.room - 1, blanks := line.blanks + 1 }, 1, counts_self 1, rfl, fits_leaf rfl ?_⟩
    dsimp only
    omega
  | .line mark .soft, line, indentation, rest, _ =>
    ⟨line, 0, counts_self 0, (Int.sub_zero _).symm, fits_leaf rfl (Int.le_refl _)⟩

theorem exists_fits_levels : ∀ (docs : List Doc) (line : Line) (command : Command) (rest : List Command),
    Doc.areLevel look.breaks docs = true → ∃ (after : Line) (count : Nat),
      Counts (Doc.levelWidths look.config.ruler docs) count ∧ after.room = line.room - count ∧
        look.fits line (docs.map (command.on .flat) ++ rest) = look.fits after rest
  | [], line, command, rest, _ => ⟨line, 0, counts_self 0, (Int.sub_zero _).symm, rfl⟩
  | doc :: docs, line, command, rest, level => by
    obtain ⟨here, behind⟩ := Bool.and_eq_true_iff.mp level
    obtain ⟨middle, count, counts, room, first⟩ :=
      exists_fits_level doc line command.indentation (docs.map (command.on .flat) ++ rest) here
    obtain ⟨after, more, others, left, second⟩ := exists_fits_levels docs middle command rest behind
    refine ⟨after, count + more, counts.add others, ?_, first.trans second⟩
    rw [left, room]
    omega

end

theorem fits_forcedLine {line : Line} {indentation : Indentation} {mode : Mode} {mark lineMark breakMark : Mark}
    {rest : List Command} :
    look.fits line (⟨indentation, mode, .concat mark [.line lineMark .hard, .breakParent breakMark]⟩ :: rest) =
      decide (0 ≤ line.room) := by
  have settled : look.glance line ⟨indentation, mode, .line lineMark .hard⟩ = .settled true := by
    simp [glance, LineKind.isHard]
  rw [fits_narrower rfl (Int.le_refl _)]
  exact (fits_settled settled).trans (Bool.and_true _)

end Lookahead

/-! ### Rendering -/

namespace Emitter

theorem emit_emit (out : Emitter) (s t : String) : (out.emit s).emit t = out.emit (s ++ t) := by
  simp [emit, List.reverseAux_eq]

end Emitter

/-- The state after a text of some columns. -/
def RenderState.wrote (state : RenderState) (cs : List Char) (columns : Nat) : RenderState :=
  { state with out := state.out.emit (String.ofList cs), column := state.column + columns }

namespace RenderState

variable (state : RenderState) (cs ds : List Char) (columns more : Nat)

theorem wrote_wrote : (state.wrote cs columns).wrote ds more = state.wrote (cs ++ ds) (columns + more) := by
  simp only [wrote, Emitter.emit_emit, String.ofList_append, Nat.add_assoc]

@[simp]
theorem chars_wrote : (state.wrote cs columns).out.chars = state.out.chars ++ cs := by
  simp [wrote]

@[simp]
theorem column_wrote : (state.wrote cs columns).column = state.column + columns := rfl

end RenderState

namespace RenderContext

variable {context : RenderContext} {state : RenderState}

/-- What is level fits if its columns do, given that nothing after it takes columns. -/
theorem fits_level {doc : Doc} (level : doc.isLevel context.breaks = true)
    (told : context.config.Tells (state.column + doc.levelWidth context.config.ruler)) (mustBeFlat : Bool)
    (indentation : Indentation) {rest : List Command}
    (ends : ∀ (look : Lookahead) (line : Line), look.fits line rest = decide (0 ≤ line.room)) :
    context.fits state mustBeFlat (⟨indentation, .flat, doc⟩ :: rest) =
      decide (state.column + doc.levelWidth context.config.ruler ≤ context.config.printWidth) := by
  obtain ⟨after, count, counts, room, same⟩ :=
    @Lookahead.exists_fits_level ⟨context.config, context.breaks, state.modes, mustBeFlat⟩ doc
      { room := context.room state } indentation rest level
  unfold RenderContext.fits
  rw [same, ends, room, decide_eq_decide]
  exact counts.room_iff told

theorem fits_levels {docs : List Doc} (level : Doc.areLevel context.breaks docs = true)
    (told : context.config.Tells (state.column + Doc.levelWidths context.config.ruler docs)) (mustBeFlat : Bool)
    (command : Command) :
    context.fits state mustBeFlat (docs.map (command.on .flat)) =
      decide (state.column + Doc.levelWidths context.config.ruler docs ≤ context.config.printWidth) := by
  obtain ⟨after, count, counts, room, same⟩ :=
    @Lookahead.exists_fits_levels ⟨context.config, context.breaks, state.modes, mustBeFlat⟩ docs
      { room := context.room state } command [] level
  rw [List.append_nil] at same
  unfold RenderContext.fits
  rw [same, Lookahead.fits_nil, room, decide_eq_decide]
  exact counts.room_iff told

mutual

/-- Texts are written one after the other. -/
theorem run_texts : ∀ (doc : Doc) (state : RenderState) (indentation : Indentation) (mode : Mode)
    (rest : List Command), doc.isTexts = true → '\n' ∉ doc.content →
    context.run state (⟨indentation, mode, doc⟩ :: rest) =
      context.run (state.wrote doc.content (doc.levelWidth context.config.ruler)) rest
  | .text mark content, state, indentation, mode, rest, _, clean => by
    have written : context.writeText state content =
        state.wrote content.toList (displayWidth content context.config.ruler) := by
      rw [writeText, writeLineEndings_of_no_lineFeed clean, RenderState.wrote, String.ofList_toList]
    exact (run_eq_of_reaches (.step (.refl _))).trans (congrArg (context.run · rest) written)
  | .concat mark parts, state, indentation, mode, rest, texts, clean =>
    (run_eq_of_reaches (.step (.refl _))).trans
      (run_allTexts parts state ⟨indentation, mode, .concat mark parts⟩ mode rest texts clean)

theorem run_allTexts : ∀ (docs : List Doc) (state : RenderState) (command : Command) (mode : Mode)
    (rest : List Command), Doc.areTexts docs = true → '\n' ∉ Doc.contents docs →
    context.run state (docs.map (command.on mode) ++ rest) =
      context.run (state.wrote (Doc.contents docs) (Doc.levelWidths context.config.ruler docs)) rest
  | [], state, command, mode, rest, _, _ => rfl
  | doc :: docs, state, command, mode, rest, texts, clean => by
    obtain ⟨here, behind⟩ := Bool.and_eq_true_iff.mp texts
    rw [Doc.contents, List.mem_append, not_or] at clean
    rw [Doc.contents, Doc.levelWidths, ← RenderState.wrote_wrote, List.map_cons, List.cons_append,
      ← run_allTexts docs _ command mode rest behind clean.2]
    exact run_texts doc state command.indentation mode _ here clean.1

end

end RenderContext

end MarkupFormat.Layout
