import Mathlib.Data.List.Basic
import MarkupFormat.Proofs.Layout.Relabelled
import MarkupFormat.Proofs.Layout.Stripped

/-!
# Lines at the end of a rendering

A document of texts within lines, forced lines and wrappers has leaves, and the last of them that writes anything tells
whether what is rendered ends a line. Stripping such a document takes away the very last leaf if this is a forced line.
`endsWithLine_stripFinalLine` says what this comes to: a line stays at the end where another one stood before it, or an
empty text or concatenation after it.
-/

namespace MarkupFormat.Text

/-- Whether a text ends a line, blanks after this aside. -/
def endsWithLine (cs : List Char) : Bool :=
  (dropEnd isLineBlank cs).getLast?.any fun c => c = '\n' || c = '\r'

/-- Whether a text is a part of one line and ends with nothing that a layout may add. -/
def isWithinLine (cs : List Char) : Bool :=
  cs.all (· ≠ '\n') && cs.getLast?.all fun c => !isLayoutSpace c

variable {cs ds : List Char} {c : Char}

theorem endsWithLine_append_blank (blank : ds.all isLineBlank = true) : endsWithLine (cs ++ ds) = endsWithLine cs := by
  unfold endsWithLine dropEnd
  rw [List.reverse_append, List.dropWhile_append_of_pos]
  intro c member
  exact List.all_eq_true.mp blank c (List.mem_reverse.mp member)

theorem endsWithLine_concat (solid : isLineBlank c = false) : endsWithLine (cs ++ [c]) = (c = '\n' || c = '\r') := by
  unfold endsWithLine
  rw [dropEnd_concat solid, List.getLast?_concat, Option.any_some]

theorem endsWithLine_lineEnding (ending : LineEnding) : endsWithLine (cs ++ ending.text.toList) = true := by
  cases ending with
  | lf | auto => exact endsWithLine_concat (c := '\n') rfl
  | cr => exact endsWithLine_concat (c := '\r') rfl
  | crlf =>
    rw [show LineEnding.crlf.text.toList = ['\r'] ++ ['\n'] from rfl, ← List.append_assoc]
    exact endsWithLine_concat (c := '\n') rfl

theorem exists_last_of_isWithinLine (within : isWithinLine cs = true) (some : cs ≠ []) :
    ∃ before c, cs = before ++ [c] ∧ isLayoutSpace c = false := by
  obtain ⟨before, c, rfl⟩ := (List.eq_nil_or_concat' cs).resolve_left some
  refine ⟨before, c, rfl, ?_⟩
  rw [isWithinLine, Bool.and_eq_true, List.getLast?_concat, Option.all_some, Bool.not_eq_true'] at within
  exact within.2

theorem writtenChars_of_isWithinLine (ending : LineEnding) (within : isWithinLine cs = true) :
    writtenChars ending cs = cs := by
  rw [isWithinLine, Bool.and_eq_true, List.all_eq_true] at within
  exact writtenChars_of_not_mem ending fun member => of_decide_eq_true (within.1 '\n' member) rfl

theorem endsWithLine_of_isWithinLine (within : isWithinLine cs = true) (some : cs ≠ []) :
    endsWithLine (ds ++ cs) = false := by
  obtain ⟨before, c, rfl, solid⟩ := exists_last_of_isWithinLine within some
  rw [isLayoutSpace, Bool.or_eq_false_iff, Bool.or_eq_false_iff] at solid
  rw [← List.append_assoc, endsWithLine_concat solid.1.1, solid.1.2, solid.2]
  rfl

theorem trimEnd_of_isWithinLine {s : String} (within : isWithinLine s.toList = true) :
    trimEnd (fun c => c = '\n' || c = '\r') s = s := by
  rw [trimEnd, ← String.toList_inj, String.toList_ofList]
  by_cases nothing : s.toList = []
  · rw [nothing]
    rfl
  · obtain ⟨before, c, same, solid⟩ := exists_last_of_isWithinLine within nothing
    rw [isLayoutSpace, Bool.or_eq_false_iff, Bool.or_eq_false_iff] at solid
    rw [same, dropEnd_concat]
    rw [solid.1.2, solid.2]
    rfl

end MarkupFormat.Text

namespace MarkupFormat.Layout

open Text (endsWithLine isLineBlank isWithinLine writtenChars)

/-! ### Leaves -/

/-- Whether what is aligned is moved by blanks alone. -/
def AlignKind.isBlank : AlignKind → Bool
  | text _ => false
  | _ => true

/-- What a document is made up of, in order. -/
inductive Leaf where
  /-- An empty text or concatenation. -/
  | nothing
  | text
  /-- A forced line. -/
  | line
  deriving DecidableEq, Repr

namespace Leaf

/-- The leaf that stays of the last one: a line is taken away. -/
def unlined : Leaf → Leaf
  | line => nothing
  | leaf => leaf

/-- The leaves without the very last one if this is a line. -/
def unlinedLast (leaves : List Leaf) : List Leaf :=
  leaves.dropLast ++ leaves.getLast?.toList.map unlined

/-- The last leaf that writes anything. -/
def last? (leaves : List Leaf) : Option Leaf :=
  (leaves.filter (· ≠ nothing)).getLast?

variable {leaves more : List Leaf}

theorem unlinedLast_append (some : more ≠ []) : unlinedLast (leaves ++ more) = leaves ++ unlinedLast more := by
  unfold unlinedLast
  rw [List.dropLast_append_of_ne_nil some, List.getLast?_append_of_ne_nil leaves some, List.append_assoc]

theorem last?_append : last? (leaves ++ more) = (last? more).or (last? leaves) := by
  unfold last?
  rw [List.filter_append, List.getLast?_append]

end Leaf

namespace Doc

mutual

/-- Whether a document consists of texts within lines and forced lines, in wrappers and with admitted alignments. -/
def isLined (admits : AlignKind → Bool) : Doc → Bool
  | text _ content => isWithinLine content.toList
  | concat _ parts => isForcedLine parts || areLined admits parts
  | align _ kind body => admits kind && body.isLined admits
  | indent _ body | group _ _ body | label _ _ body => body.isLined admits
  | _ => false

def areLined (admits : AlignKind → Bool) : List Doc → Bool
  | [] => true
  | doc :: docs => doc.isLined admits && areLined admits docs

end

mutual

/-- The leaves of a document in order. -/
def leaves : Doc → List Leaf
  | text _ content => [if content = "" then .nothing else .text]
  | concat _ [] => [.nothing]
  | concat _ (part :: parts) =>
    if isForcedLine (part :: parts) then [.line] else part.leaves ++ leavesAll parts
  | indent _ body | align _ _ body | group _ _ body | label _ _ body => body.leaves
  | _ => [.nothing]

def leavesAll : List Doc → List Leaf
  | [] => []
  | doc :: docs => doc.leaves ++ leavesAll docs

end

variable {admits : AlignKind → Bool} {doc last made inner : Doc} {docs more parts before : List Doc}
  {fresh : Mark → Prop}

theorem areLined_append : areLined admits (docs ++ more) = (areLined admits docs && areLined admits more) := by
  induction docs with
  | nil => rfl
  | cons doc docs ih => simp only [List.cons_append, areLined, ih, Bool.and_assoc]

theorem leavesAll_append : leavesAll (docs ++ more) = leavesAll docs ++ leavesAll more := by
  induction docs with
  | nil => rfl
  | cons doc docs ih => simp only [List.cons_append, leavesAll, ih, List.append_assoc]

theorem leavesAll_concat : leavesAll (before ++ [last]) = leavesAll before ++ last.leaves := by
  rw [leavesAll_append, leavesAll, leavesAll, List.append_nil]

theorem isForcedLine_of_areLined (lined : areLined admits parts = true) : isForcedLine parts = false := by
  unfold isForcedLine
  split
  · cases lined
  · rfl

theorem leaves_concat {mark : Mark} (lined : areLined admits parts = true) (some : parts ≠ []) :
    (concat mark parts).leaves = leavesAll parts := by
  cases parts with
  | nil => exact absurd rfl some
  | cons part parts =>
    rw [leaves, isForcedLine_of_areLined lined]
    rfl

theorem leaves_ne_nil : ∀ doc : Doc, doc.leaves ≠ []
  | text .. | concat _ [] | fill .. | line .. | breakParent _ | trim _ | choice .. | ifBreak .. | indentIfBreak .. =>
    List.cons_ne_nil _ _
  | concat _ (part :: parts) => by
    rw [leaves]
    split
    · exact List.cons_ne_nil _ _
    · exact List.append_ne_nil_of_left_ne_nil (leaves_ne_nil part) _
  | indent _ body | align _ _ body | group _ _ body | label _ _ body => leaves_ne_nil body

/-! ### Leaves without the last line -/

theorem keptParts_of_areLined (lined : areLined admits parts = true) : keptParts parts = parts.length := by
  have whole : dropForcedLines parts.reverse = parts.reverse := by
    rcases List.eq_nil_or_concat' parts with rfl | ⟨before, last, rfl⟩
    · rfl
    · rw [areLined_append, Bool.and_eq_true, areLined, Bool.and_eq_true] at lined
      rw [List.reverse_concat]
      cases last with
      | breakParent => cases lined.2.1
      | _ => rfl
  rw [keptParts, whole, List.length_reverse]

/-- A stripped document is one of the same kind, without the very last of its leaves if this is a line. -/
theorem leaves_stripped (strips : doc.Strips fresh made) (lined : doc.isLined admits = true) :
    made.isLined admits = true ∧ made.leaves = Leaf.unlinedLast doc.leaves := by
  induction strips with
  | @text _ _ content =>
    have within : isWithinLine content.toList = true := lined
    rw [Text.trimEnd_of_isWithinLine within]
    refine ⟨within, ?_⟩
    rw [leaves, leaves]
    split
    · rfl
    · rfl
  | line | breakParent | trim | fillEmpty | fill | choice | ifBreak | indentIfBreak => cases lined
  | @concatEmpty mark _ parts _ kept =>
    refine ⟨rfl, ?_⟩
    rw [isLined, Bool.or_eq_true] at lined
    cases parts with
    | nil => rfl
    | cons part parts =>
      rcases lined with forced | lined
      · rw [leaves, leaves, if_pos forced]
        rfl
      · rw [keptParts_of_areLined lined] at kept
        cases kept
  | @concat mark _ parts before last inner _ kept _ ih =>
    rw [isLined, Bool.or_eq_true] at lined
    rcases lined with forced | lined
    · rw [keptParts_of_isForcedLine forced] at kept
      exact absurd kept.symm (List.append_ne_nil_of_right_ne_nil _ (List.cons_ne_nil _ _))
    · rw [keptParts_of_areLined lined, List.take_length] at kept
      subst kept
      have some (last : Doc) : before ++ [last] ≠ [] := List.append_ne_nil_of_right_ne_nil _ (List.cons_ne_nil _ _)
      have both := lined
      rw [areLined_append, Bool.and_eq_true, areLined, Bool.and_eq_true] at both
      obtain ⟨linedInner, same⟩ := ih both.2.1
      have linedMade : areLined admits (before ++ [inner]) = true := by
        rw [areLined_append, both.1, areLined, linedInner]
        rfl
      refine ⟨?_, ?_⟩
      · rw [isLined, linedMade, Bool.or_true]
      · rw [leaves_concat linedMade (some inner), leaves_concat lined (some last), leavesAll_concat, leavesAll_concat,
          Leaf.unlinedLast_append (leaves_ne_nil last), same]
  | indent _ _ ih | group _ _ ih | label _ _ ih => exact ih lined
  | align _ _ ih =>
    rw [isLined, Bool.and_eq_true] at lined
    obtain ⟨linedInner, same⟩ := ih lined.2
    exact ⟨by rw [isLined, lined.1, linedInner]; rfl, same⟩

end Doc

/-! ### What the leaves write -/

/-- Whether a text ends as the leaf does. A line is certain to end one only where it is followed by blanks alone. -/
def Leaf.Ends (blank : Prop) (text : List Char) : Leaf → Prop
  | .line => blank → endsWithLine text = true
  | _ => endsWithLine text = false

/-- What leaves make of a text that is written: it ends as the last of them does that writes anything. -/
def Leaf.Make (blank : Prop) (leaves : List Leaf) (before after : List Char) : Prop :=
  match last? leaves with
  | some leaf => leaf.Ends blank after
  | none => after = before

theorem Leaf.Make.append {blank : Prop} {leaves more : List Leaf} {before between after : List Char}
    (first : Make blank leaves before between) (second : Make blank more between after) :
    Make blank (leaves ++ more) before after := by
  unfold Make at *
  rw [last?_append]
  cases last : last? more with
  | some leaf =>
    rw [last] at second
    rwa [Option.some_or]
  | none =>
    rw [last] at second
    rwa [second, Option.none_or]

namespace RenderContext

variable {context : RenderContext} {state : RenderState} {rest : List Command} {blank : Prop}

/-- Leaves are written after what was. -/
def Lays (context : RenderContext) (blank : Prop) (state : RenderState) (pending rest : List Command)
    (leaves : List Leaf) : Prop :=
  ∃ after, context.Reaches ⟨state, pending⟩ ⟨after, rest⟩ ∧ Leaf.Make blank leaves state.out.chars after.out.chars

theorem Lays.step {command : Command} {leaves : List Leaf}
    (lays : context.Lays blank (context.advance state command rest).state
      (context.advance state command rest).pending rest leaves)
    (same : (context.advance state command rest).state.out = state.out) :
    context.Lays blank state (command :: rest) rest leaves := by
  obtain ⟨after, reached, make⟩ := lays
  rw [same] at make
  exact ⟨after, .step reached, make⟩

theorem Lays.append {pending between : List Command} {leaves more : List Leaf}
    (first : context.Lays blank state pending between leaves)
    (second : ∀ after, context.Lays blank after between rest more) :
    context.Lays blank state pending rest (leaves ++ more) := by
  obtain ⟨middle, reached, make⟩ := first
  obtain ⟨after, later, makeMore⟩ := second middle
  exact ⟨after, reached.trans later, make.append makeMore⟩

theorem endsWithLine_breakLine {kind : LineKind} {indentation : Indentation} (blank : indentation.Blank) :
    endsWithLine (context.breakLine state kind indentation).out.chars = true := by
  unfold breakLine
  dsimp only
  split
  · cases root : indentation.root with
    | none =>
      rw [Emitter.newline, Emitter.chars_emit]
      exact Text.endsWithLine_lineEnding _
    | some outer =>
      rw [Emitter.newline, Emitter.chars_emit, Emitter.chars_emit,
        Text.endsWithLine_append_blank (blank.root root).written]
      exact Text.endsWithLine_lineEnding _
  · rw [Emitter.newline, Emitter.chars_emit, Emitter.chars_emit, Text.endsWithLine_append_blank blank.written]
    exact Text.endsWithLine_lineEnding _

theorem endsWithLine_writeLine {kind : LineKind} {indentation : Indentation} {mode : Mode} (hard : kind.isHard = true)
    (blank : indentation.Blank) : endsWithLine (context.writeLine state kind indentation mode).out.chars = true := by
  unfold writeLine
  split
  · cases hard
  · cases hard
  · exact endsWithLine_breakLine blank
  · exact endsWithLine_breakLine blank

theorem lays_text {mark : Mark} {content : String} {indentation : Indentation} {mode : Mode}
    (within : isWithinLine content.toList = true) :
    context.Lays blank state (⟨indentation, mode, .text mark content⟩ :: rest) rest (Doc.text mark content).leaves := by
  refine ⟨context.writeText state content, .step (.refl _), ?_⟩
  unfold writeText
  rw [Emitter.chars_emit, Text.toList_writeLineEndings, Text.writtenChars_of_isWithinLine _ within, Doc.leaves]
  by_cases empty : content = ""
  · rw [if_pos empty, empty]
    exact List.append_nil _
  · rw [if_neg empty]
    exact Text.endsWithLine_of_isWithinLine within fun nothing => empty (String.toList_inj.mp nothing)

theorem lays_forcedLine {mark lineMark breakMark : Mark} {kind : LineKind} {indentation : Indentation} {mode : Mode}
    (hard : kind.isHard = true) (around : blank → indentation.Blank) :
    context.Lays blank state (⟨indentation, mode, .concat mark [.line lineMark kind, .breakParent breakMark]⟩ :: rest)
      rest [.line] :=
  ⟨context.writeLine state kind indentation mode, .step (.step (.step (.refl _))), fun here =>
    endsWithLine_writeLine hard (around here)⟩

variable {admits : AlignKind → Bool}

mutual

theorem lays_lined : ∀ (doc : Doc) (state : RenderState) (indentation : Indentation) (mode : Mode)
    (rest : List Command), doc.isLined admits = true →
    (blank → doc.isLined AlignKind.isBlank = true ∧ indentation.Blank) →
    context.Lays blank state (⟨indentation, mode, doc⟩ :: rest) rest doc.leaves
  | .text mark content, state, indentation, mode, rest, lined, _ => lays_text lined
  | .concat mark [], state, indentation, mode, rest, _, _ => ⟨state, .step (.refl _), rfl⟩
  | .concat mark (part :: parts), state, indentation, mode, rest, lined, around => by
    rw [Doc.isLined, Bool.or_eq_true] at lined
    rw [Doc.leaves]
    split
    · next forced =>
      obtain ⟨lineMark, kind, breakMark, same, hard⟩ := Doc.exists_of_isForcedLine forced
      rw [same]
      exact lays_forcedLine hard fun here => (around here).2
    · next flowing =>
      have aligned (here : blank) := (around here).1
      simp only [Doc.isLined, flowing, Bool.false_or] at aligned
      exact .step (laysAll_lined (part :: parts) state ⟨indentation, mode, .concat mark (part :: parts)⟩ mode rest
        (lined.resolve_left flowing) fun here => ⟨aligned here, (around here).2⟩) rfl
  | .group mark info body, state, indentation, mode, rest, lined, around => by
    obtain ⟨chosen, same⟩ := chosen_openGroup context state rest
      ⟨indentation, mode, .group mark info body⟩ mark info body
    refine .step ?_ rfl
    show context.Lays blank (context.openGroup state rest _ mark info body []).1
      ((context.openGroup state rest _ mark info body []).2 :: rest) rest body.leaves
    rw [same]
    exact lays_lined body _ indentation chosen rest lined around
  | .indent mark body, state, indentation, mode, rest, lined, around =>
    .step (lays_lined body state _ mode rest lined fun here =>
      ⟨(around here).1, Indentation.blank_indent (around here).2⟩) rfl
  | .align mark kind body, state, indentation, mode, rest, lined, around => by
    rw [Doc.isLined, Bool.and_eq_true] at lined
    refine .step (lays_lined body state _ mode rest lined.2 fun here => ?_) rfl
    have aligned := (around here).1
    rw [Doc.isLined, Bool.and_eq_true] at aligned
    refine ⟨aligned.2, Indentation.blank_align (around here).2 ?_⟩
    rintro content rfl
    cases aligned.1
  | .label mark name body, state, indentation, mode, rest, lined, around =>
    .step (lays_lined body state indentation mode rest lined around) rfl
  | .choice .., _, _, _, _, lined, _ | .fill .., _, _, _, _, lined, _ | .line .., _, _, _, _, lined, _
  | .breakParent .., _, _, _, _, lined, _ | .ifBreak .., _, _, _, _, lined, _
  | .indentIfBreak .., _, _, _, _, lined, _ | .trim .., _, _, _, _, lined, _ => nomatch lined

theorem laysAll_lined : ∀ (docs : List Doc) (state : RenderState) (command : Command) (mode : Mode)
    (rest : List Command), Doc.areLined admits docs = true →
    (blank → Doc.areLined AlignKind.isBlank docs = true ∧ command.indentation.Blank) →
    context.Lays blank state (docs.map (command.on mode) ++ rest) rest (Doc.leavesAll docs)
  | [], state, command, mode, rest, _, _ => ⟨state, .refl _, rfl⟩
  | doc :: docs, state, command, mode, rest, lined, around => by
    simp only [Doc.areLined, Bool.and_eq_true] at lined around
    exact (lays_lined doc state command.indentation mode _ lined.1 fun here =>
      ⟨(around here).1.1, (around here).2⟩).append fun after =>
        laysAll_lined docs after command mode rest lined.2 fun here => ⟨(around here).1.2, (around here).2⟩

end

end RenderContext

namespace Doc

theorem make_render {admits : AlignKind → Bool} {doc : Doc} (lined : doc.isLined admits = true) (config : Config) :
    Leaf.Make (doc.isLined AlignKind.isBlank = true) doc.leaves [] (doc.render config).toList := by
  have lays : RenderContext.Lays ⟨config, doc.breaks⟩ (doc.isLined AlignKind.isBlank = true) {}
      [⟨.none, .broken, doc⟩] [] doc.leaves :=
    RenderContext.lays_lined doc {} .none .broken [] lined fun blank => ⟨blank, Indentation.blank_none⟩
  obtain ⟨after, reached, make⟩ := lays
  have last := RenderContext.run_eq_of_reaches reached
  rw [RenderContext.run] at last
  unfold render renderInto Emitter.text
  rw [String.toList_ofList, last]
  exact make

/-- A document of texts within lines, forced lines and wrappers is stripped, and what is rendered of the result ends a
line only if a line is the last thing that is written when the very last leaf is taken away if it is a line. It does
then, unless texts are used for alignment. -/
theorem endsWithLine_stripFinalLine {doc : Doc} (lined : doc.isLined (fun _ => true) = true) (supply : Supply) :
    ∃ stripped after, doc.stripFinalLine.run supply = .ok (stripped, after) ∧ ∀ config,
      (endsWithLine (stripped.render config).toList = true → Leaf.last? (Leaf.unlinedLast doc.leaves) = some .line) ∧
        (doc.isLined AlignKind.isBlank = true → Leaf.last? (Leaf.unlinedLast doc.leaves) = some .line →
          endsWithLine (stripped.render config).toList = true) := by
  obtain ⟨stripped, after, ran, -, strips⟩ := strips_stripFinalLine doc supply (Nat.le_refl supply.mark)
  obtain ⟨linedStripped, same⟩ := leaves_stripped strips lined
  refine ⟨stripped, after, ran, fun config => ?_⟩
  have make := make_render linedStripped config
  rw [same, Leaf.Make] at make
  constructor
  · intro ends
    split at make
    · next leaf last =>
      cases leaf with
      | line => exact last
      | text | nothing => cases (show endsWithLine _ = false from make).symm.trans ends
    · rw [make] at ends
      cases ends
  · intro blank last
    rw [last] at make
    exact make (leaves_stripped strips blank).1

end Doc

/-- A word and two forced lines. -/
def wordAndLines : Doc :=
  .concat 3 [.text 4 "a", forcedLine, forcedLine]

/-- One of the lines stays. -/
theorem endsWithLine_stripFinalLine_wordAndLines : wordAndLines.isLined (fun _ => true) = true ∧
    ∃ stripped after, wordAndLines.stripFinalLine.run ⟨5, 1⟩ = .ok (stripped, after) ∧
      ∀ config, endsWithLine (stripped.render config).toList = true := by
  have lined : wordAndLines.isLined (fun _ => true) = true := by decide
  obtain ⟨stripped, after, ran, ends⟩ := Doc.endsWithLine_stripFinalLine lined ⟨5, 1⟩
  exact ⟨lined, stripped, after, ran, fun config => (ends config).2 (by decide) (by decide)⟩

end MarkupFormat.Layout
