import MarkupFormat.Proofs.Layout.CurrentColumn
import MarkupFormat.Proofs.Layout.Sharing
import MarkupFormat.Proofs.Layout.Unbroken

/-!
# Flat groups

A simple document has lines that may break but need not, so it has a flat text. `render_group_and_choice` says that a
group around it is rendered as this text exactly if it fits on the line, and broken otherwise, and that of several
alternatives the first one is taken whose flat text fits. Both are so of the numbers of columns that looking ahead tells
apart (`Config.Tells`); `not_render_group_of_twoTabs` is about others.
-/

namespace MarkupFormat.Layout

open Text (Ruler displayWidth isLineBlank writtenChars)

namespace Doc

/-! ### Simple documents -/

mutual

/-- Whether nothing in a document forces a break or depends on how a named group was laid out. -/
def isSimple : Doc → Bool
  | text .. => true
  | concat _ parts => areSimple parts
  | indent _ body | align _ _ body | label _ _ body => body.isSimple
  | group _ info body => !info.mustBreak && body.isSimple
  | line _ kind => !kind.isHard
  | ifBreak _ broken flat none => broken.isSimple && flat.isSimple
  | _ => false

def areSimple : List Doc → Bool
  | [] => true
  | doc :: docs => doc.isSimple && areSimple docs

end

mutual

/-- The texts that a document is laid out as when it is flat. -/
def flatPieces : Doc → List String
  | text _ content => [content]
  | concat _ parts => flatPiecesAll parts
  | indent _ body | align _ _ body | group _ _ body | label _ _ body => body.flatPieces
  | line _ .plain => [" "]
  | ifBreak _ _ flat _ => flat.flatPieces
  | _ => []

def flatPiecesAll : List Doc → List String
  | [] => []
  | doc :: docs => doc.flatPieces ++ flatPiecesAll docs

end

def flatText (doc : Doc) : String :=
  String.join doc.flatPieces

/-- The columns that several texts take. -/
def widths (ruler : Ruler) (pieces : List String) : Nat :=
  pieces.foldr (fun piece columns => displayWidth piece ruler + columns) 0

def flatWidth (ruler : Ruler) (doc : Doc) : Nat :=
  widths ruler doc.flatPieces

/-- What looking ahead counts the columns of several texts as. -/
def countedWidths (ruler : Ruler) (pieces : List String) : Nat :=
  pieces.foldr (fun piece columns => counted (displayWidth piece ruler) + columns) 0

mutual

/-- The nodes directly in a node that is laid out broken, in order. Of a node with a body for a broken group these are
those of that body. -/
def brokenNodes : Doc → List Doc
  | concat _ parts => brokenNodesAll parts
  | indent _ body | align _ _ body | indentIfBreak _ body _ _ | label _ _ body => body.brokenNodes
  | ifBreak _ broken _ none => broken.brokenNodes
  | doc => [doc]

def brokenNodesAll : List Doc → List Doc
  | [] => []
  | doc :: docs => doc.brokenNodes ++ brokenNodesAll docs

end

variable {doc child node : Doc}

theorem areSimple_iff {docs : List Doc} : areSimple docs = true ↔ ∀ doc ∈ docs, doc.isSimple = true := by
  induction docs with
  | nil => simp [areSimple]
  | cons doc docs ih => rw [areSimple, Bool.and_eq_true, ih, List.forall_mem_cons]

theorem flatPiecesAll_eq_flatMap (docs : List Doc) : flatPiecesAll docs = docs.flatMap flatPieces := by
  induction docs with
  | nil => rfl
  | cons doc docs ih => rw [flatPiecesAll, ih, List.flatMap_cons]

theorem countedWidths_append (ruler : Ruler) (pieces more : List String) :
    countedWidths ruler (pieces ++ more) = countedWidths ruler pieces + countedWidths ruler more := by
  induction pieces with
  | nil => simp [countedWidths]
  | cons piece pieces ih =>
    unfold countedWidths at ih ⊢
    rw [List.cons_append, List.foldr_cons, List.foldr_cons, ih, Nat.add_assoc]

theorem counts_countedWidths (ruler : Ruler) (pieces : List String) :
    Counts (widths ruler pieces) (countedWidths ruler pieces) := by
  induction pieces with
  | nil => exact counts_self 0
  | cons piece pieces ih => exact (counts_counted _).add ih

theorem brokenNodesAll_append (docs more : List Doc) :
    brokenNodesAll (docs ++ more) = brokenNodesAll docs ++ brokenNodesAll more := by
  induction docs with
  | nil => rfl
  | cons doc docs ih => rw [List.cons_append, brokenNodesAll, brokenNodesAll, ih, List.append_assoc]

theorem isSimple_child (simple : doc.isSimple = true) (below : child ∈ doc.children true) : child.isSimple = true := by
  unfold isSimple at simple
  split at simple
  · cases below
  · exact areSimple_iff.mp simple child below
  · exact List.mem_singleton.mp below ▸ simple
  · exact List.mem_singleton.mp below ▸ simple
  · exact List.mem_singleton.mp below ▸ simple
  · rw [Bool.and_eq_true] at simple
    exact List.mem_singleton.mp below ▸ simple.2
  · cases below
  · rw [Bool.and_eq_true] at simple
    rcases List.mem_pair.mp below with rfl | rfl
    · exact simple.1
    · exact simple.2
  · cases simple

theorem asksForBreak_of_isSimple (simple : doc.isSimple = true) : doc.asksForBreak = false := by
  cases doc <;> simp_all [isSimple, asksForBreak]

/-- Nothing in a document asks for a break. -/
def IsCalm (doc : Doc) : Prop :=
  ∀ node, doc.Contains node → node.asksForBreak = false

theorem isCalm_of_isSimple (simple : doc.isSimple = true) : doc.IsCalm := by
  intro node contains
  induction contains with
  | here => exact asksForBreak_of_isSimple simple
  | down _ below _ ih => exact ih (isSimple_child simple below)

theorem isCalm_choice {mark : Mark} {id : Option GroupId} {body first : Doc} {others : List Doc}
    (simple : ∀ doc ∈ first :: others, doc.isSimple = true) : (choice mark ⟨id, false⟩ body first others).IsCalm := by
  intro node contains
  rcases contains_iff.mp contains with rfl | ⟨child, below, contains⟩
  · rfl
  · exact isCalm_of_isSimple (simple child below) node contains

theorem isCalm_child (calm : doc.IsCalm) (below : child ∈ doc.children true) : child.IsCalm :=
  fun node contains => calm node (.down trivial below contains)

end Doc

/-! ### No group has to break -/

def Frame.IsCalm : Frame → Prop
  | enter doc | leave doc => doc.IsCalm

namespace BreakSet.Search

theorem breaks_enter (search : Search) (doc : Doc) : (visitor.enter search doc).2.breaks = search.breaks := by
  cases doc <;> rfl

theorem breaks_leave {search : Search} {doc : Doc} (calm : doc.IsCalm) (none : search.breaks = {}) :
    (visitor.leave search doc).breaks = {} := by
  have kept (mark : Mark) (info : GroupInfo) (free : info.mustBreak = false) :
      (search.close mark info).breaks = {} := by
    unfold close
    rw [none, isBroken_empty, free]
    rfl
  have here := calm doc (.here doc)
  cases doc with
  | breakParent => cases here
  | group mark info body => exact kept mark info here
  | choice mark info body first others => exact kept mark info here
  | text | concat | indent | align | fill | line | ifBreak | indentIfBreak | trim | label => exact none

theorem breaks_walk (search : Search) (frames : List Frame) (none : search.breaks = {})
    (calm : ∀ frame ∈ frames, frame.IsCalm) : (walk visitor true search frames).2.breaks = {} := by
  fun_induction walk visitor true search frames with
  | case1 search => exact none
  | case2 search doc frames ih =>
    obtain ⟨here, behind⟩ := List.forall_mem_cons.mp calm
    exact ih (breaks_leave here none) behind
  | case3 search doc frames after stops => rw [← none, ← breaks_enter search doc, stops]
  | case4 search doc frames after skips ih =>
    obtain ⟨here, behind⟩ := List.forall_mem_cons.mp calm
    refine ih ?_ (List.forall_mem_cons.mpr ⟨here, behind⟩)
    rw [← none, ← breaks_enter search doc, skips]
  | case5 search doc frames after proceeds ih =>
    obtain ⟨here, behind⟩ := List.forall_mem_cons.mp calm
    refine ih ?_ (List.forall_mem_append.mpr ⟨?_, List.forall_mem_cons.mpr ⟨here, behind⟩⟩)
    · rw [← none, ← breaks_enter search doc, proceeds]
    · exact List.forall_mem_map.mpr fun child below => Doc.isCalm_child here below

end BreakSet.Search

theorem Doc.breaks_of_isCalm {doc : Doc} (calm : doc.IsCalm) : doc.breaks = {} :=
  BreakSet.Search.breaks_walk {} [.enter doc] rfl (List.forall_mem_singleton.mpr calm)

/-! ### Looking ahead on a flat line -/

/-- A simple node that is to be flat. -/
structure Command.IsFlat (command : Command) : Prop where
  mode : command.mode = .flat
  simple : command.doc.isSimple = true

def Command.flatPieces (pending : List Command) : List String :=
  pending.flatMap (·.doc.flatPieces)

theorem Command.flatPieces_cons (command : Command) (pending : List Command) :
    flatPieces (command :: pending) = command.doc.flatPieces ++ flatPieces pending :=
  List.flatMap_cons

theorem Command.flatPieces_append (pending more : List Command) :
    flatPieces (pending ++ more) = flatPieces pending ++ flatPieces more :=
  List.flatMap_append

theorem Command.flatPieces_map_on (command : Command) (mode : Mode) (docs : List Doc) :
    flatPieces (docs.map (command.on mode)) = Doc.flatPiecesAll docs := by
  rw [Doc.flatPiecesAll_eq_flatMap, flatPieces, List.flatMap_map]
  rfl

namespace Lookahead

variable {look : Lookahead}

theorem glance_flat (none : look.breaks = {}) (line : Line) {command : Command} (flat : command.IsFlat) :
    ∃ after next, look.glance line command = .go after next ∧ (∀ other ∈ next, other.IsFlat) ∧
      after.room - Doc.countedWidths look.config.ruler (Command.flatPieces next) =
        line.room - Doc.countedWidths look.config.ruler command.doc.flatPieces := by
  obtain ⟨indentation, mode, doc⟩ := command
  obtain ⟨rfl, simple⟩ := flat
  have one {inner : Doc} (isSimple : inner.isSimple = true) (same : inner.flatPieces = doc.flatPieces) :
      (∀ other ∈ [(⟨indentation, .flat, inner⟩ : Command)], other.IsFlat) ∧
        line.room - Doc.countedWidths look.config.ruler (Command.flatPieces [⟨indentation, .flat, inner⟩]) =
          line.room - Doc.countedWidths look.config.ruler doc.flatPieces := by
    refine ⟨List.forall_mem_singleton.mpr ⟨rfl, isSimple⟩, ?_⟩
    rw [← same]
    simp [Command.flatPieces]
  cases doc with
  | text mark content =>
    refine ⟨_, _, rfl, nofun, ?_⟩
    simp [Command.flatPieces, Doc.countedWidths, Doc.flatPieces, Line.write]
  | concat mark parts =>
    refine ⟨_, _, rfl, ?_, ?_⟩
    · exact List.forall_mem_map.mpr fun part member => ⟨rfl, Doc.areSimple_iff.mp simple part member⟩
    · rw [Command.flatPieces_map_on]
      rfl
  | indent mark body => exact ⟨_, _, rfl, one simple rfl⟩
  | align mark kind body => exact ⟨_, _, rfl, one simple rfl⟩
  | label mark name body => exact ⟨_, _, rfl, one simple rfl⟩
  | group mark info body =>
    obtain ⟨free, isSimple⟩ := Bool.and_eq_true_iff.mp simple
    have calm : look.breaks.isBroken mark info = false := by
      rw [none, BreakSet.isBroken_empty]
      exact Bool.not_eq_true' _ ▸ free
    refine ⟨_, _, ?_, one isSimple rfl⟩
    simp [glance, calm, Command.on]
  | ifBreak mark broken inner id =>
    cases id with
    | some id => cases simple
    | none => exact ⟨_, _, rfl, one (Bool.and_eq_true_iff.mp simple).2 rfl⟩
  | line mark kind =>
    cases kind with
    | soft => exact ⟨_, _, rfl, nofun, rfl⟩
    | plain =>
      have space : counted (displayWidth " " look.config.ruler) = 1 := rfl
      refine ⟨_, _, rfl, nofun, ?_⟩
      simp [Command.flatPieces, Doc.countedWidths, Doc.flatPieces, space]
    | hard | literal => cases simple
  | choice | fill | breakParent | indentIfBreak | trim => cases simple

theorem fits_flat (none : look.breaks = {}) (line : Line) (pending : List Command)
    (flat : ∀ command ∈ pending, command.IsFlat) :
    look.fits line pending =
      decide ((Doc.countedWidths look.config.ruler (Command.flatPieces pending) : Int) ≤ line.room) := by
  fun_induction look.fits line pending with
  | case1 line pending full =>
    rw [decide_eq_false]
    omega
  | case2 line room =>
    rw [decide_eq_true]
    simpa [Command.flatPieces, Doc.countedWidths] using room
  | case3 line room command rest answer seen =>
    obtain ⟨after, next, goes, -⟩ := glance_flat none line (flat command List.mem_cons_self)
    rw [seen] at goes
    cases goes
  | case4 line room command rest after next seen ih =>
    obtain ⟨here, behind⟩ := List.forall_mem_cons.mp flat
    obtain ⟨after', next', goes, isFlat, columns⟩ := glance_flat none line here
    rw [seen] at goes
    cases goes
    rw [ih (List.forall_mem_append.mpr ⟨isFlat, behind⟩), Command.flatPieces_append, Doc.countedWidths_append,
      Command.flatPieces_cons, Doc.countedWidths_append, decide_eq_decide]
    omega

end Lookahead

/-! ### Rendering on a flat line -/

namespace RenderContext

variable {context : RenderContext} {state : RenderState}

def written (context : RenderContext) (pieces : List String) : List Char :=
  writtenChars context.config.lineEnding (pieces.flatMap String.toList)

theorem written_append (pieces more : List String) :
    context.written (pieces ++ more) = context.written pieces ++ context.written more := by
  rw [written, List.flatMap_append, Text.writtenChars_append]
  rfl

theorem openGroup_flat {mark : Mark} {info : GroupInfo} (calm : context.breaks.isBroken mark info = false)
    (fresh : state.remeasure = false) (rest : List Command) (indentation : Indentation) (doc body : Doc) :
    ∃ opened, context.openGroup state rest ⟨indentation, .flat, doc⟩ mark info body [] =
        (opened, ⟨indentation, .flat, body⟩) ∧
      opened.remeasure = false ∧ opened.out = state.out := by
  refine ⟨_, Prod.ext rfl ?_, ?_, rfl⟩
  · simp [openGroup, calm, fresh, Command.on]
  · simp [openGroup, fresh]

/-- A flat node is replaced by flat nodes after it has written what they do not write. -/
theorem renderStep_flat (none : context.breaks = {}) (fresh : state.remeasure = false) (rest : List Command)
    {command : Command} (flat : command.IsFlat) :
    ∃ after next, context.renderStep state rest command = (after, next) ∧ (∀ other ∈ next, other.IsFlat) ∧
      after.remeasure = false ∧
      after.out.chars ++ context.written (Command.flatPieces next) =
        state.out.chars ++ context.written command.doc.flatPieces := by
  obtain ⟨indentation, mode, doc⟩ := command
  obtain ⟨rfl, simple⟩ := flat
  have one {after : RenderState} {inner : Doc} (indentation : Indentation) (kept : after.remeasure = false)
      (out : after.out = state.out) (isSimple : inner.isSimple = true) (same : inner.flatPieces = doc.flatPieces) :
      (∀ other ∈ [(⟨indentation, .flat, inner⟩ : Command)], other.IsFlat) ∧ after.remeasure = false ∧
        after.out.chars ++ context.written (Command.flatPieces [⟨indentation, .flat, inner⟩]) =
          state.out.chars ++ context.written doc.flatPieces := by
    refine ⟨List.forall_mem_singleton.mpr ⟨rfl, isSimple⟩, kept, ?_⟩
    rw [out, ← same]
    simp [Command.flatPieces]
  cases doc with
  | text mark content =>
    refine ⟨_, _, rfl, nofun, fresh, ?_⟩
    simp [writeText, Text.toList_writeLineEndings, Command.flatPieces, Doc.flatPieces, written, writtenChars]
  | concat mark parts =>
    refine ⟨_, _, rfl, ?_, fresh, ?_⟩
    · exact List.forall_mem_map.mpr fun part member => ⟨rfl, Doc.areSimple_iff.mp simple part member⟩
    · rw [Command.flatPieces_map_on]
      rfl
  | indent mark body => exact ⟨_, _, rfl, one _ fresh rfl simple rfl⟩
  | align mark kind body => exact ⟨_, _, rfl, one _ fresh rfl simple rfl⟩
  | label mark name body => exact ⟨_, _, rfl, one _ fresh rfl simple rfl⟩
  | group mark info body =>
    obtain ⟨free, isSimple⟩ := Bool.and_eq_true_iff.mp simple
    have calm : context.breaks.isBroken mark info = false := by
      rw [none, BreakSet.isBroken_empty]
      exact Bool.not_eq_true' _ ▸ free
    obtain ⟨opened, same, kept, out⟩ := openGroup_flat calm fresh rest indentation (.group mark info body) body
    refine ⟨opened, _, ?_, one indentation kept out isSimple rfl⟩
    simp only [renderStep, same]
  | ifBreak mark broken inner id =>
    cases id with
    | some id => cases simple
    | none => exact ⟨_, _, rfl, one _ fresh rfl (Bool.and_eq_true_iff.mp simple).2 rfl⟩
  | line mark kind =>
    cases kind with
    | soft => exact ⟨_, _, rfl, nofun, fresh, rfl⟩
    | plain =>
      refine ⟨_, _, rfl, nofun, fresh, ?_⟩
      simp [writeLine, Command.flatPieces, Doc.flatPieces, written, writtenChars]
    | hard | literal => cases simple
  | choice | fill | breakParent | indentIfBreak | trim => cases simple

/-- Flat nodes are rendered as their flat texts. -/
theorem chars_run_flat (context : RenderContext) (none : context.breaks = {}) (state : RenderState)
    (pending : List Command) (fresh : state.remeasure = false) (flat : ∀ command ∈ pending, command.IsFlat) :
    (context.run state pending).out.chars = state.out.chars ++ context.written (Command.flatPieces pending) := by
  fun_induction RenderContext.run context state pending with
  | case1 state => simp [Command.flatPieces, written, writtenChars]
  | case2 state command rest step ih =>
    obtain ⟨here, behind⟩ := List.forall_mem_cons.mp flat
    obtain ⟨after, next, same, isFlat, kept, chars⟩ := renderStep_flat none fresh rest here
    have stepped : step = (after, next) := same
    rw [stepped] at ih ⊢
    rw [ih kept (List.forall_mem_append.mpr ⟨isFlat, behind⟩), Command.flatPieces_append, written_append,
      ← List.append_assoc, chars, Command.flatPieces_cons, written_append, List.append_assoc]

end RenderContext

/-! ### Lines directly in a broken node -/

theorem exists_of_flatMap_eq {α β : Type} {f : α → List β} {xs : List α} {before after : List β} {y : β}
    (split : xs.flatMap f = before ++ y :: after) :
    ∃ first x last found behind, xs = first ++ x :: last ∧ f x = found ++ y :: behind ∧
      after = behind ++ last.flatMap f := by
  induction xs generalizing before with
  | nil => simp at split
  | cons x xs ih =>
    have later (skipped : List β) (split : xs.flatMap f = skipped ++ y :: after) :
        ∃ first x' last found behind, x :: xs = first ++ x' :: last ∧ f x' = found ++ y :: behind ∧
          after = behind ++ last.flatMap f := by
      obtain ⟨first, x', last, found, behind, rfl, here⟩ := ih split
      exact ⟨x :: first, x', last, found, behind, rfl, here⟩
    rw [List.flatMap_cons] at split
    rcases List.append_eq_append_iff.mp split with ⟨skipped, _, split⟩ | ⟨found, here, split⟩
    · exact later skipped split
    · cases found with
      | nil => exact later [] split.symm
      | cons head found =>
        cases split
        exact ⟨[], x, xs, before, found, rfl, here, rfl⟩

namespace Doc

/-- The nodes that a node directly in a broken one is laid out as. -/
def opened : Doc → List Doc
  | ifBreak _ broken _ none => broken.brokenNodes
  | doc => [doc]

mutual

theorem brokenNodes_eq : ∀ doc : Doc, doc.brokenNodes = doc.directNodes.flatMap opened
  | concat _ parts => brokenNodesAll_eq parts
  | indent _ body | align _ _ body | indentIfBreak _ body _ _ | label _ _ body => brokenNodes_eq body
  | ifBreak _ broken _ none => by simp [brokenNodes, directNodes, opened]
  | ifBreak _ _ _ (some _) => rfl
  | text .. | group .. | choice .. | fill .. | line .. | breakParent .. | trim .. => rfl

theorem brokenNodesAll_eq : ∀ docs : List Doc, brokenNodesAll docs = (directNodesAll docs).flatMap opened
  | [] => rfl
  | doc :: docs => by
    rw [brokenNodesAll, directNodesAll, List.flatMap_append, brokenNodes_eq doc, brokenNodesAll_eq docs]

end

mutual

theorem weight_directNodes : ∀ doc : Doc, ∀ node ∈ doc.directNodes, node.weight ≤ doc.weight
  | concat _ parts => fun node member => by
    have := weight_directNodesAll parts node member
    rw [weight]
    omega
  | indent _ body | align _ _ body | indentIfBreak _ body _ _ | label _ _ body => fun node member => by
    have := weight_directNodes body node member
    rw [weight]
    omega
  | text .. | group .. | choice .. | fill .. | line .. | breakParent .. | trim .. | ifBreak .. => fun node member => by
    rw [List.mem_singleton.mp member]

theorem weight_directNodesAll : ∀ docs : List Doc, ∀ node ∈ directNodesAll docs, node.weight ≤ weights docs
  | [] => nofun
  | doc :: docs => fun node member => by
    rw [weights]
    rcases List.mem_append.mp member with member | member
    · have := weight_directNodes doc node member
      omega
    · have := weight_directNodesAll docs node member
      omega

end

end Doc

namespace RenderContext

theorem meets_brokenLine (context : RenderContext) {mark : Mark} {kind : LineKind} (doc : Doc) (state : RenderState)
    (indentation : Indentation) (rest : List Command) {before after : List Doc}
    (split : doc.brokenNodes = before ++ .line mark kind :: after) :
    ∃ later inner more, context.Reaches ⟨state, ⟨indentation, .broken, doc⟩ :: rest⟩
        ⟨later, ⟨inner, .broken, .line mark kind⟩ :: (more ++ rest)⟩ ∧
      Doc.brokenNodesAll (more.map (·.doc)) = after := by
  -- By weight: a node with a body for a broken group is met first, and the line then in its body.
  induction size : doc.weight using Nat.strongRecOn generalizing doc state indentation rest before after with
  | ind size ih =>
    rw [Doc.brokenNodes_eq] at split
    obtain ⟨first, node, last, found, behind, isDirect, isOpened, rfl⟩ := exists_of_flatMap_eq split
    obtain ⟨later, inner, more, reached, isBehind⟩ := context.meets_direct doc state indentation rest isDirect
    have itself (same : node.opened = [node]) : ∃ later inner more,
        context.Reaches ⟨state, ⟨indentation, .broken, doc⟩ :: rest⟩
          ⟨later, ⟨inner, .broken, .line mark kind⟩ :: (more ++ rest)⟩ ∧
        Doc.brokenNodesAll (more.map (·.doc)) = behind ++ last.flatMap Doc.opened := by
      rw [same] at isOpened
      cases found with
      | nil =>
        cases isOpened
        refine ⟨later, inner, more, reached, ?_⟩
        rw [Doc.brokenNodesAll_eq, isBehind]
        rfl
      | cons head found => simp at isOpened
    cases node with
    | ifBreak nodeMark broken flat id =>
      cases id with
      | some id => exact itself rfl
      | none =>
        have lighter : broken.weight < doc.weight := by
          have bound := Doc.weight_directNodes doc (.ifBreak nodeMark broken flat none) (by simp [isDirect])
          rw [Doc.weight] at bound
          omega
        obtain ⟨last', inner', more', reached', isBehind'⟩ :=
          ih broken.weight (size ▸ lighter) broken later inner (more ++ rest) isOpened rfl
        refine ⟨last', inner', more' ++ more, ?_, ?_⟩
        · rw [List.append_assoc]
          exact reached.trans (.step reached')
        · rw [List.map_append, Doc.brokenNodesAll_append, isBehind', Doc.brokenNodesAll_eq, isBehind]
    | text | concat | indent | align | group | choice | fill | line | breakParent | indentIfBreak | trim | label =>
      exact itself rfl

end RenderContext

/-! ### Lines that are kept -/

/-- A text begins with some characters and the end of a line after them. -/
def Emitter.Keeps (out : Emitter) (line : List Char) : Prop :=
  line ++ ['\n'] <+: out.chars

namespace Emitter

variable {out : Emitter} {line : List Char}

theorem Keeps.emit (keeps : out.Keeps line) (s : String) : (out.emit s).Keeps line := by
  unfold Keeps
  rw [chars_emit]
  exact keeps.trans (List.prefix_append _ _)

/-- The end of a line is no blank, so a trim does not take it back. -/
theorem Keeps.trim (keeps : out.Keeps line) : out.trim.Keeps line := by
  obtain ⟨more, split⟩ := keeps
  rw [chars_eq_trim_append] at split
  rcases List.append_eq_append_iff.mp split with ⟨tail, isTrim, _⟩ | ⟨tail, isFront, isBlank⟩
  · exact ⟨tail, isTrim.symm⟩
  · rcases List.eq_nil_or_concat' tail with rfl | ⟨init, last, rfl⟩
    · exact ⟨[], by rw [isFront, List.append_nil, List.append_nil]⟩
    · have same : ['\n'] = [last] := (List.append_inj' (isFront.trans (List.append_assoc ..).symm) rfl).2
      have member : '\n' ∈ out.blanks := by
        rw [isBlank, List.singleton_inj.mp same]
        simp
      exact absurd (out.all_blanks _ member) (by decide)

end Emitter

namespace RenderContext

variable {context : RenderContext} {state : RenderState} {line : List Char}

theorem keeps_breakLine (kind : LineKind) (indentation : Indentation) (keeps : state.out.Keeps line) :
    (context.breakLine state kind indentation).out.Keeps line := by
  unfold breakLine Emitter.newline
  dsimp only
  split
  · split
    · exact (keeps.emit _).emit _
    · exact keeps.emit _
  · exact (keeps.trim.emit _).emit _

theorem keeps_renderStep (rest : List Command) (command : Command) (keeps : state.out.Keeps line) :
    (context.renderStep state rest command).1.out.Keeps line := by
  obtain ⟨indentation, mode, doc⟩ := command
  cases doc with
  | text => exact keeps.emit _
  | trim => exact keeps.trim
  | line mark kind =>
    show (context.writeLine state kind indentation mode).out.Keeps line
    unfold writeLine
    split
    · exact keeps
    · exact keeps.emit _
    · exact keeps_breakLine _ _ keeps
    · exact keeps_breakLine _ _ keeps
  | concat | indent | align | group | choice | fill | breakParent | ifBreak | indentIfBreak | label => exact keeps

theorem keeps_run (context : RenderContext) (state : RenderState) (pending : List Command)
    (keeps : state.out.Keeps line) : (context.run state pending).out.Keeps line :=
  (context.reaches_end state pending).preserves (P := fun moment => moment.state.out.Keeps line)
    (fun _ _ _ keeps => keeps_renderStep _ _ keeps) keeps

theorem exists_run_brokenLine (context : RenderContext) (lf : context.config.lineEnding = .lf) {mark : Mark}
    {kind : LineKind} (free : kind.isHard = false) (state : RenderState) (indentation : Indentation)
    (rest : List Command) :
    ∃ tail, (context.run state (⟨indentation, .broken, .line mark kind⟩ :: rest)).out.chars =
      state.out.trim.chars ++ '\n' :: tail := by
  have ended : ((state.out.trim.newline context.config.lineEnding).emit indentation.value).Keeps
      state.out.trim.chars := by
    refine Emitter.Keeps.emit ?_ _
    unfold Emitter.Keeps Emitter.newline
    rw [Emitter.chars_emit, lf]
    exact List.prefix_refl _
  obtain ⟨tail, same⟩ := context.keeps_run
    { state with
      out := (state.out.trim.newline context.config.lineEnding).emit indentation.value
      column := indentation.length } rest ended
  refine ⟨tail, ?_⟩
  rw [run_eq_of_reaches (.step (.refl _)), advance_brokenLine context free, ← same, List.append_assoc]
  rfl

end RenderContext

/-! ### Groups and alternatives -/

section

variable {config : Config} {body first : Doc} {others : List Doc}

theorem fits_start (simple : body.isSimple = true) (told : config.Tells (body.flatWidth config.ruler)) :
    RenderContext.fits ⟨config, {}⟩ {} false [⟨.none, .flat, body⟩] =
      decide (body.flatWidth config.ruler ≤ config.printWidth) := by
  unfold RenderContext.fits
  rw [Lookahead.fits_flat rfl _ _ (List.forall_mem_singleton.mpr ⟨rfl, simple⟩), decide_eq_decide]
  have whole : Command.flatPieces [⟨.none, .flat, body⟩] = body.flatPieces := by simp [Command.flatPieces]
  have fits := (Doc.counts_countedWidths config.ruler body.flatPieces).room_iff
    (show config.Tells (0 + Doc.widths config.ruler body.flatPieces) by rwa [Nat.zero_add])
  rw [Nat.zero_add] at fits
  rw [whole, Doc.flatWidth, ← fits]
  exact Int.sub_nonneg.symm

theorem advance_measured (config : Config) (mark : Mark) (body : Doc) :
    RenderContext.advance ⟨config, {}⟩ {} ⟨.none, .broken, .group mark ⟨none, false⟩ body⟩ [] =
      ⟨{}, [⟨.none, if RenderContext.fits ⟨config, {}⟩ {} false [⟨.none, .flat, body⟩] then .flat else .broken,
        body⟩]⟩ := by
  unfold RenderContext.advance RenderContext.renderStep RenderContext.openGroup RenderContext.chooseMeasured
  simp only [BreakSet.isBroken_empty, Command.on]
  cases RenderContext.fits ⟨config, {}⟩ {} false [⟨.none, .flat, body⟩] with
  | true => simp
  | false => simp

theorem advance_start_group (mark : Mark) (simple : body.isSimple = true)
    (told : config.Tells (body.flatWidth config.ruler)) :
    RenderContext.advance ⟨config, {}⟩ {} ⟨.none, .broken, .group mark ⟨none, false⟩ body⟩ [] =
      ⟨{}, [⟨.none, if body.flatWidth config.ruler ≤ config.printWidth then .flat else .broken, body⟩]⟩ := by
  rw [advance_measured, fits_start simple told]
  simp only [decide_eq_true_eq]

theorem advance_start_choice (mark : Mark) (simple : ∀ state ∈ first :: others, state.isSimple = true)
    (told : ∀ state ∈ first :: others, config.Tells (state.flatWidth config.ruler)) :
    RenderContext.advance ⟨config, {}⟩ {} ⟨.none, .broken, .choice mark ⟨none, false⟩ first first others⟩ [] =
      ⟨{}, [match (first :: others).find? (·.flatWidth config.ruler ≤ config.printWidth) with
        | some state => ⟨.none, .flat, state⟩
        | none => ⟨.none, .broken, others.getLastD first⟩]⟩ := by
  obtain ⟨simpleFirst, simpleOthers⟩ := List.forall_mem_cons.mp simple
  obtain ⟨toldFirst, toldOthers⟩ := List.forall_mem_cons.mp told
  have fits := @fits_start config first simpleFirst toldFirst
  have find : others.find? (fun doc => RenderContext.fits ⟨config, {}⟩ {} false [⟨.none, .flat, doc⟩]) =
      others.find? (·.flatWidth config.ruler ≤ config.printWidth) :=
    List.find?_congr fun doc member => fits_start (simpleOthers doc member) (toldOthers doc member)
  have last : (first :: others).getLast? = some (others.getLastD first) := by
    rw [List.getLast?_cons, List.getLastD_eq_getLast?]
  unfold RenderContext.advance RenderContext.renderStep RenderContext.openGroup RenderContext.chooseMeasured
  simp only [BreakSet.isBroken_empty, Command.on, fits, last, List.tail_cons, find]
  rw [List.find?_cons]
  by_cases room : first.flatWidth config.ruler ≤ config.printWidth
  · simp [room]
  · cases found : others.find? (·.flatWidth config.ruler ≤ config.printWidth) with
    | none => simp [room]
    | some state => simp [room]

theorem text_run_flat (lf : config.lineEnding = .lf) (simple : body.isSimple = true) :
    (RenderContext.run ⟨config, {}⟩ {} [⟨.none, .flat, body⟩]).out.text = body.flatText := by
  have chars := RenderContext.chars_run_flat ⟨config, {}⟩ rfl {} [⟨.none, .flat, body⟩] rfl
    (List.forall_mem_singleton.mpr ⟨rfl, simple⟩)
  unfold Emitter.text
  rw [chars, RenderContext.written, lf, Text.writtenChars_lf, Doc.flatText, ← String.toList_inj, String.toList_join]
  simp [Command.flatPieces, Emitter.chars]

theorem render_eq_of_isCalm {doc : Doc} (calm : doc.IsCalm) (config : Config) :
    doc.render config = (RenderContext.run ⟨config, {}⟩ {} [⟨.none, .broken, doc⟩]).out.text := by
  unfold Doc.render Doc.renderInto
  rw [Doc.breaks_of_isCalm calm]

theorem render_group_flat (lf : config.lineEnding = .lf) (mark : Mark) (simple : body.isSimple = true)
    (told : config.Tells (body.flatWidth config.ruler)) (fits : body.flatWidth config.ruler ≤ config.printWidth) :
    (Doc.group mark ⟨none, false⟩ body).render config = body.flatText := by
  have calm : (Doc.group mark ⟨none, false⟩ body).IsCalm := Doc.isCalm_of_isSimple simple
  rw [render_eq_of_isCalm calm, RenderContext.run_eq_of_reaches (.step (.refl _)), advance_start_group mark simple told,
    if_pos fits]
  exact text_run_flat lf simple

theorem render_group_broken (mark : Mark) (simple : body.isSimple = true)
    (told : config.Tells (body.flatWidth config.ruler)) (full : ¬body.flatWidth config.ruler ≤ config.printWidth) :
    (Doc.group mark ⟨none, false⟩ body).render config = body.render config := by
  have calm : (Doc.group mark ⟨none, false⟩ body).IsCalm := Doc.isCalm_of_isSimple simple
  rw [render_eq_of_isCalm calm, render_eq_of_isCalm (Doc.isCalm_of_isSimple simple),
    RenderContext.run_eq_of_reaches (.step (.refl _)), advance_start_group mark simple told, if_neg full]

theorem render_choice (lf : config.lineEnding = .lf) (mark : Mark)
    (simple : ∀ state ∈ first :: others, state.isSimple = true)
    (told : ∀ state ∈ first :: others, config.Tells (state.flatWidth config.ruler)) :
    (Doc.choice mark ⟨none, false⟩ first first others).render config =
      match (first :: others).find? (·.flatWidth config.ruler ≤ config.printWidth) with
      | some state => state.flatText
      | none => (others.getLastD first).render config := by
  rw [render_eq_of_isCalm (Doc.isCalm_choice simple), RenderContext.run_eq_of_reaches (.step (.refl _)),
    advance_start_choice mark simple told]
  cases found : (first :: others).find? (·.flatWidth config.ruler ≤ config.printWidth) with
  | some state => exact text_run_flat lf (simple state (List.mem_of_find?_eq_some found))
  | none =>
    have last : (others.getLastD first).isSimple = true := simple _ List.getLastD_mem_cons
    exact (render_eq_of_isCalm (Doc.isCalm_of_isSimple last) config).symm

end

/-- A call whose arguments stand in a group of their own, and have a comma after them when the call is broken. -/
def brokenCall : Doc :=
  .concat 1 [.text 2 "f(",
    .indent 3 (.concat 4 [.line 5 .soft,
      .group 6 ⟨none, false⟩ (.concat 7 [.text 8 "a,", .line 9 .plain, .text 10 "b"]),
      .ifBreak 11 (.text 12 ",") (.text 13 "") none]),
    .line 14 .soft, .text 15 ")"]

end MarkupFormat.Layout
