import MarkupFormat.Proofs.Annotate.Trimmed

/-!
# Spans in order

The children of a node lie one after the other within its span. Every step of `normalize` moves the ends of spans by
what it takes away or joins, so they stay in order, and what was split off as an expression lies between its braces
(`faithful_normalize`).
-/

namespace MarkupFormat.Markup.Span

/-- Spans that are not empty lie one after the other between two offsets. -/
def InOrder : List Span → Nat → Nat → Prop
  | [], start, stop => start ≤ stop
  | span :: rest, start, stop => start ≤ span.start ∧ span.start < span.stop ∧ InOrder rest span.stop stop

variable {span next : Span} {spans more : List Span} {start middle stop : Nat}

theorem InOrder.le (inOrder : InOrder spans start stop) : start ≤ stop := by
  induction spans generalizing start with
  | nil => exact inOrder
  | cons span spans ih =>
    obtain ⟨after, some, others⟩ := inOrder
    have last := ih others
    omega

theorem InOrder.mono {start' stop' : Nat} (inOrder : InOrder spans start stop) (before : start' ≤ start)
    (after : stop ≤ stop') : InOrder spans start' stop' := by
  induction spans generalizing start start' with
  | nil => exact Nat.le_trans before (Nat.le_trans inOrder after)
  | cons span spans ih =>
    obtain ⟨first, some, others⟩ := inOrder
    exact ⟨Nat.le_trans before first, some, ih others (Nat.le_refl _)⟩

theorem inOrder_append :
    InOrder (spans ++ more) start stop ↔ ∃ middle, InOrder spans start middle ∧ InOrder more middle stop := by
  induction spans generalizing start with
  | nil =>
    constructor
    · exact fun inOrder => ⟨start, Nat.le_refl _, inOrder⟩
    · rintro ⟨middle, before, inOrder⟩
      exact inOrder.mono before (Nat.le_refl _)
  | cons span spans ih =>
    constructor
    · rintro ⟨first, some, others⟩
      obtain ⟨middle, before, after⟩ := ih.mp others
      exact ⟨middle, ⟨first, some, before⟩, after⟩
    · rintro ⟨middle, ⟨first, some, before⟩, after⟩
      exact ⟨first, some, ih.mpr ⟨middle, before, after⟩⟩

theorem InOrder.replace {inner : List Span} (inOrder : InOrder (spans ++ span :: more) start stop)
    (fits : InOrder inner span.start span.stop) : InOrder (spans ++ (inner ++ more)) start stop := by
  obtain ⟨middle, before, first, _, after⟩ := inOrder_append.mp inOrder
  refine inOrder_append.mpr ⟨middle, before, inOrder_append.mpr ⟨span.stop, ?_, after⟩⟩
  exact fits.mono first (Nat.le_refl _)

theorem InOrder.bounds (inOrder : InOrder spans start stop) :
    ∀ span ∈ spans, start ≤ span.start ∧ span.start < span.stop ∧ span.stop ≤ stop := by
  intro span member
  obtain ⟨before, after, rfl⟩ := List.append_of_mem member
  obtain ⟨middle, front, first, some, back⟩ := inOrder_append.mp inOrder
  exact ⟨Nat.le_trans front.le first, some, back.le⟩

theorem InOrder.pairwise (inOrder : InOrder spans start stop) :
    spans.Pairwise fun span next => span.stop ≤ next.start := by
  induction spans generalizing start with
  | nil => exact .nil
  | cons span spans ih =>
    obtain ⟨_, _, others⟩ := inOrder
    exact List.pairwise_cons.mpr ⟨fun next member => (others.bounds next member).1, ih others⟩

end MarkupFormat.Markup.Span

namespace MarkupFormat.Annotate

open Markup (Flag Fragment NodeInfo NodeKind Span Spacing)
open Markup.Fragment (looks)
open Markup.NodeInfo (spacing)
open Markup.Span (InOrder)
open Text (Cut byteLength isMarkupSpace)
open TextPiece (allChars)

/-! ### The rule -/

/-- The children of a node lie within its span in order, and its expression is as it has to be if the node is an
interpolation that still has one. -/
structure Nested (expression : Spacing → Spacing → Prop) (node : Spacing) (children : List Spacing) : Prop where
  leaf : node.kind.canHaveChildren = false → children = []
  inOrder : InOrder (children.map (·.span)) node.span.start node.span.stop
  inner : node.kind = .interpolation → children = [] ∨ ∃ only, children = [only] ∧ expression node only

/-- No interpolation has an expression yet. -/
def Unread (_ _ : Spacing) : Prop := False

/-- An expression is a text between braces. -/
structure Between (source : List Char) (node expression : Spacing) : Prop where
  isText : expression.kind.isText = true
  opening : Cut source node.span.start expression.span.start ['{', '{']
  closing : Cut source expression.span.stop node.span.stop ['}', '}']

variable {source : List Char} {expression : Spacing → Spacing → Prop} {rule : Spacing → List Spacing → Prop}
  {start stop : Nat}

theorem spans_looks (nodes : List Fragment) : (looks spacing nodes).map (·.span) = nodes.map Fragment.span := by
  rw [looks, List.map_map]
  rfl

theorem nested_leaf {node : Spacing} (ordered : node.span.start ≤ node.span.stop) : Nested expression node [] :=
  ⟨fun _ => rfl, ordered, fun _ => .inl rfl⟩

/-- Nodes that follow a rule lie in order between two offsets. -/
structure Lies (rule : Spacing → List Spacing → Prop) (nodes : List Fragment) (start stop : Nat) : Prop where
  inOrder : InOrder (nodes.map Fragment.span) start stop
  follow : ∀ node ∈ nodes, node.Follows spacing rule

theorem lies_cons {node : Fragment} {nodes : List Fragment} :
    Lies rule (node :: nodes) start stop ↔ start ≤ node.span.start ∧ node.span.start < node.span.stop ∧
      node.Follows spacing rule ∧ Lies rule nodes node.span.stop stop := by
  constructor
  · rintro ⟨⟨first, some, others⟩, follow⟩
    obtain ⟨follows, rest⟩ := List.forall_mem_cons.mp follow
    exact ⟨first, some, follows, others, rest⟩
  · rintro ⟨first, some, follows, others, rest⟩
    exact ⟨⟨first, some, others⟩, List.forall_mem_cons.mpr ⟨follows, rest⟩⟩

theorem Lies.mono {nodes : List Fragment} {start' stop' : Nat} (lies : Lies rule nodes start stop)
    (before : start' ≤ start) (after : stop ≤ stop') : Lies rule nodes start' stop' :=
  ⟨lies.inOrder.mono before after, lies.follow⟩

theorem lies_children {info : NodeInfo} {children : List Fragment}
    (follows : (Fragment.node info children).Follows spacing (Nested expression)) :
    Lies (Nested expression) children info.span.start info.span.stop := by
  obtain ⟨here, below⟩ := Fragment.follows_node.mp follows
  have inOrder := here.inOrder
  rw [spans_looks] at inOrder
  exact ⟨inOrder, below⟩

theorem eq_nil_of_leaf {info : NodeInfo} {children : List Fragment}
    (follows : (Fragment.node info children).Follows spacing (Nested expression))
    (leaf : info.kind.canHaveChildren = false) : children = [] :=
  List.map_eq_nil_iff.mp (follows.1.leaf leaf)

theorem follows_of_lies {info : NodeInfo} {children : List Fragment} (parent : info.kind.canHaveChildren = true)
    (other : info.kind.isInterpolation = false)
    (lies : Lies (Nested expression) children info.span.start info.span.stop) :
    (Fragment.node info children).Follows spacing (Nested expression) := by
  refine Fragment.follows_node.mpr ⟨⟨fun leaf => ?_, ?_, fun isInterpolation => ?_⟩, lies.follow⟩
  · exact absurd (parent.symm.trans leaf) (by decide)
  · rw [spans_looks]
    exact lies.inOrder
  · rw [show info.kind = .interpolation from isInterpolation] at other
    cases other

theorem follows_empty {info : NodeInfo} (ordered : info.span.start ≤ info.span.stop) :
    (Fragment.node info []).Follows spacing (Nested expression) :=
  ⟨nested_leaf ordered, trivial⟩

/-! ### Reading -/

mutual

theorem nested_of_tiled : ∀ fragment : Fragment, fragment.Tiled source → fragment.Follows spacing (Nested Unread)
  | .node info children, .inl ⟨holds, start, stop, encloses, tiles⟩ => by
    have bounds : info.span.start ≤ start ∧ stop ≤ info.span.stop := by
      cases encloses with
      | whole _ _ fills => exact ⟨Nat.le_of_lt fills.lt, Nat.le_refl _⟩
      | unended _ _ fills => exact ⟨Nat.le_of_lt fills.lt, Nat.le_refl _⟩
      | ended _ _ fills filled => exact ⟨Nat.le_of_lt fills.lt, Nat.le_of_lt filled.lt⟩
    have other : info.kind.isInterpolation = false := by
      cases kind : info.kind <;> rw [kind] at holds <;> first | rfl | cases holds
    have lies := (lies_of_tiles children tiles).mono bounds.1 bounds.2
    exact follows_of_lies (canHaveChildren_of_hasSection holds) other lies
  | .node info children, .inr ⟨_, empty, _, _, cut, _⟩ => by
    subst empty
    exact follows_empty cut.le

theorem lies_of_tiles : ∀ (fragments : List Fragment) {start stop : Nat},
    Fragment.Tiles source fragments start stop → Lies (Nested Unread) fragments start stop
  | [], _, _, tiles => ⟨Nat.le_of_eq tiles, List.forall_mem_nil _⟩
  | first :: rest, _, _, ⟨begins, tiled, tiles⟩ =>
    lies_cons.mpr ⟨Nat.le_of_eq begins.symm, tiled.start_lt_stop, nested_of_tiled first tiled, lies_of_tiles rest tiles⟩

end

theorem nested_root {options : Markup.ParseOptions} {content : List Fragment} {info : NodeInfo}
    (read : Markup.readSource options source = .ok content) (isRoot : info.kind = .root)
    (whole : info.span = ⟨0, byteLength source⟩) : (Fragment.node info content).Follows spacing (Nested Unread) := by
  refine follows_of_lies (by rw [isRoot]; rfl) (by rw [isRoot]; rfl) ?_
  rw [whole]
  exact lies_of_tiles content (Markup.tiles_of_readSource read)

/-! ### The steps before texts are trimmed -/

theorem laidNode_of_laid (node : Spacing) (children : List Spacing) (laid : Laid source node children) :
    LaidNode source node :=
  ⟨laid.unspaced, laid.placed, laid.spelled⟩

theorem nested_mapChildren {change : NodeInfo → List Fragment → List Fragment} {fragment : Fragment}
    (laid : fragment.Follows spacing (Laid source)) (nested : fragment.Follows spacing (Nested Unread))
    (empty : ∀ info, change info [] = [])
    (step : ∀ info children, (∀ child ∈ children, LaidNode source child.info.spacing) →
      Lies (Nested Unread) children info.span.start info.span.stop →
        Lies (Nested Unread) (change info children) info.span.start info.span.stop) :
    (fragment.mapChildren change).Follows spacing (Nested Unread) := by
  have rules := (Fragment.follows_childrenToo laidNode_of_laid fragment laid).both nested
  refine Fragment.follows_mapChildren (fun info children here below => ?_) fragment rules
  obtain ⟨⟨_, texts⟩, leaf, inOrder, inner⟩ := here
  rw [spans_looks] at inOrder
  have lies := step info children (fun child member => texts _ (List.mem_map_of_mem member)) ⟨inOrder, below⟩
  have kept (none : looks spacing children = []) : looks spacing (change info children) = [] := by
    rw [List.map_eq_nil_iff.mp none, empty]
    rfl
  refine ⟨⟨fun isLeaf => kept (leaf isLeaf), ?_, fun isInterpolation => .inl ?_⟩, lies.follow⟩
  · rw [spans_looks]
    exact lies.inOrder
  · obtain none | ⟨_, _, never⟩ := inner isInterpolation
    · exact kept none
    · exact never.elim

theorem lies_dropLineFeed {children : List Fragment} (laid : ∀ child ∈ children, LaidNode source child.info.spacing)
    (lies : Lies (Nested expression) children start stop) :
    Lies (Nested expression) (dropLineFeed children) start stop := by
  unfold dropLineFeed
  split
  · next info inner rest =>
    obtain ⟨first, some, follows, others⟩ := lies_cons.mp lies
    split
    · next value text =>
      split
      · exact others.mono (Nat.le_trans first (Nat.le_of_lt some)) (Nat.le_refl _)
      · next cs more begins =>
        have cut := (laid _ List.mem_cons_self).spelled value (by show textOf? info.kind = _; rw [text]; rfl)
        rw [begins] at cut
        have cut : Cut source info.span.start info.span.stop (['\n'] ++ cs) := cut
        have left : info.span.start + 1 < info.span.stop := by
          refine cut.of_append.2.lt_of_ne_nil ?_
          rintro rfl
          exact more rfl
        obtain rfl := eq_nil_of_leaf follows (by rw [text]; rfl)
        refine lies_cons.mpr ⟨?_, left, follows_empty (Nat.le_of_lt left), others⟩
        exact Nat.le_trans first (Nat.le_succ _)
      · exact lies
    · exact lies
  · exact lies

theorem nested_dropFirstLineFeeds {fragment : Fragment} (laid : fragment.Follows spacing (Laid source))
    (nested : fragment.Follows spacing (Nested Unread)) :
    (dropFirstLineFeeds fragment).Follows spacing (Nested Unread) := by
  refine nested_mapChildren laid nested (fun info => ?_) fun info children texts lies => ?_
  · split <;> rfl
  · split
    · exact lies_dropLineFeed texts lies
    · exact lies

theorem lies_joinConditions (children : List Fragment) (lies : Lies (Nested expression) children start stop) :
    Lies (Nested expression) (joinConditions children) start stop := by
  fun_induction joinConditions children generalizing start with
  | case1 before element rest joined found ih =>
    obtain ⟨condition, e, startSpan, finish, inner, _, _, _, children, _, _, _, rfl⟩ := withCondition?_eq_some found
    obtain ⟨first, some, _, others⟩ := lies_cons.mp lies
    obtain ⟨second, some', follows, rest⟩ := lies_cons.mp others
    cases element with
    | node info below =>
      obtain rfl : below = finish :: inner := children
      obtain ⟨third, some'', _, content⟩ := lies_cons.mp (lies_children follows)
      have span : info.span = (Fragment.node info (finish :: inner)).span := rfl
      refine lies_cons.mpr ⟨first, ?_, follows_of_lies rfl rfl (content.mono ?_ (Nat.le_refl _)), ih rest⟩
      · show before.span.start < info.span.stop
        rw [← span] at second some'
        omega
      · show before.span.start ≤ finish.span.stop
        rw [← span] at second
        omega
  | case2 before element rest _ ih =>
    obtain ⟨first, some, follows, others⟩ := lies_cons.mp lies
    exact lies_cons.mpr ⟨first, some, follows, ih others⟩
  | case3 => exact lies

theorem nested_foldConditions {fragment : Fragment} (laid : fragment.Follows spacing (Laid source))
    (nested : fragment.Follows spacing (Nested Unread)) : (foldConditions fragment).Follows spacing (Nested Unread) :=
  nested_mapChildren laid nested (fun _ => rfl) fun _ children _ lies => lies_joinConditions children lies

theorem lies_joinTexts (children : List Fragment) (lies : Lies (Nested expression) children start stop) :
    Lies (Nested expression) (joinTexts children) start stop := by
  induction children generalizing start with
  | nil => exact lies
  | cons child rest ih =>
    obtain ⟨first, some, follows, others⟩ := lies_cons.mp lies
    have joined := ih others
    cases child with
    | node info inner =>
      unfold joinTexts
      split
      · exact lies_cons.mpr ⟨first, some, follows, joined⟩
      · next value text =>
        obtain rfl := eq_nil_of_leaf follows (canHaveChildren_of_textOf? text)
        split
        · next next below later same =>
          rw [same] at joined
          obtain ⟨second, some', _, last⟩ := lies_cons.mp joined
          have whole : info.span.start < next.span.stop := by
            have span : (Fragment.node info []).span = info.span := rfl
            have span' : (Fragment.node next below).span = next.span := rfl
            rw [span] at some second
            rw [span'] at some' second
            omega
          split
          · exact lies_cons.mpr ⟨first, whole, follows_empty (Nat.le_of_lt whole), last⟩
          · exact lies_cons.mpr ⟨first, some, follows_empty (Nat.le_of_lt some), joined⟩
        · exact lies_cons.mpr ⟨first, some, follows_empty (Nat.le_of_lt some), others.inOrder.le, List.forall_mem_nil _⟩

theorem nested_mergeCdata {fragment : Fragment} (laid : fragment.Follows spacing (Laid source))
    (nested : fragment.Follows spacing (Nested Unread)) : (mergeCdata fragment).Follows spacing (Nested Unread) := by
  refine nested_mapChildren laid nested (fun info => ?_) fun info children _ lies => ?_
  · split <;> rfl
  · split
    · exact lies_joinTexts children lies
    · exact lies

/-! ### Interpolations -/

/-- The text of a piece without delimiters. -/
def TextPiece.inside : TextPiece → List Char
  | .text cs => cs
  | .expression cs => cs

theorem inside_ne_nil_of_mem_textPieces (cs : List Char) : ∀ piece ∈ textPieces cs, piece.inside ≠ [] := by
  fun_induction textPieces cs with
  | case1 => exact fun _ member => absurd member List.not_mem_nil
  | case2 c cs inner rest found ih =>
    refine List.forall_mem_cons.mpr ⟨?_, ih⟩
    unfold expression? at found
    split at found
    · obtain ⟨_, _, same⟩ := Option.map_eq_some_iff.mp found
      cases same
      exact List.cons_ne_nil _ _
    · cases found
  | case3 c cs _ ih =>
    unfold consPiece
    split
    · next more pieces same =>
      rw [same] at ih
      exact List.forall_mem_cons.mpr ⟨List.cons_ne_nil _ _, (List.forall_mem_cons.mp ih).2⟩
    · exact List.forall_mem_cons.mpr ⟨List.cons_ne_nil _ _, ih⟩

theorem bytes_pos {piece : TextPiece} (some : piece.inside ≠ []) : 0 < piece.bytes := by
  cases piece with
  | text cs => exact Text.byteLength_pos some
  | expression cs =>
    show 0 < 2 + byteLength cs + 2
    omega

theorem follows_piece {piece : TextPiece} (some : piece.inside ≠ [])
    (cut : Cut source start (start + piece.bytes) piece.chars) :
    (piece.node start).Follows spacing (Nested (Between source)) := by
  cases piece with
  | text cs => exact follows_empty cut.le
  | expression cs =>
    obtain ⟨opening, inside⟩ := cut.of_append
    obtain ⟨expression, closing⟩ := inside.of_append
    have inner := expression.lt_of_ne_nil some
    refine Fragment.follows_node.mpr ⟨⟨nofun, ?_, fun _ => .inr ⟨_, rfl, rfl, opening, closing⟩⟩, ?_⟩
    · exact ⟨opening.le, inner, closing.le⟩
    · intro child member
      rw [List.mem_singleton.mp member]
      exact follows_empty (Nat.le_of_lt inner)

theorem lies_nodes (pieces : List TextPiece) (some : ∀ piece ∈ pieces, piece.inside ≠ [])
    (cut : Cut source start stop (allChars pieces)) :
    Lies (Nested (Between source)) (TextPiece.nodes start pieces) start stop := by
  induction pieces generalizing start with
  | nil => exact ⟨cut.le, List.forall_mem_nil _⟩
  | cons piece pieces ih =>
    obtain ⟨first, others⟩ := List.forall_mem_cons.mp some
    obtain ⟨here, rest⟩ := Cut.of_append cut
    rw [← TextPiece.bytes_eq] at here rest
    have span : (piece.node start).span = ⟨start, start + piece.bytes⟩ := by cases piece <;> rfl
    refine lies_cons.mpr ⟨?_, ?_, follows_piece first here, ?_⟩
    · rw [span]
    · rw [span]
      exact Nat.lt_add_of_pos_right (bytes_pos first)
    · rw [span]
      exact ih others rest

theorem lies_flatMap (children : List Fragment) (laid : ∀ child ∈ children, LaidNode source child.info.spacing)
    (lies : Lies (Nested (Between source)) children start stop) :
    Lies (Nested (Between source)) (children.flatMap splitText) start stop := by
  induction children generalizing start with
  | nil => exact lies
  | cons child rest ih =>
    obtain ⟨here, laid⟩ := List.forall_mem_cons.mp laid
    obtain ⟨first, some, follows, others⟩ := lies_cons.mp lies
    have split : Lies (Nested (Between source)) (splitText child) child.span.start child.span.stop := by
      cases isText : child.kind.isText with
      | false =>
        rw [splitText_of_noText isText]
        exact lies_cons.mpr ⟨Nat.le_refl _, some, follows, Nat.le_refl _, List.forall_mem_nil _⟩
      | true =>
        obtain ⟨value, kind⟩ := exists_text_of_isText isText
        unfold splitText
        rw [kind]
        refine lies_nodes _ (inside_ne_nil_of_mem_textPieces _) ?_
        rw [allChars_textPieces]
        refine here.spelled value ?_
        rw [show child.info.spacing.kind = .text value from kind]
        rfl
    obtain ⟨inOrder, follow⟩ := ih laid others
    refine ⟨?_, fun node member => ?_⟩
    · rw [List.flatMap_cons, List.map_append]
      exact Markup.Span.inOrder_append.mpr ⟨_, split.inOrder.mono first (Nat.le_refl _), inOrder⟩
    · obtain member | member := List.mem_append.mp (List.flatMap_cons ▸ member)
      · exact split.follow node member
      · exact follow node member

theorem nested_splitInterpolations {fragment : Fragment} (laid : fragment.Follows spacing (LaidText source))
    (nested : fragment.Follows spacing (Nested Unread)) :
    (splitInterpolations fragment).Follows spacing (Nested (Between source)) := by
  have own (node : Spacing) (children : List Spacing) (laid : LaidText source node children) : LaidNode source node :=
    laidNode_of_laid node children laid.toLaid
  refine Fragment.follows_mapChildren (fun info children here below => ?_) fragment
    ((Fragment.follows_childrenToo own fragment laid).both nested)
  obtain ⟨⟨_, texts⟩, leaf, inOrder, inner⟩ := here
  rw [spans_looks] at inOrder
  have lies : Lies (Nested (Between source)) children info.span.start info.span.stop := ⟨inOrder, below⟩
  have empty : info.kind = .interpolation → children = [] := by
    intro isInterpolation
    obtain none | ⟨_, _, never⟩ := inner isInterpolation
    · exact List.map_eq_nil_iff.mp none
    · exact never.elim
  split
  · next splits =>
    have parent : info.kind.canHaveChildren = true := by
      simp only [Annotate.splits, Bool.and_eq_true] at splits
      exact splits.1.1
    have split := lies_flatMap children (fun child member => texts _ (List.mem_map_of_mem member)) lies
    refine ⟨⟨fun isLeaf => ?_, ?_, fun isInterpolation => .inl ?_⟩, split.follow⟩
    · exact absurd (parent.symm.trans isLeaf) (by decide)
    · rw [spans_looks]
      exact split.inOrder
    · rw [empty isInterpolation]
      rfl
  · refine ⟨⟨leaf, ?_, fun isInterpolation => .inl ?_⟩, below⟩
    · rw [spans_looks]
      exact inOrder
    · rw [empty isInterpolation]
      rfl

/-! ### Trimming -/

/-- A text is spelled as in the source. -/
def Spelled (source : List Char) (node : Spacing) : Prop :=
  ∀ value, node.kind = .text value → Cut source node.span.start node.span.stop value.toList

/-- A node that is nested, and is spelled as in the source if it is a text. -/
structure Faithful (source : List Char) (node : Spacing) (children : List Spacing) : Prop
    extends Nested (Between source) node children where
  spelled : Spelled source node

theorem spelled_of_laidNode {node : Spacing} (laid : LaidNode source node) : Spelled source node := by
  intro value isText
  exact laid.spelled value (by rw [isText]; rfl)

theorem Spelled.flagged {node : Fragment} (spelled : Spelled source node.info.spacing) (flag : Flag) :
    Spelled source (withFlag flag node).info.spacing := by
  cases node
  exact spelled

theorem follows_flagged {node : Fragment} (follows : node.Follows spacing (Faithful source)) (flag : Flag) :
    (withFlag flag node).Follows spacing (Faithful source) := by
  cases node with
  | node info children =>
    obtain ⟨⟨⟨leaf, inOrder, inner⟩, spelled⟩, below⟩ := follows
    refine ⟨⟨⟨leaf, inOrder, fun isInterpolation => ?_⟩, spelled⟩, below⟩
    obtain none | ⟨only, same, isText, opening, closing⟩ := inner isInterpolation
    · exact .inl none
    · exact .inr ⟨only, same, isText, opening, closing⟩

theorem spans_flagFirst (flag : Flag) (condition : Bool) (nodes : List Fragment) :
    (flagFirst flag condition nodes).map Fragment.span = nodes.map Fragment.span := by
  cases nodes with
  | nil => rfl
  | cons node rest =>
    cases node
    cases condition <;> rfl

theorem inOrder_trimmedText {info : NodeInfo} {value : List Char} (inner : List Fragment)
    (cut : Cut source info.span.start info.span.stop value) (some : value.all isMarkupSpace = false) :
    InOrder [(trimmedText info value inner).span] info.span.start info.span.stop := by
  have cuts : Cut source info.spacing.span.start info.spacing.span.stop value := cut
  obtain ⟨leading, core, trailing⟩ := cut_trimmed cuts some
  exact ⟨leading.le, core.lt_of_ne_nil (Text.solid_dropEnds some).nonempty, trailing.le⟩

theorem inOrder_trimTexts (kept rest : List Fragment) (spelled : ∀ node ∈ rest, Spelled source node.info.spacing)
    (inOrder : InOrder ((kept.map Fragment.span).reverse ++ rest.map Fragment.span) start stop) :
    InOrder ((trimTexts kept rest).map Fragment.span) start stop := by
  fun_induction trimTexts kept rest with
  | case1 kept =>
    rw [List.map_reverse]
    simpa using inOrder
  | case2 kept info inner rest value isText cs blank ih =>
    obtain ⟨here, others⟩ := List.forall_mem_cons.mp spelled
    refine ih (mem_flagFirst (fun node (spelled : Spelled source node.info.spacing) => spelled.flagged _)
      others) ?_
    rw [spans_flagFirst, spans_flagFirst]
    have fits : InOrder [] info.span.start info.span.stop := (here value isText).le
    exact inOrder.replace fits
  | case3 kept info inner rest value isText cs some leading trailing ih =>
    obtain ⟨here, others⟩ := List.forall_mem_cons.mp spelled
    have fits := inOrder_trimmedText inner (here value isText) (Bool.eq_false_iff.mpr some)
    refine ih (mem_flagFirst (fun node (spelled : Spelled source node.info.spacing) => spelled.flagged _)
      others) ?_
    rw [List.map_cons, spans_flagFirst, spans_flagFirst, List.reverse_cons, List.append_assoc]
    exact inOrder.replace fits
  | case4 kept info inner rest _ ih =>
    obtain ⟨_, others⟩ := List.forall_mem_cons.mp spelled
    refine ih others ?_
    rw [List.map_cons, List.reverse_cons, List.append_assoc]
    exact inOrder

theorem follows_trimmedText (info : NodeInfo) (inner : List Fragment) (value : String)
    (follows : (Fragment.node info inner).Follows spacing (Faithful source)) (isText : info.kind = .text value)
    (some : value.toList.all isMarkupSpace = false) :
    (trimmedText info value.toList inner).Follows spacing (Faithful source) := by
  have cut : Cut source info.spacing.span.start info.spacing.span.stop value.toList := follows.1.spelled value isText
  obtain ⟨_, core, _⟩ := cut_trimmed cut some
  have childless : info.kind.canHaveChildren = false := by
    rw [isText]
    rfl
  have empty : inner = [] := List.map_eq_nil_iff.mp (follows.1.leaf childless)
  subst empty
  refine ⟨⟨nested_leaf core.le, ?_⟩, trivial⟩
  rintro _ ⟨⟩
  rw [String.toList_ofList]
  exact core

theorem follows_trimNode_faithful (info : NodeInfo) (children : List Fragment) (laid : LaidNode source info.spacing)
    (texts : ∀ child ∈ children, LaidNode source child.info.spacing)
    (nested : Nested (Between source) info.spacing (looks spacing children))
    (below : ∀ child ∈ children, child.Follows spacing (Faithful source)) :
    (trimNode info children).Follows spacing (Faithful source) := by
  have spelled := spelled_of_laidNode laid
  unfold trimNode
  split
  · exact Fragment.follows_node.mpr ⟨⟨nested, spelled⟩, below⟩
  · split
    · exact Fragment.follows_node.mpr ⟨⟨nested_leaf nested.inOrder.le, spelled⟩, List.forall_mem_nil _⟩
    · dsimp only
      split
      · refine Fragment.follows_node.mpr ⟨⟨⟨nested.leaf, nested.inOrder, fun isInterpolation => ?_⟩, spelled⟩, below⟩
        obtain none | ⟨only, same, isText, opening, closing⟩ := nested.inner isInterpolation
        · exact .inl none
        · exact .inr ⟨only, same, isText, opening, closing⟩
      · next parent _ insensitive =>
        have flagged (flag : Flag) (node : Fragment) (follows : node.Follows spacing (Faithful source)) :
            (withFlag flag node).Follows spacing (Faithful source) := follows_flagged follows flag
        have follow := forall_trimTexts (fun flag _ => flagged flag) (fun flag _ => flagged flag) follows_trimmedText (fun _ _ follows _ => follows) [] children
          nofun below
        have inOrder := inOrder_trimTexts [] children (fun child member => spelled_of_laidNode (texts child member))
          (spans_looks children ▸ nested.inOrder)
        refine Fragment.follows_node.mpr ⟨⟨⟨fun isLeaf => ?_, ?_, fun isInterpolation => ?_⟩, spelled⟩, follow⟩
        · have isLeaf : info.kind.canHaveChildren = false := isLeaf
          rw [isLeaf] at parent
          exact absurd rfl parent
        · rw [spans_looks]
          exact inOrder
        · have isInterpolation : info.kind = .interpolation := isInterpolation
          rw [isInterpolation] at insensitive
          exact absurd rfl insensitive

theorem faithful_trimText {root : Fragment} (laid : root.Follows spacing (LaidText source))
    (nested : root.Follows spacing (Nested (Between source))) : (trimText root).Follows spacing (Faithful source) := by
  have own (node : Spacing) (children : List Spacing) (laid : LaidText source node children) : LaidNode source node :=
    laidNode_of_laid node children laid.toLaid
  refine Fragment.follows_bottomUp (look_trimNode fun _ _ _ _ => rfl) (fun info children here below => ?_) root
    ((Fragment.follows_childrenToo own root laid).both nested)
  obtain ⟨⟨laid, texts⟩, nested⟩ := here
  exact follows_trimNode_faithful info children (laidNode_of_laid _ _ laid.toLaid)
    (fun child member => texts _ (List.mem_map_of_mem member)) nested below

theorem faithful_normalize {root : Fragment} (laid : root.Follows spacing (Laid source))
    (nested : root.Follows spacing (Nested Unread)) : (normalize root).Follows spacing (Faithful source) := by
  have afterFeeds := laid_dropFirstLineFeeds laid
  have afterConditions := laid_foldConditions afterFeeds
  have afterCdata := laidText_mergeCdata afterConditions
  have nestedFeeds := nested_dropFirstLineFeeds laid nested
  have nestedConditions := nested_foldConditions afterFeeds nestedFeeds
  have nestedCdata := nested_mergeCdata afterConditions nestedConditions
  exact faithful_trimText (laidText_splitInterpolations afterCdata) (nested_splitInterpolations afterCdata nestedCdata)

end MarkupFormat.Annotate
