import MarkupFormat.Annotate.Annotated
import MarkupFormat.Proofs.Annotate.Laid

/-!
# Trimmed texts

Trimming moves through the children of a node with those that were kept on the one side and those that are
left on the other. Between the last kept node and the first one that is left, both of these know whether
white space was removed (`spaced_trimTexts`).
-/

namespace MarkupFormat.Text

/-- A text that neither begins nor ends with white space, and is not empty. -/
structure Solid (cs : List Char) : Prop where
  nonempty : cs ≠ []
  first : ∀ c ∈ cs.head?, isMarkupSpace c = false
  last : ∀ c ∈ cs.getLast?, isMarkupSpace c = false

variable {p : Char → Bool} {cs : List Char}

theorem dropEnd_append_takeEnd (p : Char → Bool) (cs : List Char) : dropEnd p cs ++ takeEnd p cs = cs := by
  unfold dropEnd takeEnd
  rw [← List.reverse_append, List.takeWhile_append_dropWhile, List.reverse_reverse]

theorem all_takeEnd (p : Char → Bool) (cs : List Char) : (takeEnd p cs).all p = true := by
  unfold takeEnd
  rw [List.all_reverse, List.all_takeWhile]

theorem dropWhile_ne_nil (some : cs.all p = false) : cs.dropWhile p ≠ [] := by
  intro empty
  have whole : cs.takeWhile p ++ cs.dropWhile p = cs := List.takeWhile_append_dropWhile
  rw [empty, List.append_nil] at whole
  rw [← whole, List.all_takeWhile] at some
  cases some

theorem eq_false_of_head?_dropWhile {c : Char} (head : (cs.dropWhile p).head? = some c) : p c = false := by
  have first := List.head?_dropWhile_not p cs
  rw [head] at first
  exact first

theorem all_dropWhile (some : cs.all p = false) : (cs.dropWhile p).all p = false := by
  obtain ⟨c, rest, same⟩ := List.exists_cons_of_ne_nil (dropWhile_ne_nil some)
  have first : p c = false := eq_false_of_head?_dropWhile (by rw [same]; rfl)
  rw [same, List.all_cons, first, Bool.false_and]

theorem takeEnd_dropWhile (some : cs.all p = false) : takeEnd p (cs.dropWhile p) = takeEnd p cs := by
  have inside : ((cs.dropWhile p).reverse.takeWhile p).length ≠ (cs.dropWhile p).reverse.length := by
    intro whole
    have all : (cs.dropWhile p).reverse.all p = true := by
      rw [← (List.takeWhile_prefix p).eq_of_length whole, List.all_takeWhile]
    rw [List.all_reverse, all_dropWhile some] at all
    cases all
  have whole : cs.reverse = (cs.dropWhile p).reverse ++ (cs.takeWhile p).reverse := by
    rw [← List.reverse_append, List.takeWhile_append_dropWhile]
  unfold takeEnd
  rw [whole, List.takeWhile_append, if_neg inside]

theorem takeWhile_append_dropEnds (some : cs.all p = false) :
    cs.takeWhile p ++ (dropEnds p cs ++ takeEnd p cs) = cs := by
  unfold dropEnds
  rw [← takeEnd_dropWhile some, dropEnd_append_takeEnd, List.takeWhile_append_dropWhile]

theorem solid_dropEnds (some : cs.all isMarkupSpace = false) : Solid (dropEnds isMarkupSpace cs) := by
  have inside : (cs.dropWhile isMarkupSpace).reverse.all isMarkupSpace = false := by
    rw [List.all_reverse, all_dropWhile some]
  have nonempty : dropEnds isMarkupSpace cs ≠ [] := by
    intro empty
    exact dropWhile_ne_nil inside (List.reverse_eq_nil_iff.mp empty)
  refine ⟨nonempty, fun c head => ?_, fun c last => ?_⟩
  · have whole := dropEnd_append_takeEnd isMarkupSpace (cs.dropWhile isMarkupSpace)
    have first : (cs.dropWhile isMarkupSpace).head? = Option.some c := by
      rw [← whole]
      exact (List.head?_append_of_ne_nil _ nonempty).trans head
    exact eq_false_of_head?_dropWhile first
  · unfold dropEnds dropEnd at last
    rw [List.getLast?_reverse] at last
    exact eq_false_of_head?_dropWhile last

end MarkupFormat.Text

namespace MarkupFormat.Annotate

open Markup (Flag Fragment NodeInfo NodeKind Span Spacing)
open Markup.Fragment (looks)
open Markup.NodeInfo (spacing)
open Markup.Spacing (Apart)
open Text (Cut Solid byteLength isMarkupSpace)

/-! ### The rule -/

/-- Two neighbours both know whether there is white space between them, and there is nothing else. -/
structure Spaced (source : List Char) (node next : Spacing) : Prop where
  trailing : node.trailing = decide (node.span.stop < next.span.start)
  leading : next.leading = decide (node.span.stop < next.span.start)
  gap : ∃ gap, Cut source node.span.stop next.span.start gap ∧ gap.all isMarkupSpace = true
  apart : Apart node next

/-- A node whose texts are trimmed, unless its white space shows. -/
structure Trimmed (source : List Char) (node : Spacing) (children : List Spacing) : Prop where
  noCdata : ∀ child ∈ children, ∀ value, child.kind ≠ .cdata value
  spaced : isWhitespaceSensitive node.kind = false → children.IsChain (Spaced source)
  solid : isWhitespaceSensitive node.kind = false →
    ∀ child ∈ children, ∀ value, child.kind = .text value → Solid value.toList

variable {source : List Char}

/-! ### Flags -/

theorem spacing_flagged_trailing (condition : Bool) (node : Fragment) :
    (if condition then withFlag .trailingSpaces node else node).info.spacing =
      { node.info.spacing with trailing := node.info.spacing.trailing || condition } := by
  cases node with
  | node info children =>
    cases condition <;> simp [withFlag, spacing, Markup.Fragment.info, Markup.Flags.add]

theorem spacing_flagged_leading (condition : Bool) (node : Fragment) :
    (if condition then withFlag .leadingSpaces node else node).info.spacing =
      { node.info.spacing with leading := node.info.spacing.leading || condition } := by
  cases node with
  | node info children =>
    cases condition <;> simp [withFlag, spacing, Markup.Fragment.info, Markup.Flags.add]

theorem looks_flagFirst_trailing (condition : Bool) (node : Fragment) (rest : List Fragment) :
    looks spacing (flagFirst .trailingSpaces condition (node :: rest)) =
      { node.info.spacing with trailing := node.info.spacing.trailing || condition } :: looks spacing rest := by
  rw [← spacing_flagged_trailing]
  rfl

theorem looks_flagFirst_leading (condition : Bool) (node : Fragment) (rest : List Fragment) :
    looks spacing (flagFirst .leadingSpaces condition (node :: rest)) =
      { node.info.spacing with leading := node.info.spacing.leading || condition } :: looks spacing rest := by
  rw [← spacing_flagged_leading]
  rfl

/-! ### Neighbours -/

/-- The last kept node and the first one that is left. No white space was removed before a text yet. -/
structure Border (source : List Char) (node next : Spacing) : Prop extends Spaced source node next where
  text : next.kind.isText = true → node.span.stop = next.span.start

/-- The nodes that are left, of which at most the first one is flagged. -/
structure Left (source : List Char) (rest : List Spacing) : Prop where
  meets : rest.IsChain Meets
  fresh : ∀ node ∈ rest, node.trailing = false
  later : ∀ node ∈ rest.tail, node.leading = false
  placed : ∀ node ∈ rest, ∃ part, Cut source node.span.start node.span.stop part
  spelled : ∀ node ∈ rest, ∀ value, node.kind = .text value →
    Cut source node.span.start node.span.stop value.toList

theorem decide_lt_of_cut {start stop : Nat} {part : List Char} (cut : Cut source start stop part) :
    decide (start < stop) = decide (part ≠ []) := by
  by_cases empty : part = []
  · obtain ⟨_, _, _, _, stops⟩ := cut
    rw [empty, Text.byteLength_nil] at stops
    simp [empty, ← stops]
  · simp [empty, cut.lt_of_ne_nil empty]

theorem Left.tail {node : Spacing} {rest : List Spacing} (left : Left source (node :: rest)) :
    Left source rest ∧ ∀ next ∈ rest, next.leading = false := by
  refine ⟨⟨(List.isChain_cons.mp left.meets).2, ?_, ?_, ?_, ?_⟩, left.later⟩
  · exact fun next member => left.fresh next (List.mem_cons_of_mem _ member)
  · exact fun next member => left.later next (List.mem_of_mem_tail member)
  · exact fun next member => left.placed next (List.mem_cons_of_mem _ member)
  · exact fun next member => left.spelled next (List.mem_cons_of_mem _ member)

theorem Left.flagged {node : Spacing} {rest : List Spacing} (left : Left source (node :: rest)) (leading : Bool) :
    Left source ({ node with leading := leading } :: rest) := by
  obtain ⟨next, others⟩ := List.isChain_cons.mp left.meets
  refine ⟨List.isChain_cons.mpr ⟨fun other head => ?_, others⟩, ?_, left.later, ?_, ?_⟩
  · obtain ⟨touch, apart⟩ := next other head
    exact ⟨touch, apart⟩
  · intro other member
    rcases List.mem_cons.mp member with rfl | member
    · exact left.fresh node List.mem_cons_self
    · exact left.fresh other (List.mem_cons_of_mem _ member)
  · intro other member
    rcases List.mem_cons.mp member with rfl | member
    · exact left.placed node List.mem_cons_self
    · exact left.placed other (List.mem_cons_of_mem _ member)
  · intro other member
    rcases List.mem_cons.mp member with rfl | member
    · exact left.spelled node List.mem_cons_self
    · exact left.spelled other (List.mem_cons_of_mem _ member)

/-- Before a text, nothing is flagged. -/
theorem Border.unflagged {node text : Spacing} (border : Border source node text)
    (isText : text.kind.isText = true) : node.trailing = false ∧ text.leading = false := by
  have touch := border.text isText
  constructor
  · rw [border.trailing, touch]
    simp
  · rw [border.leading, touch]
    simp

/-- Over a text that is only white space, its neighbours become neighbours. -/
theorem Border.skip {node text next : Spacing} {value : String} (border : Border source node text)
    (isText : text.kind = .text value) (cut : Cut source text.span.start text.span.stop value.toList)
    (blank : value.toList.all isMarkupSpace = true) (meets : Meets text next) (fresh : next.leading = false) :
    Border source { node with trailing := node.trailing || decide (value.toList ≠ []) }
      { next with leading := next.leading || decide (value.toList ≠ []) } := by
  have plain : text.kind.isText = true := by rw [isText]; rfl
  have noText : next.kind.isText = false := by
    cases other : next.kind.isText with
    | false => rfl
    | true => exact absurd ⟨plain, other⟩ meets.apart
  have flags := decide_lt_of_cut cut
  rw [← border.text plain, meets.touch] at cut flags
  refine ⟨⟨?_, ?_, ⟨_, cut, blank⟩, fun both => border.apart ⟨both.1, plain⟩⟩, fun both => ?_⟩
  · show (node.trailing || _) = _
    rw [(border.unflagged plain).1, Bool.false_or]
    exact flags.symm
  · show (next.leading || _) = _
    rw [fresh, Bool.false_or]
    exact flags.symm
  · have isText : next.kind.isText = true := both
    rw [noText] at isText
    cases isText

/-- A text without the white space around it. -/
def trimmed (text : Spacing) (value : List Char) : Spacing :=
  let leading := value.takeWhile isMarkupSpace
  let trailing := Text.takeEnd isMarkupSpace value
  { kind := .text (String.ofList (Text.dropEnds isMarkupSpace value))
    span := ⟨text.span.start + byteLength leading, text.span.stop - byteLength trailing⟩
    leading := text.leading || decide (leading ≠ [])
    trailing := text.trailing || decide (trailing ≠ []) }

theorem cut_trimmed {text : Spacing} {value : List Char} (cut : Cut source text.span.start text.span.stop value)
    (some : value.all isMarkupSpace = false) :
    Cut source text.span.start (trimmed text value).span.start (value.takeWhile isMarkupSpace) ∧
      Cut source (trimmed text value).span.start (trimmed text value).span.stop
        (Text.dropEnds isMarkupSpace value) ∧
      Cut source (trimmed text value).span.stop text.span.stop (Text.takeEnd isMarkupSpace value) := by
  rw [← Text.takeWhile_append_dropEnds some] at cut
  obtain ⟨leading, rest⟩ := cut.of_append
  obtain ⟨core, trailing⟩ := rest.of_append
  obtain ⟨_, _, _, _, stops⟩ := id trailing
  have stop : (trimmed text value).span.stop =
      text.span.start + byteLength (value.takeWhile isMarkupSpace) +
        byteLength (Text.dropEnds isMarkupSpace value) := by
    show text.span.stop - byteLength (Text.takeEnd isMarkupSpace value) = _
    omega
  rw [stop]
  exact ⟨leading, core, trailing⟩

theorem Border.spaced_trimmed {node text : Spacing} {value : String} (border : Border source node text)
    (isText : text.kind = .text value) (cut : Cut source text.span.start text.span.stop value.toList)
    (some : value.toList.all isMarkupSpace = false) :
    Spaced source
      { node with trailing := node.trailing || decide (value.toList.takeWhile isMarkupSpace ≠ []) }
      (trimmed text value.toList) := by
  have plain : text.kind.isText = true := by rw [isText]; rfl
  obtain ⟨leading, _, _⟩ := cut_trimmed cut some
  have flags := decide_lt_of_cut leading
  rw [← border.text plain] at leading flags
  refine ⟨?_, ?_, ⟨_, leading, List.all_takeWhile⟩, fun both => border.apart ⟨both.1, plain⟩⟩
  · show (node.trailing || _) = _
    rw [(border.unflagged plain).1, Bool.false_or]
    exact flags.symm
  · show (text.leading || _) = _
    rw [(border.unflagged plain).2, Bool.false_or]
    exact flags.symm

theorem border_trimmed {text next : Spacing} {value : String} (isText : text.kind = .text value)
    (cut : Cut source text.span.start text.span.stop value.toList)
    (some : value.toList.all isMarkupSpace = false) (fresh : text.trailing = false) (meets : Meets text next)
    (unflagged : next.leading = false) :
    Border source (trimmed text value.toList)
      { next with leading := next.leading || decide (Text.takeEnd isMarkupSpace value.toList ≠ []) } := by
  have plain : text.kind.isText = true := by rw [isText]; rfl
  have noText : ¬next.kind.isText = true := fun other => meets.apart ⟨plain, other⟩
  obtain ⟨_, _, trailing⟩ := cut_trimmed cut some
  have flags := decide_lt_of_cut trailing
  rw [meets.touch] at trailing flags
  refine ⟨⟨?_, ?_, ⟨_, trailing, Text.all_takeEnd _ _⟩, fun both => noText both.2⟩, fun both => absurd both noText⟩
  · show (text.trailing || _) = _
    rw [fresh, Bool.false_or]
    exact flags.symm
  · show (next.leading || _) = _
    rw [unflagged, Bool.false_or]
    exact flags.symm

theorem border_of_meets {node next : Spacing} (placed : ∃ part, Cut source node.span.start node.span.stop part)
    (fresh : node.trailing = false) (meets : Meets node next) (unflagged : next.leading = false) :
    Border source node next := by
  obtain ⟨part, cut⟩ := placed
  have none : Cut source node.span.stop next.span.start [] := by
    rw [← meets.touch]
    exact cut.nil_stop
  have flags := decide_lt_of_cut none
  refine ⟨⟨?_, ?_, ⟨[], none, rfl⟩, meets.apart⟩, fun _ => meets.touch⟩
  · rw [flags, fresh]
    rfl
  · rw [flags, unflagged]
    rfl

/-! ### Trimming a list -/

/-- The nodes that are kept are spaced, the last one first, and so are the last one and what is left. -/
structure Trimming (source : List Char) (kept rest : List Fragment) : Prop where
  chain : (looks spacing kept).IsChain fun next node => Spaced source node next
  border : ∀ last ∈ kept.head?, ∀ first ∈ rest.head?, Border source last.info.spacing first.info.spacing
  left : Left source (looks spacing rest)

theorem trimming_nil {children : List Fragment} (left : Left source (looks spacing children)) :
    Trimming source [] children :=
  ⟨.nil, nofun, left⟩

theorem Left.flagFirst {rest : List Fragment} (left : Left source (looks spacing rest)) (condition : Bool) :
    Left source (looks spacing (flagFirst .leadingSpaces condition rest)) := by
  cases rest with
  | nil => exact left
  | cons next others =>
    rw [looks_flagFirst_leading]
    exact left.flagged _

theorem isChain_flagFirst {kept : List Fragment}
    (chain : (looks spacing kept).IsChain fun next node => Spaced source node next) (condition : Bool) :
    (looks spacing (flagFirst .trailingSpaces condition kept)).IsChain fun next node => Spaced source node next := by
  cases kept with
  | nil => exact chain
  | cons last before =>
    rw [looks_flagFirst_trailing]
    obtain ⟨next, others⟩ := List.isChain_cons.mp chain
    refine List.isChain_cons.mpr ⟨fun other head => ?_, others⟩
    obtain ⟨trailing, leading, gap, apart⟩ := next other head
    exact ⟨trailing, leading, gap, apart⟩

variable {info : NodeInfo} {inner kept rest : List Fragment} {value : String}

/-- A text that is only white space is not kept. -/
theorem Trimming.skip (trimming : Trimming source kept (.node info inner :: rest))
    (isText : info.kind = .text value) (blank : value.toList.all isMarkupSpace = true) :
    Trimming source (flagFirst .trailingSpaces (value.toList ≠ []) kept)
      (flagFirst .leadingSpaces (value.toList ≠ []) rest) := by
  obtain ⟨left, unflagged⟩ := trimming.left.tail
  have cut := trimming.left.spelled info.spacing List.mem_cons_self value isText
  refine ⟨isChain_flagFirst trimming.chain _, fun last lastHead first firstHead => ?_, left.flagFirst _⟩
  cases kept with
  | nil => cases lastHead
  | cons node before =>
    cases rest with
    | nil => cases firstHead
    | cons next others =>
      cases lastHead
      cases firstHead
      rw [spacing_flagged_trailing, spacing_flagged_leading]
      obtain ⟨meets, _⟩ := List.isChain_cons_cons.mp trimming.left.meets
      exact (trimming.border node rfl _ rfl).skip isText cut blank meets
        (unflagged _ List.mem_cons_self)

theorem Trimming.trim (trimming : Trimming source kept (.node info inner :: rest))
    (isText : info.kind = .text value) (some : value.toList.all isMarkupSpace = false) :
    Trimming source
      (trimmedText info value.toList inner ::
        flagFirst .trailingSpaces (value.toList.takeWhile isMarkupSpace ≠ []) kept)
      (flagFirst .leadingSpaces (Text.takeEnd isMarkupSpace value.toList ≠ []) rest) := by
  obtain ⟨left, unflagged⟩ := trimming.left.tail
  have cut := trimming.left.spelled info.spacing List.mem_cons_self value isText
  refine ⟨List.isChain_cons.mpr ⟨fun last head => ?_, isChain_flagFirst trimming.chain _⟩,
    fun last lastHead first firstHead => ?_, left.flagFirst _⟩
  · cases kept with
    | nil => cases head
    | cons node before =>
      replace head : last ∈ (looks spacing (flagFirst .trailingSpaces _ (node :: before))).head? := head
      rw [looks_flagFirst_trailing] at head
      cases head
      exact (trimming.border node rfl _ rfl).spaced_trimmed isText cut some
  · cases lastHead
    cases rest with
    | nil => cases firstHead
    | cons next others =>
      cases firstHead
      rw [spacing_flagged_leading]
      obtain ⟨meets, _⟩ := List.isChain_cons_cons.mp trimming.left.meets
      exact border_trimmed isText cut some (trimming.left.fresh info.spacing List.mem_cons_self) meets
        (unflagged _ List.mem_cons_self)

/-- A node that is no text is kept as it is. -/
theorem Trimming.keep (trimming : Trimming source kept (.node info inner :: rest)) :
    Trimming source (.node info inner :: kept) rest := by
  obtain ⟨left, unflagged⟩ := trimming.left.tail
  refine ⟨List.isChain_cons.mpr ⟨fun last head => ?_, trimming.chain⟩, fun last lastHead first firstHead => ?_, left⟩
  · rw [List.head?_map] at head
    obtain ⟨node, same, rfl⟩ := Option.map_eq_some_iff.mp head
    exact (trimming.border node same _ rfl).toSpaced
  · cases lastHead
    cases rest with
    | nil => cases firstHead
    | cons next others =>
      cases firstHead
      obtain ⟨meets, _⟩ := List.isChain_cons_cons.mp trimming.left.meets
      exact border_of_meets (trimming.left.placed info.spacing List.mem_cons_self)
        (trimming.left.fresh info.spacing List.mem_cons_self) meets
        (unflagged _ List.mem_cons_self)

theorem spaced_trimTexts (kept rest : List Fragment) (trimming : Trimming source kept rest) :
    (looks spacing (trimTexts kept rest)).IsChain (Spaced source) := by
  fun_induction trimTexts kept rest with
  | case1 kept =>
    unfold looks
    rw [List.map_reverse, List.isChain_reverse]
    exact trimming.chain
  | case2 kept info inner rest value isText cs blank ih => exact ih (trimming.skip isText blank)
  | case3 kept info inner rest value isText cs some leading trailing ih =>
    exact ih (trimming.trim isText (Bool.eq_false_iff.mpr some))
  | case4 kept info inner rest _ ih => exact ih trimming.keep

theorem mem_flagFirst {holds : Fragment → Prop} {flag : Flag}
    (flagged : ∀ node, holds node → holds (withFlag flag node)) {condition : Bool} {nodes : List Fragment}
    (all : ∀ node ∈ nodes, holds node) :
    ∀ node ∈ flagFirst flag condition nodes, holds node := by
  cases nodes with
  | nil => exact all
  | cons first others =>
    intro node member
    rcases List.mem_cons.mp member with rfl | member
    · split
      · exact flagged first (all first List.mem_cons_self)
      · exact all first List.mem_cons_self
    · exact all node (List.mem_cons_of_mem _ member)

/-- Whatever flags for removed white space do not change holds of the nodes that are kept, if it comes to hold when a
node is. -/
theorem forall_trimTexts {isLeft isKept : Fragment → Prop}
    (flaggedLeft : ∀ flag ∈ [Flag.leadingSpaces, .trailingSpaces], ∀ node, isLeft node → isLeft (withFlag flag node))
    (flaggedKept : ∀ flag ∈ [Flag.leadingSpaces, .trailingSpaces], ∀ node, isKept node → isKept (withFlag flag node))
    (trim : ∀ info inner value, isLeft (.node info inner) → info.kind = .text value →
      value.toList.all isMarkupSpace = false → isKept (trimmedText info value.toList inner))
    (keep : ∀ info inner, isLeft (.node info inner) → (∀ value, info.kind ≠ .text value) →
      isKept (.node info inner))
    (kept rest : List Fragment) (before : ∀ node ∈ kept, isKept node) (after : ∀ node ∈ rest, isLeft node) :
    ∀ node ∈ trimTexts kept rest, isKept node := by
  have left {condition : Bool} {nodes : List Fragment} (all : ∀ node ∈ nodes, isLeft node) :
      ∀ node ∈ flagFirst .leadingSpaces condition nodes, isLeft node :=
    mem_flagFirst (flaggedLeft .leadingSpaces List.mem_cons_self) all
  have flagged {condition : Bool} {nodes : List Fragment} (all : ∀ node ∈ nodes, isKept node) :
      ∀ node ∈ flagFirst .trailingSpaces condition nodes, isKept node :=
    mem_flagFirst (flaggedKept .trailingSpaces (List.mem_cons_of_mem _ List.mem_cons_self)) all
  fun_induction trimTexts kept rest with
  | case1 kept => exact fun node member => before node (List.mem_reverse.mp member)
  | case2 kept info inner rest value isText cs blank ih =>
    exact ih (flagged before)
      (left fun node member => after node (List.mem_cons_of_mem _ member))
  | case3 kept info inner rest value isText cs some leading trailing ih =>
    refine ih (fun node member => ?_)
      (left fun node member => after node (List.mem_cons_of_mem _ member))
    rcases List.mem_cons.mp member with rfl | member
    · exact trim info inner value (after _ List.mem_cons_self) isText (Bool.eq_false_iff.mpr some)
    · exact flagged before node member
  | case4 kept info inner rest noText ih =>
    refine ih (fun node member => ?_) fun node member => after node (List.mem_cons_of_mem _ member)
    rcases List.mem_cons.mp member with rfl | member
    · exact keep info inner (after _ List.mem_cons_self) noText
    · exact before node member

/-! ### Trimming a tree -/

theorem isWhitespaceSensitive_text (value : String) : isWhitespaceSensitive (.text value) = false := by
  have calm : "pre".toList.isPrefixOf "normal".toList = false := by decide
  unfold isWhitespaceSensitive isPreLike
  show (false || false || "pre".toList.isPrefixOf "normal".toList) = false
  rw [calm]
  rfl

theorem trimmed_leaf (node : Spacing) : Trimmed source node [] :=
  ⟨fun _ member => absurd member List.not_mem_nil, fun _ => .nil, fun _ _ member => absurd member List.not_mem_nil⟩

/-- A node that takes part in trimming. -/
structure IsLeft (source : List Char) (node : Fragment) : Prop where
  follows : node.Follows spacing (Trimmed source)
  noCdata : ∀ value, node.kind ≠ .cdata value

/-- A node that trimming keeps. -/
structure IsKept (source : List Char) (node : Fragment) : Prop extends IsLeft source node where
  solid : ∀ value, node.kind = .text value → Solid value.toList

theorem IsLeft.flagged {node : Fragment} (left : IsLeft source node) (flag : Flag) :
    IsLeft source (withFlag flag node) := by
  obtain ⟨follows, noCdata⟩ := left
  cases node with
  | node info children =>
    obtain ⟨⟨noCdataBelow, spaced, solid⟩, below⟩ := follows
    exact ⟨⟨⟨noCdataBelow, spaced, solid⟩, below⟩, noCdata⟩

theorem IsKept.flagged {node : Fragment} (kept : IsKept source node) (flag : Flag) :
    IsKept source (withFlag flag node) := by
  obtain ⟨left, solid⟩ := kept
  refine ⟨left.flagged flag, ?_⟩
  cases node with
  | node info children => exact solid

theorem isKept_trimmedText (info : NodeInfo) (inner : List Fragment) (value : String)
    (left : IsLeft source (.node info inner)) (isText : info.kind = .text value)
    (some : value.toList.all isMarkupSpace = false) :
    IsKept source (trimmedText info value.toList inner) := by
  obtain ⟨⟨⟨noCdata, spaced, solid⟩, below⟩, _⟩ := left
  have plain : isWhitespaceSensitive info.spacing.kind = false := by
    show isWhitespaceSensitive info.kind = false
    rw [isText, isWhitespaceSensitive_text]
  refine ⟨⟨⟨⟨noCdata, fun _ => spaced plain, fun _ => solid plain⟩, below⟩, by nofun⟩, ?_⟩
  rintro _ ⟨⟩
  rw [String.toList_ofList]
  exact Text.solid_dropEnds some

/-- What a rule of laid nodes says of a node alone. -/
structure LaidNode (source : List Char) (node : Spacing) : Prop where
  unspaced : node.leading = false ∧ node.trailing = false
  placed : ∃ part, Cut source node.span.start node.span.stop part
  spelled : ∀ value, textOf? node.kind = some value → Cut source node.span.start node.span.stop value.toList

theorem left_of_laid {children : List Spacing} (meets : children.IsChain Meets)
    (laid : ∀ child ∈ children, LaidNode source child) : Left source children := by
  refine ⟨meets, fun node member => (laid node member).unspaced.2,
    fun node member => (laid node (List.mem_of_mem_tail member)).unspaced.1,
    fun node member => (laid node member).placed, fun node member value isText => ?_⟩
  refine (laid node member).spelled value ?_
  rw [isText]
  rfl

theorem look_trimNode {α : Type} {look : NodeInfo → α}
    (blind : ∀ (info : NodeInfo) (dangling sensitive indented : Bool),
      look { info with flags := { info.flags with
        danglingSpaces := dangling
        whitespaceSensitive := sensitive
        indentationSensitive := indented } } = look info)
    (info : NodeInfo) (children : List Fragment) : look (trimNode info children).info = look info := by
  unfold trimNode
  split
  · rfl
  · split
    · exact blind info _ info.flags.whitespaceSensitive info.flags.indentationSensitive
    · exact blind info info.flags.danglingSpaces _ _

theorem follows_trimNode (info : NodeInfo) (children : List Fragment)
    (laid : LaidText source info.spacing (looks spacing children))
    (laidChildren : ∀ child ∈ looks spacing children, LaidNode source child)
    (below : ∀ child ∈ children, child.Follows spacing (Trimmed source)) :
    (trimNode info children).Follows spacing (Trimmed source) := by
  have left : ∀ child ∈ children, IsLeft source child := fun child member =>
    ⟨below child member, laid.noCdata child.info.spacing (List.mem_map_of_mem member)⟩
  unfold trimNode
  split
  · next noChildren =>
    have none : looks spacing children = [] := by
      refine laid.leaf ?_
      show info.kind.canHaveChildren = false
      simpa using noChildren
    refine Fragment.follows_node.mpr ⟨?_, below⟩
    rw [none]
    exact trimmed_leaf _
  · split
    · exact Fragment.follows_node.mpr ⟨trimmed_leaf _, nofun⟩
    · dsimp only
      split
      · next sensitive =>
        refine Fragment.follows_node.mpr ⟨⟨laid.noCdata, fun plain => ?_, fun plain => ?_⟩, below⟩
        · exact absurd (sensitive.symm.trans plain) (by decide)
        · exact absurd (sensitive.symm.trans plain) (by decide)
      · have chain := spaced_trimTexts [] children (trimming_nil (left_of_laid laid.meets laidChildren))
        have kept : ∀ node ∈ trimTexts [] children, IsKept source node := by
          have flaggedLeft (flag : Flag) (node : Fragment) (left : IsLeft source node) :
              IsLeft source (withFlag flag node) := left.flagged flag
          have flaggedKept (flag : Flag) (node : Fragment) (kept : IsKept source node) :
              IsKept source (withFlag flag node) := kept.flagged flag
          exact forall_trimTexts (fun flag _ => flaggedLeft flag) (fun flag _ => flaggedKept flag) isKept_trimmedText
            (fun info inner left noText => ⟨left, fun value isText => absurd isText (noText value)⟩)
            [] children nofun left
        refine Fragment.follows_node.mpr ⟨⟨fun child member => ?_, fun _ => chain, fun _ child member => ?_⟩,
          fun child member => (kept child member).follows⟩
        · obtain ⟨node, inside, rfl⟩ := List.mem_map.mp member
          exact (kept node inside).noCdata
        · obtain ⟨node, inside, rfl⟩ := List.mem_map.mp member
          exact (kept node inside).solid

theorem trimmed_trimText {root : Fragment} (laid : root.Follows spacing (LaidText source)) :
    (trimText root).Follows spacing (Trimmed source) := by
  have own : ∀ (node : Spacing) (children : List Spacing), LaidText source node children → LaidNode source node :=
    fun _ _ laid => ⟨laid.unspaced, laid.placed, laid.spelled⟩
  refine Fragment.follows_bottomUp (look_trimNode fun _ _ _ _ => rfl) (fun info children here below => ?_) root
    (Fragment.follows_childrenToo own root laid)
  exact follows_trimNode info children here.1 here.2 below

/-- Normalizing a tree as read. -/
theorem trimmed_normalize {root : Fragment} (laid : root.Follows spacing (Laid source)) :
    (normalize root).Follows spacing (Trimmed source) :=
  trimmed_trimText (laidText_steps laid)

end MarkupFormat.Annotate
