import MarkupFormat.Annotate.Interpolation
import MarkupFormat.Proofs.Markup.TextsApart

/-!
# Texts before they are trimmed

Up to the step that trims texts, neighbours meet without a gap, no two of them are texts, and a text is
spelled as in the source. Reading a source brings this about and every step of `normalize` before the last
one keeps it (`laid_of_tiled`, `laidText_steps`).
-/

namespace MarkupFormat.Markup.Fragment

variable {α : Type} {look : NodeInfo → α} {rule rule' : α → List α → Prop}

theorem look_bottomUp {make : NodeInfo → List Fragment → Fragment}
    (keeps : ∀ info children, look (make info children).info = look info) (fragment : Fragment) :
    look (fragment.bottomUp make).info = look fragment.info := by
  cases fragment with
  | node info children => exact keeps info _

theorem looks_bottomUpAll {make : NodeInfo → List Fragment → Fragment}
    (keeps : ∀ info children, look (make info children).info = look info) (fragments : List Fragment) :
    looks look (bottomUpAll make fragments) = looks look fragments := by
  induction fragments with
  | nil => rfl
  | cons fragment rest ih =>
    have first := look_bottomUp keeps fragment
    simp only [looks, bottomUpAll, List.map_cons, first] at ih ⊢
    rw [ih]

mutual

/-- Making every node anew turns one rule into another if it does so for one node, over children that follow
the new rule already. -/
theorem follows_bottomUp {make : NodeInfo → List Fragment → Fragment}
    (keeps : ∀ info children, look (make info children).info = look info)
    (step : ∀ info children, rule (look info) (looks look children) →
      (∀ child ∈ children, child.Follows look rule') → (make info children).Follows look rule') :
    ∀ fragment : Fragment, fragment.Follows look rule → (fragment.bottomUp make).Follows look rule'
  | node info children, ⟨here, below⟩ => by
    refine step info _ ?_ (allFollow_iff.mp (allFollow_bottomUpAll keeps step children below))
    rw [looks_bottomUpAll keeps]
    exact here

theorem allFollow_bottomUpAll {make : NodeInfo → List Fragment → Fragment}
    (keeps : ∀ info children, look (make info children).info = look info)
    (step : ∀ info children, rule (look info) (looks look children) →
      (∀ child ∈ children, child.Follows look rule') → (make info children).Follows look rule') :
    ∀ fragments : List Fragment, AllFollow look rule fragments →
      AllFollow look rule' (bottomUpAll make fragments)
  | [], _ => trivial
  | fragment :: rest, ⟨first, others⟩ =>
    ⟨follows_bottomUp keeps step fragment first, allFollow_bottomUpAll keeps step rest others⟩

end

theorem follows_mapChildren {change : NodeInfo → List Fragment → List Fragment}
    (step : ∀ info children, rule (look info) (looks look children) →
      (∀ child ∈ children, child.Follows look rule') →
        rule' (look info) (looks look (change info children)) ∧
          ∀ child ∈ change info children, child.Follows look rule')
    (fragment : Fragment) (follows : fragment.Follows look rule) :
    (fragment.mapChildren change).Follows look rule' := by
  refine follows_bottomUp (fun _ _ => rfl) (fun info children here below => ?_) fragment follows
  exact follows_node.mpr (step info children here below)

end MarkupFormat.Markup.Fragment

namespace MarkupFormat.Annotate

open Markup (Fragment NodeInfo NodeKind Span Spacing)
open Markup.Fragment (looks)
open Markup.NodeInfo (spacing)
open Markup.Spacing (Apart AsRead)
open Text (Cut byteLength)

/-! ### The rule -/

/-- Two neighbours meet, and are not both texts. -/
structure Meets (node next : Spacing) : Prop where
  touch : node.span.stop = next.span.start
  apart : Apart node next

/-- A node before its texts are trimmed. Texts and character data are spelled as in the source. -/
structure Laid (source : List Char) (node : Spacing) (children : List Spacing) : Prop where
  unspaced : node.leading = false ∧ node.trailing = false
  placed : ∃ part, Cut source node.span.start node.span.stop part
  spelled : ∀ value, textOf? node.kind = some value → Cut source node.span.start node.span.stop value.toList
  leaf : node.kind.canHaveChildren = false → children = []
  meets : children.IsChain Meets

/-- A node that is `Laid` and has no character data below it. -/
structure LaidText (source : List Char) (node : Spacing) (children : List Spacing) : Prop
    extends Laid source node children where
  noCdata : ∀ child ∈ children, ∀ value, child.kind ≠ .cdata value

variable {source : List Char}

theorem canHaveChildren_of_textOf? {kind : NodeKind} {value : String} (text : textOf? kind = some value) :
    kind.canHaveChildren = false := by
  cases kind <;> first | rfl | cases text

theorem exists_meets (nodes : List Spacing) (meets : nodes.IsChain Meets) :
    ∃ before, (before :: nodes).IsChain Meets := by
  cases nodes with
  | nil => exact ⟨⟨.root, ⟨0, 0⟩, false, false⟩, .singleton _⟩
  | cons node rest =>
    refine ⟨⟨.root, ⟨0, node.span.start⟩, false, false⟩, List.isChain_cons_cons.mpr ⟨⟨rfl, ?_⟩, meets⟩⟩
    exact fun both => nomatch both.1

/-! ### Reading -/

theorem isChain_touch_of_tiles {fragments : List Fragment} {start stop : Nat}
    (tiles : Fragment.Tiles source fragments start stop) :
    (looks spacing fragments).IsChain fun node next => node.span.stop = next.span.start := by
  induction fragments generalizing start with
  | nil => exact .nil
  | cons fragment rest ih =>
    obtain ⟨_, _, others⟩ := tiles
    refine List.isChain_cons.mpr ⟨fun next first => ?_, ih others⟩
    cases rest with
    | nil => cases first
    | cons other rest =>
      cases first
      exact others.1.symm

theorem isChain_meets {nodes : List Spacing}
    (touch : nodes.IsChain fun node next => node.span.stop = next.span.start) (apart : nodes.IsChain Apart) :
    nodes.IsChain Meets := by
  induction nodes with
  | nil => exact .nil
  | cons node rest ih =>
    rw [List.isChain_cons] at touch apart ⊢
    exact ⟨fun next first => ⟨touch.1 next first, apart.1 next first⟩, ih touch.2 apart.2⟩

theorem canHaveChildren_of_hasSection {kind : NodeKind} (holds : kind.hasSection = true) :
    kind.canHaveChildren = true := by
  cases kind <;> first | rfl | cases holds

mutual

theorem laid_of_tiled : ∀ fragment : Fragment, fragment.Tiled source →
    fragment.Follows spacing (AsRead source) → fragment.Follows spacing (Laid source)
  | .node info children, .inl ⟨holds, start, stop, encloses, tiles⟩, ⟨read, below⟩ => by
    have parent := canHaveChildren_of_hasSection holds
    have tiled : (Fragment.node info children).Tiled source := Or.inl ⟨holds, start, stop, encloses, tiles⟩
    refine ⟨⟨read.unspaced, ⟨_, tiled.cut_written⟩, ?_, ?_, isChain_meets (isChain_touch_of_tiles tiles) read.apart⟩,
      allLaid_of_tiles children tiles below⟩
    · intro value text
      have leaf : info.kind.canHaveChildren = false := canHaveChildren_of_textOf? text
      rw [parent] at leaf
      cases leaf
    · intro leaf
      change info.kind.canHaveChildren = false at leaf
      rw [parent] at leaf
      cases leaf
  | .node info children, .inr ⟨_, empty, part, _, cut, text⟩, ⟨read, _⟩ => by
    subst empty
    refine ⟨⟨read.unspaced, ⟨part, cut⟩, ?_, fun _ => rfl, .nil⟩, trivial⟩
    intro value spelled
    change textOf? info.kind = some value at spelled
    cases kind : info.kind <;> rw [kind] at spelled <;> cases spelled
    · rw [text value kind, String.toList_ofList]
      exact cut
    · rename_i inner
      simpa using read.cdata inner kind

theorem allLaid_of_tiles : ∀ (fragments : List Fragment) {start stop : Nat},
    Fragment.Tiles source fragments start stop → Fragment.AllFollow spacing (AsRead source) fragments →
    Fragment.AllFollow spacing (Laid source) fragments
  | [], _, _, _, _ => trivial
  | first :: rest, _, _, ⟨_, tiled, tiles⟩, ⟨follows, others⟩ =>
    ⟨laid_of_tiled first tiled follows, allLaid_of_tiles rest tiles others⟩

end

theorem laid_root {options : Markup.ParseOptions} {content : List Fragment} {info : NodeInfo}
    (read : Markup.readSource options source = .ok content) (isRoot : info.kind = .root)
    (whole : info.span = ⟨0, byteLength source⟩) (bare : info.flags = {}) :
    (Fragment.node info content).Follows spacing (Laid source) := by
  have tiles := Markup.tiles_of_readSource read
  obtain ⟨follow, apart⟩ := Markup.follows_of_readSource read
  refine ⟨⟨⟨?_, ?_⟩, ⟨source, ?_⟩, ?_, ?_, isChain_meets (isChain_touch_of_tiles tiles) apart⟩,
    allLaid_of_tiles content tiles (Fragment.allFollow_iff.mpr follow)⟩
  · show info.flags.leadingSpaces = false
    rw [bare]
  · show info.flags.trailingSpaces = false
    rw [bare]
  · show Cut source info.span.start info.span.stop source
    rw [whole]
    exact Cut.whole source
  · intro value text
    change textOf? info.kind = some value at text
    rw [isRoot] at text
    cases text
  · intro leaf
    change info.kind.canHaveChildren = false at leaf
    rw [isRoot] at leaf
    cases leaf

/-! ### Line feeds that do not count -/

theorem laid_dropFirst {info : NodeInfo} {inner : List Fragment} {value : String} {cs : List Char}
    (laid : (Fragment.node info inner).Follows spacing (Laid source)) (text : info.kind = .text value)
    (begins : value.toList = '\n' :: cs) :
    (Fragment.node { info with
      kind := .text (String.ofList cs)
      span := { info.span with start := info.span.start + 1 } } inner).Follows spacing (Laid source) := by
  obtain ⟨here, below⟩ := laid
  have cut : Cut source info.span.start info.span.stop (['\n'] ++ cs) := by
    have cut := here.spelled value (by show textOf? info.kind = _; rw [text]; rfl)
    rw [begins] at cut
    exact cut
  have empty : inner = [] := by
    have none := here.leaf (by show info.kind.canHaveChildren = false; rw [text]; rfl)
    exact List.map_eq_nil_iff.mp none
  subst empty
  refine ⟨⟨here.unspaced, ⟨cs, cut.of_append.2⟩, ?_, fun _ => rfl, .nil⟩, trivial⟩
  rintro _ ⟨⟩
  rw [String.toList_ofList]
  exact cut.of_append.2

theorem laid_dropLineFeed {children : List Fragment} (meets : (looks spacing children).IsChain Meets)
    (below : ∀ child ∈ children, child.Follows spacing (Laid source)) :
    (looks spacing (dropLineFeed children)).IsChain Meets ∧
      ∀ child ∈ dropLineFeed children, child.Follows spacing (Laid source) := by
  unfold dropLineFeed
  split
  · next info inner rest =>
    split
    · next value text =>
      split
      · exact ⟨(List.isChain_cons.mp meets).2, fun child member => below child (List.mem_cons_of_mem _ member)⟩
      · next cs _ begins =>
        have first := laid_dropFirst (below _ List.mem_cons_self) text begins
        obtain ⟨next, others⟩ := List.isChain_cons.mp meets
        refine ⟨List.isChain_cons.mpr ⟨fun other head => ?_, others⟩, fun child member => ?_⟩
        · obtain ⟨touch, apart⟩ := next other head
          refine ⟨touch, fun both => apart ⟨?_, both.2⟩⟩
          show info.kind.isText = true
          rw [text]
          rfl
        · rcases List.mem_cons.mp member with rfl | member
          · exact first
          · exact below child (List.mem_cons_of_mem _ member)
      · exact ⟨meets, below⟩
    · exact ⟨meets, below⟩
  · exact ⟨.nil, fun _ member => absurd member List.not_mem_nil⟩

theorem laid_dropFirstLineFeeds {fragment : Fragment} (laid : fragment.Follows spacing (Laid source)) :
    (dropFirstLineFeeds fragment).Follows spacing (Laid source) := by
  refine Fragment.follows_mapChildren (fun info children here below => ?_) fragment laid
  split
  · obtain ⟨meets, follow⟩ := laid_dropLineFeed here.meets below
    refine ⟨⟨here.unspaced, here.placed, here.spelled, fun leaf => ?_, meets⟩, follow⟩
    rw [List.map_eq_nil_iff.mp (here.leaf leaf)]
    rfl
  · exact ⟨here, below⟩

/-! ### Conditional comments around start tags -/

/-- What is joined is an element right after the start of a conditional section, and holds the end of that
section right after its own start tag. -/
theorem withCondition?_eq_some {before element joined : Fragment}
    (found : withCondition? before element = some joined) :
    ∃ condition e startSpan finish inner, before.kind = .conditionalStart condition ∧
      element.kind = .element e ∧ element.info.startSpan = some startSpan ∧
      element.children = finish :: inner ∧ finish.kind = .conditionalEnd ∧
      before.span.stop = startSpan.start ∧ finish.span.start = startSpan.stop ∧
      joined = .node
        { element.info with
          kind := .element { e with condition := some condition }
          startSpan := some ⟨before.span.start, finish.span.stop⟩
          span := { element.span with start := before.span.start } } inner := by
  unfold withCondition? at found
  split at found
  · next condition starts =>
    split at found
    · next e isElement =>
      obtain ⟨startSpan, tag, found⟩ := Option.bind_eq_some_iff.mp found
      split at found
      · next finish inner children =>
        split at found
        · next ends =>
          split at found
          · next touch =>
            exact ⟨condition, e, startSpan, finish, inner, starts, isElement, tag, children, ends, touch.1,
              touch.2, (Option.some.inj found).symm⟩
          · cases found
        · cases found
      · cases found
    · cases found
  · cases found

theorem laid_withCondition? {before element joined : Fragment}
    (first : before.Follows spacing (Laid source)) (laid : element.Follows spacing (Laid source))
    (touch : before.span.stop = element.span.start) (found : withCondition? before element = some joined) :
    joined.Follows spacing (Laid source) ∧ joined.kind.isText = false ∧
      joined.span.start = before.span.start ∧ joined.span.stop = element.span.stop := by
  obtain ⟨condition, e, startSpan, finish, inner, _, _, _, children, _, _, _, rfl⟩ :=
    withCondition?_eq_some found
  cases element with
  | node info below =>
    obtain rfl : below = finish :: inner := children
    obtain ⟨here, _, below⟩ := laid
    have placed : ∃ part, Cut source before.span.start info.span.stop part := by
      cases before with
      | node beforeInfo beforeInner =>
        have touch : beforeInfo.spacing.span.stop = info.spacing.span.start := touch
        obtain ⟨part, cut⟩ := first.1.placed
        obtain ⟨more, cutMore⟩ := here.placed
        rw [← touch] at cutMore
        exact ⟨part ++ more, cut.append cutMore⟩
    exact ⟨⟨⟨here.unspaced, placed, nofun, nofun, (List.isChain_cons.mp here.meets).2⟩, below⟩, rfl, rfl, rfl⟩

theorem laid_joinConditions (children : List Fragment)
    (below : ∀ child ∈ children, child.Follows spacing (Laid source)) (before : Spacing)
    (meets : (before :: looks spacing children).IsChain Meets) :
    (before :: looks spacing (joinConditions children)).IsChain Meets ∧
      ∀ child ∈ joinConditions children, child.Follows spacing (Laid source) := by
  fun_induction joinConditions children generalizing before with
  | case1 first element rest joined found ih =>
    obtain ⟨toFirst, toElement, others⟩ : Meets before first.info.spacing ∧
        Meets first.info.spacing element.info.spacing ∧
          (element.info.spacing :: looks spacing rest).IsChain Meets := by
      simpa [looks] using meets
    obtain ⟨follows, noText, starts, stops⟩ :=
      laid_withCondition? (below first (by simp)) (below element (by simp)) toElement.touch found
    have after : (joined.info.spacing :: looks spacing rest).IsChain Meets := by
      rw [List.isChain_cons] at others ⊢
      refine ⟨fun next head => ⟨stops.trans (others.1 next head).touch, fun both => ?_⟩, others.2⟩
      have isText : joined.kind.isText = true := both.1
      rw [noText] at isText
      cases isText
    obtain ⟨chain, follow⟩ := ih (fun child member => below child (by simp [member])) _ after
    refine ⟨List.isChain_cons_cons.mpr ⟨⟨toFirst.touch.trans starts.symm, fun both => ?_⟩, chain⟩, ?_⟩
    · have isText : joined.kind.isText = true := both.2
      rw [noText] at isText
      cases isText
    · intro child member
      rcases List.mem_cons.mp member with rfl | member
      · exact follows
      · exact follow child member
  | case2 first element rest found ih =>
    obtain ⟨toFirst, others⟩ := List.isChain_cons_cons.mp meets
    obtain ⟨chain, follow⟩ := ih (fun child member => below child (List.mem_cons_of_mem _ member)) _ others
    refine ⟨List.isChain_cons_cons.mpr ⟨toFirst, chain⟩, fun child member => ?_⟩
    rcases List.mem_cons.mp member with rfl | member
    · exact below child List.mem_cons_self
    · exact follow child member
  | case3 children _ => exact ⟨meets, below⟩

theorem laid_foldConditions {fragment : Fragment} (laid : fragment.Follows spacing (Laid source)) :
    (foldConditions fragment).Follows spacing (Laid source) := by
  refine Fragment.follows_mapChildren (fun info children here below => ?_) fragment laid
  obtain ⟨before, meets⟩ := exists_meets _ here.meets
  obtain ⟨chain, follow⟩ := laid_joinConditions children below before meets
  refine ⟨⟨here.unspaced, here.placed, here.spelled, fun leaf => ?_, (List.isChain_cons.mp chain).2⟩, follow⟩
  rw [List.map_eq_nil_iff.mp (here.leaf leaf)]
  rfl

/-! ### Character data -/

theorem exists_text_of_isText {kind : NodeKind} (isText : kind.isText = true) : ∃ value, kind = .text value := by
  cases kind <;> first | exact ⟨_, rfl⟩ | cases isText

theorem isText_eq_false_of_textOf? {kind : NodeKind} (other : textOf? kind = none) :
    kind.isText = false ∧ ∀ value, kind ≠ .cdata value := by
  constructor
  · cases kind <;> first | rfl | cases other
  · rintro value rfl
    cases other

/-- A text or character data as a text that is spelled between two offsets. -/
theorem laid_asText {info : NodeInfo} {inner : List Fragment} {value text : String} {span : Span}
    (laid : (Fragment.node info inner).Follows spacing (LaidText source)) (some : textOf? info.kind = some value)
    (cut : Cut source span.start span.stop text.toList) :
    (Fragment.node { info with kind := .text text, span := span } inner).Follows spacing (LaidText source) := by
  obtain ⟨here, -⟩ := laid
  have here := here.toLaid
  obtain rfl : inner = [] := List.map_eq_nil_iff.mp (here.leaf (canHaveChildren_of_textOf? some))
  refine ⟨⟨⟨here.unspaced, ⟨_, cut⟩, ?_, fun _ => rfl, .nil⟩,
    fun _ member => absurd member List.not_mem_nil⟩, trivial⟩
  intro _ same
  rw [← Option.some.inj same]
  exact cut

/-- A node that meets the first of some laid nodes is laid with them. -/
theorem laid_cons {node : Fragment} {joined : List Fragment} (here : node.Follows spacing (LaidText source))
    (noCdata : ∀ value, node.kind ≠ .cdata value)
    (meets : ∀ first ∈ joined.head?, Meets node.info.spacing first.info.spacing)
    (chain : (looks spacing joined).IsChain Meets)
    (follow : ∀ child ∈ joined, child.Follows spacing (LaidText source) ∧ ∀ value, child.kind ≠ .cdata value) :
    (looks spacing (node :: joined)).IsChain Meets ∧
      ∀ child ∈ node :: joined, child.Follows spacing (LaidText source) ∧ ∀ value, child.kind ≠ .cdata value := by
  refine ⟨List.isChain_cons.mpr ⟨fun first head => ?_, chain⟩, List.forall_mem_cons.mpr ⟨⟨here, noCdata⟩, follow⟩⟩
  rw [List.head?_map] at head
  obtain ⟨fragment, same, rfl⟩ := Option.map_eq_some_iff.mp head
  exact meets fragment same

/-- Joined texts stand apart and are spelled as in the source. The first of them begins where the first node
did. -/
theorem laid_joinTexts (children : List Fragment)
    (below : ∀ child ∈ children, child.Follows spacing (LaidText source))
    (touch : (looks spacing children).IsChain fun node next => node.span.stop = next.span.start) :
    ((looks spacing (joinTexts children)).IsChain Meets ∧
      ∀ child ∈ joinTexts children, child.Follows spacing (LaidText source) ∧ ∀ value, child.kind ≠ .cdata value) ∧
      ∀ first ∈ (joinTexts children).head?, ∃ old ∈ children.head?, first.span.start = old.span.start := by
  induction children with
  | nil => exact ⟨⟨.nil, nofun⟩, nofun⟩
  | cons child rest ih =>
    obtain ⟨next, others⟩ := List.isChain_cons.mp touch
    obtain ⟨⟨chain, follow⟩, starts⟩ := ih (fun other member => below other (List.mem_cons_of_mem _ member)) others
    have laid := below child List.mem_cons_self
    -- What comes first after the child still begins where the child stops.
    have touches : ∀ first ∈ (joinTexts rest).head?, child.span.stop = first.span.start := by
      intro first head
      obtain ⟨old, same, begins⟩ := starts first head
      rw [begins]
      exact next old.info.spacing (by rw [List.head?_map, same]; rfl)
    cases child with
    | node info inner =>
      unfold joinTexts
      split
      · next other =>
        obtain ⟨noText, noCdata⟩ := isText_eq_false_of_textOf? other
        refine ⟨laid_cons laid noCdata (fun first head => ⟨touches first head, fun both => ?_⟩) chain follow, ?_⟩
        · have isText : info.kind.isText = true := both.1
          rw [noText] at isText
          cases isText
        · rintro first ⟨⟩
          exact ⟨_, rfl, rfl⟩
      · next value some =>
        have cut : Cut source info.span.start info.span.stop value.toList := laid.1.spelled value some
        split
        · next nextInfo nextInner later joined =>
          rw [joined] at chain follow touches
          have touches : info.span.stop = nextInfo.span.start := touches _ rfl
          split
          · next more isText =>
            have cutMore : Cut source nextInfo.span.start nextInfo.span.stop more.toList := by
              refine (follow _ List.mem_cons_self).1.1.spelled more ?_
              show textOf? nextInfo.kind = _
              rw [isText]
              rfl
            rw [← touches] at cutMore
            have whole : Cut source info.span.start nextInfo.span.stop (value ++ more).toList := by
              rw [String.toList_append]
              exact cut.append cutMore
            obtain ⟨meets, laterChain⟩ := List.isChain_cons.mp chain
            refine ⟨laid_cons (laid_asText laid some whole) (by nofun) (fun first head => ?_) laterChain
              (List.forall_mem_cons.mp follow).2, ?_⟩
            · obtain ⟨touch, apart⟩ := meets first.info.spacing (by rw [List.head?_map, head]; rfl)
              refine ⟨touch, fun both => apart ⟨?_, both.2⟩⟩
              show nextInfo.kind.isText = true
              rw [isText]
              rfl
            · rintro first ⟨⟩
              exact ⟨_, rfl, rfl⟩
          · next noText =>
            refine ⟨laid_cons (laid_asText laid some cut) (by nofun) ?_ chain follow, ?_⟩
            · rintro first ⟨⟩
              refine ⟨touches, fun both => ?_⟩
              obtain ⟨more, isText⟩ := exists_text_of_isText both.2
              exact noText more isText
            · rintro first ⟨⟩
              exact ⟨_, rfl, rfl⟩
        · refine ⟨laid_cons (laid_asText laid some cut) (by nofun) nofun .nil nofun, ?_⟩
          rintro first ⟨⟩
          exact ⟨_, rfl, rfl⟩

theorem laidText_mergeCdata {fragment : Fragment} (laid : fragment.Follows spacing (Laid source)) :
    (mergeCdata fragment).Follows spacing (LaidText source) := by
  refine Fragment.follows_mapChildren (fun info children here below => ?_) fragment laid
  split
  · obtain ⟨⟨chain, follow⟩, _⟩ := laid_joinTexts children below (here.meets.imp fun _ _ meets => meets.touch)
    refine ⟨⟨⟨here.unspaced, here.placed, here.spelled, fun leaf => ?_, chain⟩, ?_⟩,
      fun child member => (follow child member).1⟩
    · rw [List.map_eq_nil_iff.mp (here.leaf leaf)]
      rfl
    · intro child member
      obtain ⟨fragment, inside, rfl⟩ := List.mem_map.mp member
      exact (follow fragment inside).2
  · next noCdata =>
    refine ⟨⟨here, ?_⟩, below⟩
    intro child member value cdata
    obtain ⟨fragment, inside, rfl⟩ := List.mem_map.mp member
    refine noCdata (List.any_eq_true.mpr ⟨fragment, inside, ?_⟩)
    unfold isCdata
    rw [show fragment.kind = .cdata value from cdata]

/-! ### Interpolations -/

namespace TextPiece

/-- The characters of a piece, delimiters included. -/
def chars : TextPiece → List Char
  | text cs => cs
  | expression cs => ['{', '{'] ++ (cs ++ ['}', '}'])

theorem bytes_eq (piece : TextPiece) : piece.bytes = byteLength piece.chars := by
  cases piece with
  | text cs => rfl
  | expression cs =>
    have opening : byteLength ['{', '{'] = 2 := rfl
    have closing : byteLength ['}', '}'] = 2 := rfl
    simp only [bytes, chars, Text.byteLength_append, opening, closing]
    omega

/-- The characters of several pieces. -/
def allChars (pieces : List TextPiece) : List Char :=
  pieces.flatMap chars

end TextPiece

open TextPiece (allChars)

theorem append_of_expression? {cs inner rest : List Char} (found : expression? cs = some (inner, rest)) :
    cs = (TextPiece.expression inner).chars ++ rest := by
  unfold expression? at found
  split at found
  · next c cs =>
    obtain ⟨⟨before, after⟩, broken, same⟩ := Option.map_eq_some_iff.mp found
    cases same
    rw [Text.eq_of_breakOn broken]
    simp [TextPiece.chars]
  · cases found

theorem allChars_consPiece (c : Char) (pieces : List TextPiece) :
    allChars (consPiece c pieces) = c :: allChars pieces := by
  unfold consPiece
  split <;> simp [allChars, TextPiece.chars]

theorem allChars_textPieces (cs : List Char) : allChars (textPieces cs) = cs := by
  fun_induction textPieces cs with
  | case1 => rfl
  | case2 c cs inner rest found ih =>
    rw [append_of_expression? found]
    show (TextPiece.expression inner).chars ++ allChars (textPieces rest) = _
    rw [ih]
  | case3 c cs _ ih => rw [allChars_consPiece, ih]

/-- Two pieces in a row are not both texts. -/
def PiecesApart (piece next : TextPiece) : Prop :=
  piece.isExpression = true ∨ next.isExpression = true

theorem piecesApart_consPiece {pieces : List TextPiece} (c : Char) (apart : pieces.IsChain PiecesApart) :
    (consPiece c pieces).IsChain PiecesApart := by
  unfold consPiece
  split
  · next cs rest =>
    obtain ⟨next, others⟩ := List.isChain_cons.mp apart
    exact List.isChain_cons.mpr ⟨fun piece head => Or.inr ((next piece head).resolve_left nofun), others⟩
  · next noText =>
    refine List.isChain_cons.mpr ⟨fun piece head => Or.inr ?_, apart⟩
    cases piece with
    | expression cs => rfl
    | text cs =>
      obtain ⟨rest, rfl⟩ := List.head?_eq_some_iff.mp head
      exact absurd rfl (noText cs rest)

theorem piecesApart_textPieces (cs : List Char) : (textPieces cs).IsChain PiecesApart := by
  fun_induction textPieces cs with
  | case1 => exact .nil
  | case2 c cs inner rest found ih => exact List.isChain_cons.mpr ⟨fun _ _ => Or.inl rfl, ih⟩
  | case3 c cs _ ih => exact piecesApart_consPiece c ih

theorem laidText_leaf {start stop : Nat} {cs : List Char} (cut : Cut source start stop cs) :
    (Fragment.leaf (.text (String.ofList cs)) ⟨start, stop⟩).Follows spacing (LaidText source) := by
  refine Fragment.follows_leaf.mpr
    ⟨⟨⟨rfl, rfl⟩, ⟨cs, cut⟩, ?_, fun _ => rfl, .nil⟩, fun _ member => absurd member List.not_mem_nil⟩
  intro value same
  rw [← Option.some.inj same, String.toList_ofList]
  exact cut

theorem laidText_node {piece : TextPiece} {start : Nat}
    (cut : Cut source start (start + piece.bytes) piece.chars) :
    (piece.node start).Follows spacing (LaidText source) ∧
      (∀ value, (piece.node start).kind ≠ .cdata value) ∧
      (piece.node start).span = ⟨start, start + piece.bytes⟩ ∧
      (piece.node start).kind.isText = !piece.isExpression := by
  cases piece with
  | text cs => exact ⟨laidText_leaf cut, by nofun, rfl, rfl⟩
  | expression cs =>
    obtain ⟨_, inside⟩ := cut.of_append
    obtain ⟨inner, _⟩ := inside.of_append
    refine ⟨Fragment.follows_node.mpr ⟨⟨⟨⟨rfl, rfl⟩, ⟨_, cut⟩, nofun, nofun, .singleton _⟩, ?_⟩, ?_⟩,
      by nofun, rfl, rfl⟩
    · intro child member
      rw [List.mem_singleton.mp member]
      nofun
    · intro child member
      rw [List.mem_singleton.mp member]
      exact laidText_leaf inner

theorem laidText_nodes (pieces : List TextPiece) {start stop : Nat}
    (cut : Cut source start stop (allChars pieces)) (apart : pieces.IsChain PiecesApart) (before : Spacing)
    (touch : before.span.stop = start)
    (first : before.kind.isText = true → ∀ piece ∈ pieces.head?, piece.isExpression = true)
    (rest : List Spacing) (after : ∀ last : Spacing, last.span.stop = stop → (last :: rest).IsChain Meets) :
    (before :: (looks spacing (TextPiece.nodes start pieces) ++ rest)).IsChain Meets ∧
      ∀ node ∈ TextPiece.nodes start pieces,
        node.Follows spacing (LaidText source) ∧ ∀ value, node.kind ≠ .cdata value := by
  induction pieces generalizing start before with
  | nil =>
    obtain ⟨_, _, _, _, stops⟩ := cut
    exact ⟨after before (touch.trans stops), nofun⟩
  | cons piece pieces ih =>
    obtain ⟨cutPiece, cutOthers⟩ := Cut.of_append cut
    rw [← TextPiece.bytes_eq] at cutPiece cutOthers
    obtain ⟨follows, noCdata, span, isText⟩ := laidText_node cutPiece
    obtain ⟨next, others⟩ := List.isChain_cons.mp apart
    have stops : (piece.node start).info.spacing.span.stop = start + piece.bytes := congrArg Span.stop span
    obtain ⟨chain, follow⟩ := ih cutOthers others (piece.node start).info.spacing stops
      (fun isPlain other head => (next other head).resolve_left (by
        have plain : (piece.node start).kind.isText = true := isPlain
        rw [isText] at plain
        simpa using plain))
    refine ⟨List.isChain_cons_cons.mpr ⟨⟨?_, fun both => ?_⟩, chain⟩, fun node member => ?_⟩
    · exact touch.trans (congrArg Span.start span).symm
    · have plain : (piece.node start).kind.isText = true := both.2
      rw [isText, first both.1 piece rfl] at plain
      cases plain
    · rcases List.mem_cons.mp member with rfl | member
      · exact ⟨follows, noCdata⟩
      · exact follow node member

theorem splitText_of_noText {fragment : Fragment} (noText : fragment.kind.isText = false) :
    splitText fragment = [fragment] := by
  unfold splitText
  split
  · next value isText => rw [isText] at noText; cases noText
  · rfl

theorem laidText_flatMap (children : List Fragment)
    (below : ∀ child ∈ children, child.Follows spacing (LaidText source))
    (noCdata : ∀ child ∈ children, ∀ value, child.kind ≠ .cdata value) (before : Spacing)
    (meets : (before :: looks spacing children).IsChain Meets) :
    (before :: looks spacing (children.flatMap splitText)).IsChain Meets ∧
      ∀ node ∈ children.flatMap splitText,
        node.Follows spacing (LaidText source) ∧ ∀ value, node.kind ≠ .cdata value := by
  induction children generalizing before with
  | nil => exact ⟨meets, nofun⟩
  | cons child rest ih =>
    have ih := ih (fun other member => below other (List.mem_cons_of_mem _ member))
      (fun other member => noCdata other (List.mem_cons_of_mem _ member))
    have laid := below child List.mem_cons_self
    obtain ⟨toChild, others⟩ := List.isChain_cons_cons.mp meets
    rw [List.flatMap_cons]
    cases isText : child.kind.isText with
    | false =>
      obtain ⟨chain, follow⟩ := ih _ others
      rw [splitText_of_noText isText]
      refine ⟨List.isChain_cons_cons.mpr ⟨toChild, chain⟩, fun node member => ?_⟩
      rcases List.mem_cons.mp member with rfl | member
      · exact ⟨laid, noCdata node List.mem_cons_self⟩
      · exact follow node member
    | true =>
      obtain ⟨value, kind⟩ := exists_text_of_isText isText
      have split : splitText child = TextPiece.nodes child.span.start (textPieces value.toList) := by
        unfold splitText
        rw [kind]
      have cut : Cut source child.span.start child.span.stop (allChars (textPieces value.toList)) := by
        rw [allChars_textPieces]
        cases child with
        | node info inner =>
          refine laid.1.spelled value ?_
          show textOf? info.kind = _
          rw [show info.kind = .text value from kind]
          rfl
      -- What follows the text is no text, so it may follow any piece.
      have after : ∀ last : Spacing, last.span.stop = child.span.stop →
          (last :: looks spacing rest).IsChain Meets := by
        intro last stops
        rw [List.isChain_cons] at others ⊢
        refine ⟨fun next head => ?_, others.2⟩
        obtain ⟨touch, apart⟩ := others.1 next head
        exact ⟨stops.trans touch, fun both => apart ⟨isText, both.2⟩⟩
      have first : before.kind.isText = true →
          ∀ piece ∈ (textPieces value.toList).head?, piece.isExpression = true :=
        fun beforeText => absurd ⟨beforeText, isText⟩ toChild.apart
      obtain ⟨chain, follow⟩ := laidText_nodes (textPieces value.toList) cut (piecesApart_textPieces _) before
        toChild.touch first (looks spacing (rest.flatMap splitText))
        fun last stops => (ih last (after last stops)).1
      obtain ⟨_, followOthers⟩ := ih _ (after ⟨.root, child.span, false, false⟩ rfl)
      rw [split]
      refine ⟨?_, fun node member => ?_⟩
      · rw [looks, List.map_append]
        exact chain
      · rcases List.mem_append.mp member with member | member
        · exact follow node member
        · exact followOthers node member

theorem laidText_splitInterpolations {fragment : Fragment}
    (laid : fragment.Follows spacing (LaidText source)) :
    (splitInterpolations fragment).Follows spacing (LaidText source) := by
  refine Fragment.follows_mapChildren (fun info children here below => ?_) fragment laid
  split
  · obtain ⟨before, meets⟩ := exists_meets _ here.meets
    have noCdata : ∀ child ∈ children, ∀ value, child.kind ≠ .cdata value := fun child member =>
      here.noCdata child.info.spacing (List.mem_map.mpr ⟨child, member, rfl⟩)
    obtain ⟨chain, follow⟩ := laidText_flatMap children below noCdata before meets
    refine ⟨⟨⟨here.unspaced, here.placed, here.spelled, fun leaf => ?_, (List.isChain_cons.mp chain).2⟩, ?_⟩,
      fun child member => (follow child member).1⟩
    · rw [List.map_eq_nil_iff.mp (here.leaf leaf)]
      rfl
    · intro child member
      obtain ⟨fragment, inside, rfl⟩ := List.mem_map.mp member
      exact (follow fragment inside).2
  · exact ⟨here, below⟩

theorem laidText_steps {root : Fragment} (laid : root.Follows spacing (Laid source)) :
    (splitInterpolations (mergeCdata (foldConditions (dropFirstLineFeeds root)))).Follows spacing
      (LaidText source) :=
  laidText_splitInterpolations
    (laidText_mergeCdata (laid_foldConditions (laid_dropFirstLineFeeds laid)))

end MarkupFormat.Annotate
