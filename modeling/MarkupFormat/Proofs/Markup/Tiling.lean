import MarkupFormat.Proofs.Markup.Reading

/-!
# Nodes and the source that they cover

Sections and open elements as tilings of what was read.

The nodes of a section stand side by side without gaps, and so do the opening, the section and the
closing of a node that has one. `Fragment.Tiles` says so of several nodes and the offsets between
which they stand. Open elements keep the tiling of what was read so far (`OpenElements.Covers`).

The open elements hold a tiling that is still growing: the nodes outside of them end where the
outermost one starts, and the nodes inside each of them start where its start tag ends and end where
the next one starts. Every way to follow a tag keeps this, whichever elements the tag ends.
-/

namespace MarkupFormat.Markup

open Text (Cut byteLength)

/-- Whether nodes of this kind are written as an opening, a section and a closing. -/
def NodeKind.hasSection : NodeKind → Bool
  | .element _ | .conditional .. => true
  | _ => false

/-- Something is written between two offsets. -/
def Fills (source : List Char) (start stop : Nat) : Prop :=
  ∃ part, part ≠ [] ∧ Cut source start stop part

theorem Fills.lt {source : List Char} {start stop : Nat} (fills : Fills source start stop) :
    start < stop := by
  obtain ⟨part, nonempty, cut⟩ := fills
  exact cut.lt_of_ne_nil nonempty

/-- The opening and the closing of a node leave a section between two offsets. -/
inductive NodeInfo.Encloses (source : List Char) (info : NodeInfo) : Nat → Nat → Prop where
  | whole : info.startSpan = some info.span → info.endSpan = some info.span →
      Fills source info.span.start info.span.stop → Encloses source info info.span.stop info.span.stop
  | unended {inner : Nat} : info.startSpan = some ⟨info.span.start, inner⟩ → info.endSpan = none →
      Fills source info.span.start inner → Encloses source info inner info.span.stop
  | ended {inner outer : Nat} : info.startSpan = some ⟨info.span.start, inner⟩ →
      info.endSpan = some ⟨outer, info.span.stop⟩ → Fills source info.span.start inner →
      Fills source outer info.span.stop → Encloses source info inner outer

namespace Fragment

mutual

/-- A node is made up of its opening, what is inside it and its closing, or is a single piece. -/
def Tiled (source : List Char) : Fragment → Prop
  | node info children =>
    (info.kind.hasSection = true ∧
      ∃ start stop, info.Encloses source start stop ∧ Tiles source children start stop) ∨
    (info.kind.hasSection = false ∧ children = [] ∧
      ∃ part, part ≠ [] ∧ Cut source info.span.start info.span.stop part ∧
        ∀ value, info.kind = .text value → value = String.ofList part)

/-- Nodes stand side by side between two offsets. -/
def Tiles (source : List Char) : List Fragment → Nat → Nat → Prop
  | [], start, stop => start = stop
  | fragment :: rest, start, stop =>
    fragment.span.start = start ∧ fragment.Tiled source ∧ Tiles source rest fragment.span.stop stop

end

variable {source : List Char}

theorem Tiles.append {fragments more : List Fragment} {start middle stop : Nat}
    (first : Tiles source fragments start middle) (second : Tiles source more middle stop) :
    Tiles source (fragments ++ more) start stop := by
  induction fragments generalizing start with
  | nil => exact first.symm ▸ second
  | cons fragment rest ih =>
    obtain ⟨begins, tiled, tiles⟩ := first
    exact ⟨begins, tiled, ih tiles⟩

theorem tiles_singleton {fragment : Fragment} (tiled : fragment.Tiled source) :
    Tiles source [fragment] fragment.span.start fragment.span.stop :=
  ⟨rfl, tiled, rfl⟩

theorem tiled_leaf {kind : NodeKind} {span : Span} {part : List Char}
    (plain : kind.hasSection = false) (nonempty : part ≠ [])
    (cut : Cut source span.start span.stop part)
    (text : ∀ value, kind = .text value → value = String.ofList part) :
    (leaf kind span).Tiled source :=
  Or.inr ⟨plain, rfl, part, nonempty, cut, text⟩

mutual

theorem Tiled.start_lt_stop : ∀ {fragment : Fragment}, fragment.Tiled source →
    fragment.span.start < fragment.span.stop
  | node info children, .inr ⟨_, _, part, nonempty, cut, _⟩ => cut.lt_of_ne_nil nonempty
  | node info children, .inl ⟨_, start, stop, encloses, tiles⟩ => by
    have ordered := Tiles.start_le_stop tiles
    show info.span.start < info.span.stop
    cases encloses with
    | whole _ _ fills => exact fills.lt
    | unended _ _ fills => exact Nat.lt_of_lt_of_le fills.lt ordered
    | ended _ _ opening closing =>
      exact Nat.lt_trans opening.lt (Nat.lt_of_le_of_lt ordered closing.lt)

theorem Tiles.start_le_stop : ∀ {fragments : List Fragment} {start stop : Nat},
    Tiles source fragments start stop → start ≤ stop
  | [], _, _, tiles => Nat.le_of_eq tiles
  | _ :: _, _, _, ⟨begins, tiled, tiles⟩ => by
    have first := Tiled.start_lt_stop tiled
    have rest := Tiles.start_le_stop tiles
    omega

end

theorem Tiles.stop_getLast {fragment : Fragment} {before : List Fragment} {start stop : Nat}
    (tiles : Tiles source (before ++ [fragment]) start stop) : fragment.span.stop = stop := by
  induction before generalizing start with
  | nil => exact tiles.2.2
  | cons first rest ih => exact ih tiles.2.2

/-! ### What a tiling says -/

/-- The part of the source that a span covers, if there is a span. -/
def spanned (source : List Char) : Option Span → List Char
  | some span => (span.slice source).toList
  | none => []

mutual

/-- The source of a node, put together from its opening, what is inside it and its closing, or
taken as a whole. A closing that is the opening itself is not taken again. -/
def written (source : List Char) : Fragment → List Char
  | node info children =>
    if info.kind.hasSection then
      spanned source info.startSpan ++ writtenAll source children ++
        (if info.endSpan = info.startSpan then [] else spanned source info.endSpan)
    else spanned source (some info.span)

/-- The source of several nodes in document order. -/
def writtenAll (source : List Char) : List Fragment → List Char
  | [] => []
  | fragment :: rest => fragment.written source ++ writtenAll source rest

end

mutual

/-- A span lies between characters, a text is what it spans, and what is below the node lies in
order inside of it. -/
def Placed (source : List Char) : Fragment → Prop
  | node info children =>
    (∃ part, Cut source info.span.start info.span.stop part ∧
      ∀ value, info.kind = .text value → value = String.ofList part) ∧
    PlacedWithin source children info.span.start info.span.stop

/-- Nodes lie one after the other between two offsets, without sharing a character. -/
def PlacedWithin (source : List Char) : List Fragment → Nat → Nat → Prop
  | [], _, _ => True
  | fragment :: rest, start, stop =>
    start ≤ fragment.span.start ∧ fragment.span.start < fragment.span.stop ∧
      fragment.span.stop ≤ stop ∧ fragment.Placed source ∧
      PlacedWithin source rest fragment.span.stop stop

end

theorem spanned_of_cut {span : Span} {part : List Char}
    (cut : Cut source span.start span.stop part) : spanned source (some span) = part := by
  show (span.slice source).toList = part
  unfold Span.slice
  rw [cut.slice_eq, String.toList_ofList]

theorem spanned_of_fills {start stop : Nat} (fills : Fills source start stop) :
    Cut source start stop (spanned source (some ⟨start, stop⟩)) := by
  obtain ⟨part, _, cut⟩ := fills
  have same : spanned source (some ⟨start, stop⟩) = part := spanned_of_cut cut
  rw [same]
  exact cut

theorem PlacedWithin.mono {fragments : List Fragment} {start stop start' stop' : Nat}
    (placed : PlacedWithin source fragments start stop) (before : start' ≤ start)
    (after : stop ≤ stop') : PlacedWithin source fragments start' stop' := by
  induction fragments generalizing start start' with
  | nil => trivial
  | cons fragment rest ih =>
    obtain ⟨begins, nonempty, ends, inside, others⟩ := placed
    exact ⟨by omega, nonempty, by omega, inside, ih others (Nat.le_refl _)⟩

theorem cut_written_of_encloses {info : NodeInfo} {children : List Fragment} {start stop : Nat}
    (holds : info.kind.hasSection = true) (encloses : info.Encloses source start stop)
    (section' : Cut source start start [] → Cut source start stop (writtenAll source children)) :
    Cut source info.span.start info.span.stop ((node info children).written source) := by
  unfold written
  rw [if_pos holds]
  cases encloses with
  | whole opening closing fills =>
    have front := spanned_of_fills fills
    rw [opening, closing, if_pos rfl, List.append_nil]
    exact front.append (section' front.nil_stop)
  | unended opening closing fills =>
    have front := spanned_of_fills fills
    rw [opening, closing, if_neg nofun]
    have last := front.append (section' front.nil_stop)
    exact last.append last.nil_stop
  | ended opening closing fills filled =>
    have front := spanned_of_fills fills
    have back := spanned_of_fills filled
    have inside := section' front.nil_stop
    have apart : info.endSpan ≠ info.startSpan := by
      rw [opening, closing]
      intro same
      have starts := congrArg Span.start (Option.some.inj same)
      have first := fills.lt
      have between := inside.le
      dsimp only at starts
      omega
    rw [if_neg apart, opening, closing]
    exact (front.append inside).append back

mutual

theorem Tiled.cut_written : ∀ {fragment : Fragment}, fragment.Tiled source →
    Cut source fragment.span.start fragment.span.stop (fragment.written source)
  | node info children, .inr ⟨plain, _, part, _, cut, _⟩ => by
    unfold written
    rw [if_neg (by rw [plain]; nofun), spanned_of_cut cut]
    exact cut
  | node info children, .inl ⟨holds, start, stop, encloses, tiles⟩ =>
    cut_written_of_encloses holds encloses fun here => Tiles.cut_writtenAll here tiles

theorem Tiles.cut_writtenAll : ∀ {fragments : List Fragment} {start stop : Nat},
    Cut source start start [] → Tiles source fragments start stop →
    Cut source start stop (writtenAll source fragments)
  | [], start, _, here, rfl => here
  | fragment :: rest, _, _, _, ⟨rfl, tiled, tiles⟩ => by
    have first := Tiled.cut_written tiled
    exact first.append (Tiles.cut_writtenAll first.nil_stop tiles)

end

mutual

theorem Tiled.placed : ∀ {fragment : Fragment}, fragment.Tiled source → fragment.Placed source
  | node info children, .inr ⟨_, empty, part, _, cut, text⟩ => by
    subst empty
    exact ⟨⟨part, cut, text⟩, trivial⟩
  | node info children, .inl ⟨holds, start, stop, encloses, tiles⟩ => by
    have whole := cut_written_of_encloses holds encloses fun here => Tiles.cut_writtenAll here tiles
    have inside := Tiles.placedWithin tiles
    have ordered := Tiles.start_le_stop tiles
    refine ⟨⟨_, whole, ?_⟩, ?_⟩
    · intro value text
      rw [text] at holds
      cases holds
    · cases encloses with
      | whole _ _ fills => exact inside.mono (Nat.le_of_lt fills.lt) (Nat.le_refl _)
      | unended _ _ fills => exact inside.mono (Nat.le_of_lt fills.lt) (Nat.le_refl _)
      | ended _ _ fills filled =>
        exact inside.mono (Nat.le_of_lt fills.lt) (Nat.le_of_lt filled.lt)

theorem Tiles.placedWithin : ∀ {fragments : List Fragment} {start stop : Nat},
    Tiles source fragments start stop → PlacedWithin source fragments start stop
  | [], _, _, _ => trivial
  | _ :: _, _, _, ⟨begins, tiled, tiles⟩ =>
    ⟨Nat.le_of_eq begins.symm, Tiled.start_lt_stop tiled, Tiles.start_le_stop tiles,
      Tiled.placed tiled, Tiles.placedWithin tiles⟩

end

end Fragment

/-! ### Open elements cover what was read -/

open Fragment (Tiles)

/-- The nodes outside of the open elements, these and what is inside them stand side by side between
two offsets. -/
def CoveredBy (source : List Char) (nodes : List Fragment) (start : Nat) : List OpenElement → Nat → Prop
  | [], stop => Tiles source nodes.reverse start stop
  | innermost :: outer, stop =>
    CoveredBy source nodes start outer innermost.startSpan.start ∧
      Fills source innermost.startSpan.start innermost.startSpan.stop ∧
      Tiles source innermost.children.reverse innermost.startSpan.stop stop

/-- What was read so far covers the source between two offsets. -/
def OpenElements.Covers (source : List Char) (start : Nat) (opened : OpenElements) (stop : Nat) : Prop :=
  CoveredBy source opened.nodes start opened.stack stop

/-! ### Ended elements -/

namespace OpenElement

variable {source : List Char} {opened : OpenElement} {stop : Nat}

theorem impliedStop_eq (tiles : Tiles source opened.children.reverse opened.startSpan.stop stop) :
    opened.impliedStop = stop := by
  have ordered := Fragment.Tiles.start_le_stop tiles
  unfold impliedStop
  split
  · next same =>
    rw [same] at tiles
    exact tiles
  · next last before same =>
    rw [same, List.reverse_cons] at tiles
    have ends := Fragment.Tiles.stop_getLast tiles
    omega

theorem tiled_close_none (fills : Fills source opened.startSpan.start opened.startSpan.stop)
    (tiles : Tiles source opened.children.reverse opened.startSpan.stop stop) :
    (opened.close none).Tiled source ∧ (opened.close none).span.stop = stop := by
  have ends := impliedStop_eq tiles
  refine ⟨Or.inl ⟨rfl, opened.startSpan.stop, stop, ?_, tiles⟩, ends⟩
  rw [← ends]
  exact .unended rfl rfl fills

theorem tiled_close_some {last : Nat}
    (fills : Fills source opened.startSpan.start opened.startSpan.stop)
    (tiles : Tiles source opened.children.reverse opened.startSpan.stop stop)
    (closing : Fills source stop last) : (opened.close (some ⟨stop, last⟩)).Tiled source :=
  Or.inl ⟨rfl, opened.startSpan.stop, stop, .ended rfl rfl fills closing, tiles⟩

end OpenElement

namespace OpenElements

variable {source : List Char} {opened : OpenElements} {start stop : Nat}

theorem covers_empty (source : List Char) (start : Nat) : Covers source start {} start :=
  rfl

theorem covers_add {node : Fragment} (covers : opened.Covers source start stop)
    (tiled : node.Tiled source) (begins : node.span.start = stop) :
    (opened.add node).Covers source start node.span.stop := by
  unfold Covers add
  unfold Covers at covers
  have single := Fragment.tiles_singleton tiled
  rw [begins] at single
  split
  · next same =>
    rw [same] at covers
    simp only [same, CoveredBy, List.reverse_cons]
    exact Fragment.Tiles.append covers single
  · next innermost outer same =>
    rw [same] at covers
    obtain ⟨around, opening, inside⟩ := covers
    refine ⟨around, opening, ?_⟩
    rw [List.reverse_cons]
    exact Fragment.Tiles.append inside single

theorem covers_addLeaf {kind : NodeKind} {span : Span} {part : List Char}
    (covers : opened.Covers source start span.start) (plain : kind.hasSection = false)
    (nonempty : part ≠ []) (cut : Cut source span.start span.stop part)
    (text : ∀ value, kind = .text value → value = String.ofList part) :
    (opened.add (.leaf kind span)).Covers source start span.stop :=
  covers_add covers (Fragment.tiled_leaf plain nonempty cut text) rfl

theorem covers_close_none (covers : opened.Covers source start stop) :
    (opened.close none).Covers source start stop := by
  unfold close
  split
  · exact covers
  · next innermost outer same =>
    unfold Covers at covers
    rw [same] at covers
    obtain ⟨around, opening, inside⟩ := covers
    obtain ⟨tiled, ends⟩ := OpenElement.tiled_close_none opening inside
    have covers : Covers source start { opened with stack := outer } _ := around
    have added := covers_add covers tiled rfl
    rw [ends] at added
    exact added

theorem covers_close_some {last : Nat} (covers : opened.Covers source start stop)
    (some_open : opened.stack ≠ []) (closing : Fills source stop last) :
    (opened.close (some ⟨stop, last⟩)).Covers source start last := by
  unfold close
  split
  · next none_open => exact absurd none_open some_open
  · next innermost outer same =>
    unfold Covers at covers
    rw [same] at covers
    obtain ⟨around, opening, inside⟩ := covers
    have covers : Covers source start { opened with stack := outer } _ := around
    exact covers_add covers (OpenElement.tiled_close_some opening inside closing) rfl

theorem covers_closeAll (covers : opened.Covers source start stop) :
    opened.closeAll.Covers source start stop ∧ opened.closeAll.stack = [] := by
  fun_induction closeAll opened with
  | case1 opened none_open => exact ⟨covers, none_open⟩
  | case2 opened _ ih => exact ih (covers_close_none covers)

theorem tiles_finish (covers : opened.Covers source start stop) :
    Tiles source opened.finish start stop := by
  obtain ⟨covers, none_open⟩ := covers_closeAll covers
  unfold Covers at covers
  rw [none_open] at covers
  exact covers

/-! ### Tags -/

theorem covers_closeNamed? {after : OpenElements} {name : String} {ns : Option String} {last : Nat}
    (covers : opened.Covers source start stop) (closing : Fills source stop last)
    (closed : opened.closeNamed? name ns ⟨stop, last⟩ = some after) :
    after.Covers source start last := by
  fun_induction closeNamed? opened name ns ⟨stop, last⟩ with
  | case1 => cases closed
  | case2 opened innermost outer same named =>
    cases closed
    exact covers_close_some covers (by rw [same]; exact List.cons_ne_nil _ _) closing
  | case3 opened innermost outer same named implied ih => exact ih (covers_close_none covers) closed
  | case4 => cases closed

theorem covers_endTag {after : OpenElements} {tag : EndTag}
    (covers : opened.Covers source start tag.span.start)
    (closing : Fills source tag.span.start tag.span.stop) (followed : opened.endTag tag = .ok after) :
    after.Covers source start tag.span.stop := by
  unfold endTag at followed
  split at followed
  · cases followed
  · split at followed
    · next closed =>
      cases followed
      exact covers_closeNamed? covers closing closed
    · cases followed

theorem covers_componentEnd {after : OpenElements} {span : Span}
    (covers : opened.Covers source start span.start) (closing : Fills source span.start span.stop)
    (followed : opened.componentEnd span = .ok after) : after.Covers source start span.stop := by
  unfold componentEnd at followed
  split at followed
  · cases followed
  · next some_open =>
    cases followed
    exact covers_close_some covers (by simpa using some_open) closing

theorem covers_startElement {tag : StartTag} (covers : opened.Covers source start tag.span.start)
    (opening : Fills source tag.span.start tag.span.stop) (element : Element) :
    (opened.startElement tag element).1.Covers source start tag.span.stop ∧
      ((opened.startElement tag element).2 = true → (opened.startElement tag element).1.stack ≠ []) := by
  unfold startElement
  split
  · refine ⟨covers_add covers (Or.inl ⟨rfl, tag.span.stop, tag.span.stop, ?_, rfl⟩) rfl, nofun⟩
    split
    · exact .whole rfl rfl opening
    · exact .unended rfl rfl opening
  · exact ⟨⟨covers, opening, rfl⟩, fun _ => List.cons_ne_nil _ _⟩

/-- A start tag is covered, also where it ends another element. The content is raw text only for an
element that stays open. -/
theorem covers_startTag {tag : StartTag} (covers : opened.Covers source start tag.span.start)
    (opening : Fills source tag.span.start tag.span.stop) :
    (opened.startTag tag).1.Covers source start tag.span.stop ∧
      ((opened.startTag tag).2 = true → (opened.startTag tag).1.stack ≠ []) := by
  have ended := endedBy_keeps (motive := (·.Covers source start tag.span.start)) covers (covers_close_none covers)
  rw [startTag_eq_startElement]
  exact covers_startElement (ended tag.name.name) opening _

end OpenElements

end MarkupFormat.Markup
