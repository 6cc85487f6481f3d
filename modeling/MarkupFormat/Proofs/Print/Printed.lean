import MarkupFormat.Proofs.Annotate.Shape
import MarkupFormat.Proofs.Print.Nodes

/-!
# Printed pages

A page is printed as it is spelled (`inks_print`). A node prints its head, what is inside of it and its tail
(`printedInk`), while the spelling has the markers of the node itself at these places. By induction on the depth
of the tree each child is printed so, and between the children the tail of one and the head of the next are the
markers that belong there (`printed_children`).
-/

namespace MarkupFormat.Print

open Layout (Doc)
open Layout.Build (inks_concat inks_empty inks_group inks_hardline inks_pair)
open Layout.Doc (Inked inkedAll_append inkedAll_cons inkedAll_singleton)
open Markup (NodeId NodeKind Outline OwnedMarker Tree)
open Text (visible)

namespace Page

variable {page : Page} {id : NodeId} {depth : Nat}

variable (page) in
/-- What a node prints with everything below it, down to a depth. -/
def printedInk (depth : Nat) (id : NodeId) : List Char :=
  page.head id ++ page.spellInner id (page.spellAll (page.tree.outlineTo depth id).inner) ++ page.tail id

theorem outlineTo_eq (tree : Tree) (depth : Nat) (id : NodeId) :
    tree.outlineTo depth id = .node id (tree.outlineTo depth id).inner := by
  cases depth <;> rfl

theorem spellAll_eq_flatMap (outlines : List Outline) : page.spellAll outlines = outlines.flatMap page.spell := by
  induction outlines with
  | nil => rfl
  | cons outline rest ih => rw [spellAll, List.flatMap_cons, ih]

theorem spellAll_map (ids : List NodeId) :
    page.spellAll (ids.map (page.tree.outlineTo depth)) = ids.flatMap fun id =>
      page.spellMarker ⟨id, .openingStart⟩ ++
        page.spellInner id (page.spellAll (page.tree.outlineTo depth id).inner) ++
        page.spellMarker ⟨id, .closingEnd⟩ := by
  rw [spellAll_eq_flatMap, List.flatMap_map]
  refine congrArg (List.flatMap · ids) (funext fun id => ?_)
  rw [outlineTo_eq, spell]
  rfl

theorem spellInside_of_children_nil (none : page.tree.children id = []) :
    page.spellInside id = [] := by
  have last : page.tree.lastChild? id = Option.none := by
    unfold Tree.lastChild?
    rw [none, List.getLast?_nil]
  have borrowed : page.tree.borrowedInside? id = Option.none := by
    unfold Tree.borrowedInside?
    rw [last, Option.map_none, ite_self]
  unfold spellInside
  rw [borrowed]
  exact ite_self _

theorem printed_children (depth : Nat) (numbered : page.tree.Numbered) (once : page.tree.timesBorrowed id = 1) :
    page.spellOwn ⟨id, .openingEnd⟩ ++ (page.tree.children id).flatMap (page.printedInk depth) ++
        (page.spellInside id ++ page.spellOwn ⟨id, .closingStart⟩) =
      page.spellMarker ⟨id, .openingEnd⟩ ++ page.spellAll ((page.tree.children id).map (page.tree.outlineTo depth)) ++
        page.spellMarker ⟨id, .closingStart⟩ := by
  rw [spellAll_map]
  cases same : page.tree.children id with
  | nil =>
    have opening : page.tree.borrower? ⟨id, .openingEnd⟩ = none := by
      unfold Tree.borrower? Tree.firstChild?
      simp only [same, List.head?_nil, ite_self]
    have closing : page.tree.borrower? ⟨id, .closingStart⟩ = none := by
      unfold Tree.borrower? Tree.lastChild?
      simp only [same, List.getLast?_nil, ite_self]
    rw [spellMarker_of_none opening, spellMarker_of_none closing, spellInside_of_children_nil same]
    rfl
  | cons first rest =>
    have split : page.tree.children id = [] ++ first :: rest := same
    obtain ⟨core, printed, spelled⟩ := exists_core numbered
      (fun child => page.spellInner child (page.spellAll (page.tree.outlineTo depth child).inner)) split
    obtain ⟨above, before, _⟩ := numbered.linked split
    have firstChild : page.tree.firstChild? id = some first := by
      unfold Tree.firstChild?
      rw [same, List.head?_cons]
    have lastChild : page.tree.lastChild? id = some ((first :: rest).getLast (List.cons_ne_nil _ _)) := by
      unfold Tree.lastChild?
      rw [same, List.getLast?_eq_some_getLast]
    have splitLast : page.tree.children id =
        (first :: rest).dropLast ++ (first :: rest).getLast (List.cons_ne_nil _ _) :: [] := by
      rw [same, List.dropLast_concat_getLast]
    obtain ⟨aboveLast, _, after⟩ := numbered.linked splitLast
    have opening := spellOwn_append_head firstChild before above
    have closing := tail_append_spellOwn lastChild after aboveLast once
    rw [spelled]
    show page.spellOwn _ ++ (first :: rest).flatMap (fun child => page.head child ++ _ ++ page.tail child) ++ _ = _
    rw [printed]
    calc page.spellOwn ⟨id, .openingEnd⟩ ++
          (page.head first ++ core ++ page.tail ((first :: rest).getLast (List.cons_ne_nil _ _))) ++
          (page.spellInside id ++ page.spellOwn ⟨id, .closingStart⟩)
        = (page.spellOwn ⟨id, .openingEnd⟩ ++ page.head first) ++ core ++
          (page.tail ((first :: rest).getLast (List.cons_ne_nil _ _)) ++
            (page.spellInside id ++ page.spellOwn ⟨id, .closingStart⟩)) := by simp only [List.append_assoc]
      _ = _ := by
        rw [opening, closing]
        simp only [List.append_assoc]

/-! ### Kinds -/

/-- A node that is neither left as it is nor copied. -/
structure Plain (page : Page) (id : NodeId) : Prop where
  kept : page.tree.isIgnored id = false
  printed : page.tree.preservesContent id = false

theorem printedInk_of_untagged (plain : page.Plain id) (speaks : page.tree.isMute id = false)
    (start : page.tree.hasMarker ⟨id, .openingStart⟩ = false) (stop : page.tree.hasMarker ⟨id, .closingEnd⟩ = false) :
    page.printedInk depth id = page.borrowedInk (page.tree.borrowedBefore? id) ++
      page.spellInner id (page.spellAll (page.tree.outlineTo depth id).inner) ++
      page.borrowedInk (page.tree.borrowedAfter? id) := by
  have once := timesBorrowed_eq_one plain.kept plain.printed speaks
  unfold printedInk head tail
  rw [spellBorrowed_once once, spellBorrowed_once once, spellOwn_of_noMarker start, spellOwn_of_noMarker stop,
    List.append_nil, List.nil_append]

theorem printedInk_of_tagged (plain : page.Plain id) (speaks : page.tree.isMute id = false) :
    page.printedInk depth id =
      page.borrowedInk (page.tree.borrowedBefore? id) ++ page.spellOwn ⟨id, .openingStart⟩ ++
        page.spellInner id (page.spellAll (page.tree.outlineTo depth id).inner) ++
        (page.spellOwn ⟨id, .closingEnd⟩ ++ page.borrowedInk (page.tree.borrowedAfter? id)) := by
  have once := timesBorrowed_eq_one plain.kept plain.printed speaks
  unfold printedInk head tail
  rw [spellBorrowed_once once, spellBorrowed_once once]

theorem spellInner_of_plain (plain : page.Plain id) (children : List Char) :
    page.spellInner id children =
      match page.tree.kind id with
      | .root | .interpolation => children
      | .element _ | .conditional .. =>
        visible (page.attributesText id) ++ page.spellMarker ⟨id, .openingEnd⟩ ++ children ++
          page.spellMarker ⟨id, .closingStart⟩
      | .text value => visible (page.textContent id value.toList)
      | .doctype value => visible (normalizeDoctype value.toList)
      | .comment _ => visible (page.sourceText (page.tree.node id).span).toList
      | .directive value => visible ("<?" ++ value ++ "?>").toList
      | .frontMatter block => visible (frontMatterText block).toList
      | .cdata value => visible ("<![CDATA[" ++ value ++ "]]>").toList
      | .conditionalStart _ | .conditionalEnd => [] := by
  unfold spellInner
  have kept : ¬page.tree.isIgnored id = true := plain.kept ▸ Bool.false_ne_true
  have printed : ¬page.tree.preservesContent id = true := plain.printed ▸ Bool.false_ne_true
  exact (if_neg kept).trans ((if_neg printed).trans rfl)

/-- Whether nodes of a kind have no tags and no children. -/
def isBare : NodeKind → Bool
  | .text _ | .comment _ | .directive _ | .frontMatter _ => true
  | _ => false

theorem hasMarker_of_isBare (bare : isBare (page.tree.kind id) = true) (marker : Markup.Marker) :
    page.tree.hasMarker ⟨id, marker⟩ = false := by
  unfold Tree.hasMarker
  dsimp only
  revert bare
  cases page.tree.kind id <;> intro bare <;> first | (cases marker <;> rfl) | cases bare

theorem plain_of_isBare (kept : page.tree.isIgnored id = false) (bare : isBare (page.tree.kind id) = true) :
    page.Plain id := by
  refine ⟨kept, preservesContent_eq_false ?_⟩
  rintro (⟨element, same⟩ | ⟨condition, complete, same⟩) <;> rw [same] at bare <;> cases bare

/-! ### Children -/

variable (page) in
/-- How a child is printed, with everything below it, down to a depth. -/
def printChild (depth : Nat) (id : NodeId) : Printing Doc := do
  if page.tree.isIgnored id then page.printIgnored id else page.printNode (page.tree.outlineTo depth id)

theorem yields_printNodes {ids : List NodeId} {ink : NodeId → List Char}
    (each : ∀ id ∈ ids, Printing.Inks (page.printChild depth id) (ink id)) :
    Printing.Yields (page.printNodes (ids.map (page.tree.outlineTo depth))) fun docs =>
      docs.map (·.1) = ids ∧ Written ink docs := by
  induction ids with
  | nil => exact Printing.yields_pure ⟨rfl, fun _ member => absurd member List.not_mem_nil⟩
  | cons id rest ih =>
    have first := each id List.mem_cons_self
    have others := ih fun other member => each other (List.mem_cons_of_mem _ member)
    rw [List.map_cons, outlineTo_eq, printNodes]
    unfold printChild at first
    rw [outlineTo_eq] at first
    have finish {doc : Doc} (inked : Inked (ink id) doc) :
        Printing.Yields (do return (id, doc) :: (← page.printNodes (rest.map (page.tree.outlineTo depth)))) fun docs =>
          docs.map (·.1) = id :: rest ∧ Written ink docs := by
      refine Printing.yields_bind others fun docs printed => Printing.yields_pure ?_
      obtain ⟨all, written⟩ := printed
      constructor
      · rw [List.map_cons, all]
      · intro pair member
        rcases List.mem_cons.mp member with rfl | member
        · exact inked
        · exact written pair member
    split
    · next ignored =>
      rw [ignored, if_pos rfl] at first
      exact Printing.yields_bind first fun _ inked => finish inked
    · next kept =>
      rw [if_neg kept] at first
      exact Printing.yields_bind first fun _ inked => finish inked

theorem inkedAll_of_written {ink : NodeId → List Char} {docs : List (NodeId × Doc)} (written : Written ink docs) :
    Layout.Doc.InkedAll (docs.flatMap fun pair => ink pair.1) (docs.map (·.2)) := by
  induction docs with
  | nil => exact Layout.Doc.inkedAll_nil
  | cons pair rest ih =>
    exact inkedAll_cons (written pair List.mem_cons_self)
      (ih fun other member => written other (List.mem_cons_of_mem _ member))

/-- The expression of an interpolation is a text that is printed as such, with nothing around it. -/
theorem inks_expression (shaped : page.tree.Shaped) (declines : page.Declines) {parent : NodeId}
    (isInterpolation : page.tree.kind parent = .interpolation) (member : id ∈ page.tree.children parent) :
    Printing.Inks (page.printChild depth id) (page.spell (page.tree.outlineTo depth id)) := by
  obtain ⟨before, after, split⟩ := List.append_of_mem member
  obtain ⟨value, isText⟩ := shaped.expression isInterpolation member
  obtain ⟨above, prev, _⟩ := shaped.numbered.linked split
  have kept : page.tree.isIgnored id = false := by
    unfold Tree.isIgnored
    rw [prev]
    cases last : before.getLast? with
    | none => rfl
    | some other =>
      have inBefore : other ∈ page.tree.children parent :=
        split ▸ List.mem_append_left _ (List.mem_of_getLast? last)
      obtain ⟨others, isOther⟩ := shaped.expression isInterpolation inBefore
      rw [Option.map_some, isOther]
  have inside : page.tree.isExpression id = true := by
    unfold Tree.isExpression
    rw [above, Option.any_some, isInterpolation]
    rfl
  have isBare : isBare (page.tree.kind id) = true := by
    rw [isText]
    rfl
  have plain := plain_of_isBare kept isBare
  have bare := hasMarker_of_isBare isBare
  have textLike : page.tree.isTextLikeNode id = true := by
    unfold Tree.isTextLikeNode
    rw [isText]
    rfl
  have leaf : page.tree.children id = [] := shaped.leaf (by rw [isText]; rfl)
  obtain ⟨keepsStart, keepsEnd⟩ := Tree.borrower?_of_isTextLikeNode shaped.numbered split leaf textLike
  have spelled : page.spell (page.tree.outlineTo depth id) = visible (page.textContent id value.toList) := by
    rw [outlineTo_eq, spell, spellInner_of_plain plain, isText, spellMarker_of_none keepsStart,
      spellMarker_of_none keepsEnd, spellOwn_of_noMarker (bare _), spellOwn_of_noMarker (bare _),
      List.append_nil, List.nil_append]
  unfold printChild
  rw [spelled, kept, if_neg Bool.false_ne_true, outlineTo_eq, printNode]
  refine Printing.yields_bind (yields_embedded? declines) fun answer answered => ?_
  cases answer with
  | some doc =>
    obtain ⟨block, isFrontMatter, _⟩ := answered
    rw [isText] at isFrontMatter
    cases isFrontMatter
  | none =>
    dsimp only
    rw [plain.printed, if_neg Bool.false_ne_true]
    refine Printing.yields_bind Printing.yields_true fun docs _ => ?_
    unfold assemble
    rw [isText]
    dsimp only
    unfold textContent
    rw [printText_of_isExpression inside, inside, if_pos rfl]
    exact Printing.yields_lift (inks_expressionText _)

/-! ### Nodes -/

/-- A node that is printed where a line may be broken around it. -/
structure Visited (page : Page) (id : NodeId) : Prop where
  placed : Placed page.tree id
  outside : page.tree.isExpression id = false

/-- Around the children of anything but an interpolation, lines may be broken. -/
theorem visited_of_mem (numbered : page.tree.Numbered) (notInterpolation : page.tree.kind id ≠ .interpolation)
    {child : NodeId} (member : child ∈ page.tree.children id) : page.Visited child := by
  obtain ⟨before, after, split⟩ := List.append_of_mem member
  obtain ⟨above, _, _⟩ := numbered.linked split
  refine ⟨⟨numbered, id, before, after, split⟩, ?_⟩
  unfold Tree.isExpression
  rw [above, Option.any_some]
  cases same : page.tree.kind id with
  | interpolation => exact absurd same notInterpolation
  | _ => rfl

theorem inks_tagged (shaped : page.tree.Shaped) (declines : page.Declines) (tagged : page.IsTagged id)
    (plain : page.Plain id) (placed : Placed page.tree id) {docs : List (NodeId × Doc)}
    (all : docs.map (·.1) = page.tree.children id) (written : Written (page.printedInk depth) docs) :
    Printing.Inks (page.printElement id docs) (page.printedInk (depth + 1) id) := by
  have once := timesBorrowed_eq_one plain.kept plain.printed tagged.isMute
  have closing : page.closingInk id = page.spellInside id ++ page.spellOwn ⟨id, .closingStart⟩ := by
    unfold closingInk
    split
    · next closed => rw [spellInside_of_children_nil (shaped.selfClosing closed)]
    · rfl
  have content : (docs.flatMap fun pair => page.printedInk depth pair.1) =
      (page.tree.children id).flatMap (page.printedInk depth) := by
    rw [← all, List.flatMap_map]
  have inner : page.spellInner id (page.spellAll (page.tree.outlineTo (depth + 1) id).inner) =
      visible (page.attributesText id) ++ (page.spellMarker ⟨id, .openingEnd⟩ ++
        page.spellAll ((page.tree.children id).map (page.tree.outlineTo depth)) ++
        page.spellMarker ⟨id, .closingStart⟩) := by
    rw [spellInner_of_plain plain]
    rcases tagged with ⟨element, same⟩ | ⟨condition, complete, same⟩ <;> rw [same] <;>
      simp only [List.append_assoc] <;> rfl
  have printed := inks_printElement declines tagged plain.kept placed written all
  rw [printedInk_of_tagged plain tagged.isMute, inner, ← printed_children depth shaped.numbered once]
  rw [content, closing] at printed
  simpa only [List.append_assoc] using printed

theorem inks_interpolation (isInterpolation : page.tree.kind id = .interpolation) (plain : page.Plain id)
    (placed : Placed page.tree id) {docs : List (NodeId × Doc)} (all : docs.map (·.1) = page.tree.children id)
    (written : Written (fun child => page.spell (page.tree.outlineTo depth child)) docs) :
    Printing.Inks (page.assemble id docs) (page.printedInk (depth + 1) id) := by
  have speaks : page.tree.isMute id = false := by
    unfold Tree.isMute
    rw [isInterpolation]
  have marked : page.tree.hasMarker ⟨id, .openingStart⟩ = true ∧ page.tree.hasMarker ⟨id, .closingEnd⟩ = true := by
    unfold Tree.hasMarker
    simp only [isInterpolation]
    exact ⟨trivial, trivial⟩
  have inner : page.spellInner id (page.spellAll (page.tree.outlineTo (depth + 1) id).inner) =
      docs.flatMap fun pair => page.spell (page.tree.outlineTo depth pair.1) := by
    rw [spellInner_of_plain plain, isInterpolation]
    show page.spellAll ((page.tree.children id).map (page.tree.outlineTo depth)) = _
    rw [spellAll_eq_flatMap, ← all, List.flatMap_map, List.flatMap_map]
  rw [printedInk_of_tagged plain speaks, inner]
  unfold assemble
  rw [isInterpolation]
  dsimp only
  refine Printing.yields_bind (Printing.yields_lift (inks_openingStart ⟨plain.kept, marked.1⟩))
    fun opening inkedOpening => ?_
  refine Printing.yields_bind (Printing.yields_lift (inks_closingEnd ⟨plain.kept, marked.2⟩ placed))
    fun closing inkedClosing => ?_
  exact Printing.yields_lift (inks_concat (inkedAll_append (inkedAll_cons inkedOpening (inkedAll_of_written written))
    (inkedAll_singleton inkedClosing)))

/-- Front matter is not glued to anything, so it borrows nothing. -/
theorem printedInk_of_frontMatter (shaped : page.tree.Shaped) (kept : page.tree.isIgnored id = false)
    {block : Markup.FrontMatter} (same : page.tree.kind id = .frontMatter block) :
    page.printedInk depth id = visible (frontMatterText block).toList := by
  have isBare : isBare (page.tree.kind id) = true := by
    rw [same]
    rfl
  have plain := plain_of_isBare kept isBare
  have bare := hasMarker_of_isBare isBare
  obtain ⟨looseBefore, looseAfter⟩ := shaped.frontMatter same
  have speaks : page.tree.isMute id = false := by
    unfold Tree.isMute
    rw [same]
  rw [printedInk_of_untagged plain speaks (bare _) (bare _), spellInner_of_plain plain, same,
    Tree.borrowedBefore?_of_loose looseBefore, Tree.borrowedAfter?_of_loose looseAfter]
  exact List.append_nil _

/-- A directive prints nothing but itself. -/
theorem printedInk_of_directive (kept : page.tree.isIgnored id = false) {value : String}
    (same : page.tree.kind id = .directive value) :
    page.printedInk depth id = visible ("<?" ++ value ++ "?>").toList := by
  have isBare : isBare (page.tree.kind id) = true := by
    rw [same]
    rfl
  have plain := plain_of_isBare kept isBare
  have bare := hasMarker_of_isBare isBare
  have never (owned : Option OwnedMarker) : page.spellBorrowed id owned = [] := by
    unfold spellBorrowed Tree.timesBorrowed Tree.isMute
    rw [kept, same, if_neg Bool.false_ne_true, if_pos rfl]
    rfl
  unfold printedInk head tail
  rw [never, never, spellOwn_of_noMarker (bare _), spellOwn_of_noMarker (bare _), spellInner_of_plain plain, same]
  exact List.append_nil _

/-- A node without children, whatever is printed of them. -/
theorem inks_childless (shaped : page.tree.Shaped) (childless : (page.tree.kind id).canHaveChildren = false)
    (raw : ∀ block, page.tree.kind id = .frontMatter block → frontMatterText block = block.raw)
    (plain : page.Plain id) (visited : page.Visited id) (docs : List (NodeId × Doc)) :
    Printing.Inks (page.assemble id docs) (page.printedInk depth id) := by
  obtain ⟨placed, outside⟩ := visited
  have content := spellInner_of_plain plain (page.spellAll (page.tree.outlineTo depth id).inner)
  unfold assemble
  cases same : page.tree.kind id with
  | text value =>
    have bare : ∀ marker, page.tree.hasMarker ⟨id, marker⟩ = false := hasMarker_of_isBare (by rw [same]; rfl)
    rw [same] at content
    have speaks : page.tree.isMute id = false := by
      unfold Tree.isMute
      rw [same]
      exact outside
    rw [printedInk_of_untagged plain speaks (bare _) (bare _), content]
    exact Printing.yields_lift (inks_printText outside)
  | comment value =>
    have bare : ∀ marker, page.tree.hasMarker ⟨id, marker⟩ = false := hasMarker_of_isBare (by rw [same]; rfl)
    rw [same] at content
    rw [printedInk_of_untagged plain (by unfold Tree.isMute; rw [same]) (bare _) (bare _), content, List.append_assoc]
    exact Printing.yields_lift inks_printComment
  | doctype value =>
    rw [same] at content
    rw [printedInk_of_tagged plain (by unfold Tree.isMute; rw [same]), content]
    exact Printing.yields_lift (inks_printDoctype plain.kept same placed)
  | directive value =>
    rw [printedInk_of_directive plain.kept same]
    exact Printing.yields_lift (inks_literalText _)
  | frontMatter block =>
    rw [printedInk_of_frontMatter shaped plain.kept same, raw block same]
    exact Printing.yields_lift (inks_literalText _)
  | conditionalStart condition | conditionalEnd =>
    rw [same] at content
    have marked : page.tree.hasMarker ⟨id, .openingStart⟩ = true ∧ page.tree.hasMarker ⟨id, .closingEnd⟩ = true := by
      unfold Tree.hasMarker
      simp only [same]
      exact ⟨trivial, trivial⟩
    rw [printedInk_of_tagged plain (by unfold Tree.isMute; rw [same]), content, List.append_nil]
    exact Printing.yields_lift
      (inks_pair (inks_openingStart ⟨plain.kept, marked.1⟩) (inks_closingEnd ⟨plain.kept, marked.2⟩ placed))
  | cdata value => exact absurd same (shaped.noCdata id value)
  | root | element element | interpolation | conditional condition complete =>
    rw [same] at childless
    cases childless

theorem inks_laidOut (shaped : page.tree.Shaped) (declines : page.Declines)
    (raw : ∀ block, page.tree.kind id = .frontMatter block → frontMatterText block = block.raw)
    (plain : page.Plain id) (visited : page.Visited id)
    (ih : ∀ child ∈ page.tree.children id, page.Visited child →
      Printing.Inks (page.printChild depth child) (page.printedInk depth child)) :
    Printing.Inks (do page.assemble id (← page.printNodes ((page.tree.children id).map (page.tree.outlineTo depth))))
      (page.printedInk (depth + 1) id) := by
  by_cases tagged : page.IsTagged id
  · have notInterpolation : page.tree.kind id ≠ .interpolation := by
      intro isInterpolation
      rcases tagged with ⟨element, same⟩ | ⟨condition, complete, same⟩ <;> rw [isInterpolation] at same <;> cases same
    have each := yields_printNodes fun child member =>
      ih child member (visited_of_mem shaped.numbered notInterpolation member)
    refine Printing.yields_bind each fun docs ⟨all, written⟩ => ?_
    have printed := inks_tagged shaped declines tagged plain visited.placed all written
    unfold assemble
    rcases tagged with ⟨element, same⟩ | ⟨condition, complete, same⟩ <;> rw [same] <;> exact printed
  · cases same : page.tree.kind id with
    | interpolation =>
      have each : ∀ child ∈ page.tree.children id,
          Printing.Inks (page.printChild depth child) (page.spell (page.tree.outlineTo depth child)) :=
        fun child member => inks_expression shaped declines same member
      exact Printing.yields_bind (yields_printNodes each) fun docs ⟨all, written⟩ =>
        inks_interpolation same plain visited.placed all written
    | root =>
      obtain ⟨parent, before, after, split⟩ := visited.placed.child
      exact absurd same (shaped.below (split ▸ List.mem_append_right before List.mem_cons_self))
    | element element => exact absurd (Or.inl ⟨element, same⟩) tagged
    | conditional condition complete => exact absurd (Or.inr ⟨condition, complete, same⟩) tagged
    | _ =>
      have childless : (page.tree.kind id).canHaveChildren = false := by
        rw [same]
        rfl
      exact Printing.yields_bind Printing.yields_true fun docs _ =>
        inks_childless shaped childless raw plain visited docs

theorem inks_printChild (shaped : page.tree.Shaped) (declines : page.Declines) (inside : id < page.tree.size)
    (deep : page.tree.size ≤ depth + id) (visited : page.Visited id) :
    Printing.Inks (page.printChild depth id) (page.printedInk depth id) := by
  induction depth generalizing id with
  | zero => exact absurd inside (Nat.not_lt_of_le (Nat.zero_add id ▸ deep))
  | succ depth ih =>
    unfold printChild
    split
    · next ignored => exact Printing.yields_lift (inks_printIgnored ignored _)
    · next kept =>
      have kept : page.tree.isIgnored id = false := Bool.eq_false_iff.mpr kept
      show Printing.Inks (page.printNode (.node id ((page.tree.children id).map (page.tree.outlineTo depth)))) _
      rw [printNode]
      refine Printing.yields_bind (yields_embedded? declines) fun answer answered => ?_
      cases answer with
      | some doc =>
        obtain ⟨block, same, inked⟩ := answered
        exact Printing.yields_pure (printedInk_of_frontMatter shaped kept same ▸ inked)
      | none =>
        dsimp only
        split
        · next copied =>
          exact inks_printCopied declines kept copied (isTagged_of_preservesContent copied) visited.placed _
        · next copies =>
          have plain : page.Plain id := ⟨kept, Bool.eq_false_iff.mpr copies⟩
          refine inks_laidOut shaped declines answered plain visited fun child member visitedChild => ?_
          exact ih (shaped.numbered.later member).2 (shaped.numbered.size_le_of_mem member deep) visitedChild

/-! ### The root -/

theorem plain_root (shaped : page.tree.Shaped) : page.Plain Tree.rootId := by
  have untagged : ¬page.IsTagged Tree.rootId := by
    rintro (⟨element, same⟩ | ⟨condition, complete, same⟩) <;> rw [shaped.root] at same <;> cases same
  refine ⟨?_, preservesContent_eq_false untagged⟩
  unfold Tree.isIgnored
  rw [shaped.numbered.root.2.1]
  rfl

theorem hasMarker_root (shaped : page.tree.Shaped) (marker : Markup.Marker) :
    page.tree.hasMarker ⟨Tree.rootId, marker⟩ = false := by
  unfold Tree.hasMarker
  simp only [shaped.root]

/-- The root has no tags, and nothing is borrowed of it. -/
theorem spellMarker_root (shaped : page.tree.Shaped) (marker : Markup.Marker) :
    page.spellMarker ⟨Tree.rootId, marker⟩ = [] := by
  obtain ⟨noParent, noPrev, noNext⟩ := shaped.numbered.root
  have kept : page.tree.borrower? ⟨Tree.rootId, marker⟩ = none := by
    cases marker with
    | openingStart =>
      refine if_neg ?_
      unfold Tree.lendsOpeningStart
      rw [noPrev]
      exact Bool.false_ne_true
    | openingEnd =>
      refine if_neg ?_
      unfold Tree.lendsOpeningEnd
      cases first : page.tree.firstChild? Tree.rootId with
      | none => exact Bool.false_ne_true
      | some first' =>
        rw [Option.any_some, Tree.borrowsParentOpeningEnd, shaped.looseStart first, Bool.and_false]
        exact Bool.false_ne_true
    | closingStart =>
      refine if_neg ?_
      unfold Tree.lendsClosingStart
      cases last : page.tree.lastChild? Tree.rootId with
      | none => exact Bool.false_ne_true
      | some last' =>
        rw [Option.any_some, Tree.borrowsParentClosingStart, shaped.looseEnd last, Bool.and_false, Bool.false_and]
        exact Bool.false_ne_true
    | closingEnd =>
      refine if_neg ?_
      unfold Tree.lendsClosingEnd
      rw [noNext, noParent]
      exact Bool.false_ne_true
  rw [spellMarker_of_none kept, spellOwn_of_noMarker (hasMarker_root shaped marker)]

theorem spell_outline_root (shaped : page.tree.Shaped) (size : page.tree.size = depth + 1) :
    page.spell (page.tree.outline Tree.rootId) = (page.tree.children Tree.rootId).flatMap (page.printedInk depth) := by
  have plain := plain_root shaped
  have once : page.tree.timesBorrowed Tree.rootId = 1 :=
    timesBorrowed_eq_one plain.kept plain.printed (by unfold Tree.isMute; rw [shaped.root])
  have inside : page.spellInside Tree.rootId = [] := by
    have borrowed : page.tree.borrowedInside? Tree.rootId = none := by
      refine if_neg ?_
      unfold Tree.borrowsLastChildClosingEnd
      cases last : page.tree.lastChild? Tree.rootId with
      | none => exact Bool.false_ne_true
      | some last' =>
        rw [Option.any_some, shaped.looseEnd last, Bool.false_and, Bool.false_and]
        exact Bool.false_ne_true
    unfold spellInside
    rw [borrowed]
    exact ite_self _
  have seams := printed_children depth shaped.numbered once
  rw [spellOwn_of_noMarker (hasMarker_root shaped _), spellOwn_of_noMarker (hasMarker_root shaped _), inside,
    spellMarker_root shaped, spellMarker_root shaped] at seams
  simp only [List.nil_append, List.append_nil] at seams
  unfold Tree.outline
  rw [size, seams]
  show page.spellMarker _ ++ page.spellInner Tree.rootId _ ++ page.spellMarker _ = _
  rw [spellMarker_root shaped, spellMarker_root shaped, spellInner_of_plain plain, shaped.root, List.append_nil]
  rfl

/-- A page is printed as it is spelled. -/
theorem inks_print (shaped : page.tree.Shaped) (declines : page.Declines) :
    Printing.Inks page.print (page.spell (page.tree.outline Tree.rootId)) := by
  obtain ⟨depth, size⟩ : ∃ depth, page.tree.size = depth + 1 := Nat.exists_eq_add_one.mpr shaped.nonempty
  have each : ∀ child ∈ page.tree.children Tree.rootId,
      Printing.Inks (page.printChild depth child) (page.printedInk depth child) := by
    intro child member
    obtain ⟨later, within⟩ := shaped.numbered.later member
    have bound : page.tree.size ≤ depth + child := size ▸ Nat.add_le_add_left later depth
    exact inks_printChild shaped declines within bound (visited_of_mem shaped.numbered (by simp [shaped.root]) member)
  rw [spell_outline_root shaped size]
  unfold print Tree.outline
  rw [size]
  show Printing.Inks (page.printNode
    (.node Tree.rootId ((page.tree.children Tree.rootId).map (page.tree.outlineTo depth)))) _
  rw [printNode]
  refine Printing.yields_bind (yields_embedded? declines) fun answer answered => ?_
  cases answer with
  | some doc =>
    obtain ⟨block, same, _⟩ := answered
    rw [shaped.root] at same
    cases same
  | none =>
    dsimp only
    rw [(plain_root shaped).printed, if_neg Bool.false_ne_true]
    refine Printing.yields_bind (yields_printNodes each) fun docs printed => ?_
    obtain ⟨all, written⟩ := printed
    have content : (docs.flatMap fun pair => page.printedInk depth pair.1) =
        (page.tree.children Tree.rootId).flatMap (page.printedInk depth) := by
      rw [← all, List.flatMap_map]
    rw [← content]
    unfold assemble
    rw [shaped.root]
    dsimp only
    split
    · exact Printing.yields_lift inks_empty
    · refine Printing.yields_bind (Printing.yields_lift (inks_joinChildren written _)) fun joined inked => ?_
      refine Printing.yields_bind (Printing.yields_lift (inks_group inked)) fun whole inkedWhole => ?_
      refine Printing.yields_bind (Printing.yields_lift inks_hardline) fun last blank => ?_
      have parts := inkedAll_cons inkedWhole (inkedAll_singleton blank)
      rw [List.append_nil] at parts
      exact Printing.yields_lift (inks_concat parts)

end Page

end MarkupFormat.Print
