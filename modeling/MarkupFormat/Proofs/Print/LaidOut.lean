import MarkupFormat.Proofs.Layout.Triples
import MarkupFormat.Proofs.Print.AttributeText
import MarkupFormat.Proofs.Print.Printed

/-!
# From children to pages

What the document of a node has of the documents of its children, whatever stands around these.

Whatever lines, groups and indentation stand around the children of a node, what their documents have adds up to what
the document of the node has (`Page.gathers_assemble`).

A node is laid out if nothing asks to leave it or a node around it as it is, and no content of a node around it is
copied (`Tree.LaidOut`). What is seen of the page before such a node is the spelling of what stands before it in the
source (`Page.spelledUpTo`). So a text that a node shows is shown on the page, and at this place (`Page.shows_print`).
A node that is copied among nodes that are laid out shows every part of what is copied (`Page.shows_print_of_copied`).
What is neither laid out nor in what is copied is in code (`Tree.laidOut_or_inside`).
-/

namespace MarkupFormat.Markup.Tree

/-- The nodes that are laid out as markup. What is in a script, a style sheet or an interpolation is code. -/
inductive LaidOut (tree : Tree) : NodeId → Prop where
  | root : LaidOut tree rootId
  | child {parent id : NodeId} (around : LaidOut tree parent)
    (notScript : Annotate.isScriptLike (tree.kind parent) = false)
    (notExpression : (tree.kind parent).isInterpolation = false) (member : id ∈ tree.children parent)
    (kept : tree.isIgnored id = false) (printed : tree.preservesContent id = false) : LaidOut tree id

/-- The nodes that are copied from the source where everything around them is laid out. -/
inductive Copied (tree : Tree) : NodeId → Prop where
  | child {parent id : NodeId} (around : LaidOut tree parent)
    (notExpression : (tree.kind parent).isInterpolation = false) (member : id ∈ tree.children parent)
    (copied : tree.isIgnored id = true ∨ tree.preservesContent id = true) : Copied tree id

/-- A node stands somewhere inside of another one, or is that one. -/
inductive Inside (tree : Tree) (outer : NodeId) : NodeId → Prop where
  | self : Inside tree outer outer
  | child {parent id : NodeId} (inside : Inside tree outer parent) (member : id ∈ tree.children parent) :
    Inside tree outer id

/-- A node inside of which there is code. -/
structure HoldsCode (tree : Tree) (id : NodeId) : Prop where
  laidOut : tree.LaidOut id
  code : Annotate.isScriptLike (tree.kind id) = true ∨ (tree.kind id).isInterpolation = true

/-- What is not laid out is in what is copied, or in code. -/
theorem laidOut_or_inside {tree : Tree} (numbered : tree.Numbered)
    (placed : ∀ id < tree.size, id ≠ rootId → ∃ parent, id ∈ tree.children parent) {id : NodeId}
    (within : id < tree.size) :
    tree.LaidOut id ∨ ∃ outer, tree.Inside outer id ∧ (tree.Copied outer ∨ tree.HoldsCode outer) := by
  induction id using Nat.strongRecOn with
  | ind id ih =>
    by_cases root : id = rootId
    · exact .inl (root ▸ .root)
    · obtain ⟨parent, member⟩ := placed id within root
      have later := (numbered.later member).1
      obtain around | ⟨outer, inside, encloses⟩ := ih parent later (later.trans within)
      · by_cases code : Annotate.isScriptLike (tree.kind parent) = true ∨ (tree.kind parent).isInterpolation = true
        · exact .inr ⟨parent, .child .self member, .inr ⟨around, code⟩⟩
        · simp only [not_or, Bool.not_eq_true] at code
          by_cases copied : tree.isIgnored id = true ∨ tree.preservesContent id = true
          · exact .inr ⟨id, .self, .inl (.child around code.2 member copied)⟩
          · simp only [not_or, Bool.not_eq_true] at copied
            exact .inl (.child around code.1 code.2 member copied.1 copied.2)
      · exact .inr ⟨outer, .child inside member, encloses⟩

end MarkupFormat.Markup.Tree

namespace MarkupFormat.Print

open Layout (Assertion Build Doc GroupId InTurn ShowsAmong inTurn_of_forall₂ inTurn_singleton)
open Layout.Build (Yields gathers_between gathers_concat gathers_groupWith gathers_indent gathers_indentIfBreak
  inks_empty inks_groupWith inks_hardline shows_concat shows_groupWith shows_indent shows_indentIfBreak shows_triple
  yields_bind yields_mapM yields_pure yields_true)
open Markup (NodeId Outline Tree)
open Text (visible)

section Gathering

variable {α : Type} {holds : List α → Doc → Prop} (gathers : Doc.Gathers holds) {tree : Tree} {id : NodeId} {doc : Doc}
  {items : List α}

include gathers

/-! ### Among children -/

theorem inTurn_ownLine (here : holds items doc) : Yields (ownLine tree id doc) (InTurn holds items) := by
  have alone : InTurn holds items [doc] := inTurn_singleton here
  unfold ownLine
  split
  · exact yields_pure alone
  · refine yields_bind yields_true fun between _ => ?_
    split
    · exact yields_bind yields_true fun line _ => yields_pure (gathers.around alone [between, line] [])
    · exact yields_pure (gathers.around alone [between] [])

theorem inTurn_flowingText (here : holds items doc) : Yields (flowingText tree id doc) (InTurn holds items) := by
  have alone : InTurn holds items [doc] := inTurn_singleton here
  unfold flowingText
  split
  · exact yields_pure alone
  · split
    · exact yields_pure alone
    · split
      · refine yields_bind yields_true fun lines _ => yields_pure ?_
        exact (gathers.inTurn_nothing lines).append alone
      · exact yields_bind yields_true fun between _ => yields_pure (gathers.around alone [between] [])

theorem inTurn_flowing (here : holds items doc) (group : GroupId) (prevGroup : Option GroupId) :
    Yields (flowing tree id doc group prevGroup) (InTurn holds items) := by
  unfold flowing
  split
  · exact inTurn_flowingText gathers here
  · refine yields_bind yields_true fun before _ => yields_bind yields_true fun after _ => ?_
    have content : InTurn holds items (doc :: after.1) := gathers.around (inTurn_singleton here) [] after.1
    refine yields_bind (gathers_concat gathers content) fun _ body => ?_
    refine yields_bind (gathers_groupWith gathers body _ _) fun inner inside => ?_
    have around : InTurn holds items (before.2 ++ [inner]) :=
      (gathers.inTurn_nothing before.2).append (inTurn_singleton inside)
    refine yields_bind (gathers_concat gathers around) fun _ whole => ?_
    refine yields_bind (gathers_groupWith gathers whole _ _) fun outer outside => yields_pure ?_
    rw [← List.singleton_append, ← List.append_assoc]
    exact gathers.around (inTurn_singleton outside) before.1 after.2

/-- Each of some children has its own items. -/
abbrev ChildrenHold (holds : List α → Doc → Prop) (parts : List (List α)) (children : List (NodeId × Doc)) : Prop :=
  List.Forall₂ (fun items child => holds items child.2) parts children

variable {parts : List (List α)} {children : List (NodeId × Doc)}

theorem inTurn_ownLines (each : ChildrenHold holds parts children) :
    Yields (children.mapM fun (id, doc) => ownLine tree id doc) fun lines =>
      InTurn holds parts.flatten lines.flatten := by
  induction each with
  | nil => exact yields_pure .nil
  | cons here _ ih =>
    rw [List.mapM_cons]
    refine yields_bind (inTurn_ownLine gathers here) fun lines first => yields_bind ih fun others rest => ?_
    exact yields_pure (first.append rest)

theorem inTurn_flowAll (each : ChildrenHold holds parts children) (prevGroup : Option GroupId) :
    Yields (flowAll tree prevGroup children) (InTurn holds parts.flatten) := by
  induction each generalizing prevGroup with
  | nil => exact yields_pure .nil
  | cons here _ ih =>
    rw [flowAll]
    refine yields_bind yields_true fun group _ => yields_bind (inTurn_flowing gathers here group prevGroup) ?_
    exact fun docs first => yields_bind (ih (some group)) fun others rest => yields_pure (first.append rest)

theorem gathers_joinChildren (each : ChildrenHold holds parts children) (parent : NodeId) :
    Yields (joinChildren tree parent children) (holds parts.flatten) := by
  unfold joinChildren
  split
  · refine yields_bind yields_true fun first _ => yields_bind (inTurn_ownLines gathers each) fun lines inTurn => ?_
    exact gathers_concat gathers ((gathers.inTurn_nothing [first]).append inTurn)
  · exact yields_bind (inTurn_flowAll gathers each none) fun docs inTurn => gathers_concat gathers inTurn

/-! ### Around children -/

namespace Page

variable {page : Page}

theorem gathers_body (each : ChildrenHold holds parts children) (some : page.tree.children id ≠ [])
    (tagGroup : GroupId) : Yields (page.body id children tagGroup) (holds parts.flatten) := by
  unfold body
  split
  · refine yields_bind yields_true fun before _ => ?_
    refine yields_bind (gathers_joinChildren gathers each id) fun joined here => ?_
    refine yields_bind (gathers_concat gathers (gathers.around (inTurn_singleton here) [before] [])) ?_
    refine fun content here => ?_
    dsimp only
    split
    · refine yields_bind (gathers_indentIfBreak gathers here tagGroup false) fun indented here => ?_
      exact gathers_between gathers _ (yields_pure here) _
    · refine yields_bind (gathers_indent gathers here) fun indented here => ?_
      exact gathers_between gathers _ (yields_pure here) _
  · next none =>
    exact absurd (List.getLast?_eq_some_getLast some) (none _ _ (List.head?_eq_some_head some))

theorem gathers_printElement (each : ChildrenHold holds parts children) (some : page.tree.children id ≠ []) :
    Printing.Yields (page.printElement id children) (holds parts.flatten) := by
  unfold printElement
  refine Printing.yields_bind Printing.yields_true fun tagGroup _ => ?_
  refine Printing.yields_bind (Printing.yields_lift (gathers_body gathers each some tagGroup)) fun body here => ?_
  refine Printing.yields_bind Printing.yields_true fun tag _ => ?_
  refine Printing.yields_bind Printing.yields_true fun opening _ => ?_
  refine Printing.yields_bind Printing.yields_true fun closing _ => ?_
  have whole := gathers.around (inTurn_singleton here) [opening] [closing]
  refine Printing.yields_bind (Printing.yields_lift (gathers_concat gathers whole)) fun element here => ?_
  exact Printing.yields_lift (gathers_groupWith gathers here _ _)

omit gathers in
theorem inTurn_children (each : ChildrenHold holds parts children) :
    InTurn holds parts.flatten (children.map (·.2)) :=
  inTurn_of_forall₂ (List.forall₂_map_right_iff.mpr each)

theorem gathers_assemble (shaped : page.tree.Shaped) (some : page.tree.children id ≠ [])
    (each : ChildrenHold holds parts children) :
    Printing.Yields (page.assemble id children) (holds parts.flatten) := by
  have parent : (page.tree.kind id).canHaveChildren = true :=
    Bool.not_eq_false _ ▸ fun childless => some (shaped.leaf childless)
  unfold assemble
  cases kind : page.tree.kind id with
  | root =>
    dsimp only
    split
    · cases each
      exact Printing.yields_lift (yields_true.mono fun doc _ => gathers.nothing doc)
    · refine Printing.yields_bind (Printing.yields_lift (gathers_joinChildren gathers each id)) fun joined here => ?_
      refine Printing.yields_bind (Printing.yields_lift (gathers_groupWith gathers here _ _)) fun body here => ?_
      refine Printing.yields_bind Printing.yields_true fun last _ => Printing.yields_lift ?_
      exact gathers_concat gathers (gathers.around (inTurn_singleton here) [] [last])
  | element element => exact gathers_printElement gathers each some
  | conditional condition complete => exact gathers_printElement gathers each some
  | interpolation =>
    refine Printing.yields_bind Printing.yields_true fun opening _ => ?_
    refine Printing.yields_bind Printing.yields_true fun closing _ => Printing.yields_lift ?_
    exact gathers_concat gathers (gathers.around (inTurn_children each) [opening] [closing])
  | _ =>
    rw [kind] at parent
    cases parent

end Page

end Gathering

/-! ### Children of which one has a property -/

variable {id : NodeId} {holds : Doc → Prop} {children : List (NodeId × Doc)}

/-- One of the children has a property. -/
def ChildHolds (holds : Doc → Prop) (children : List (NodeId × Doc)) : Prop :=
  ∃ child ∈ children, holds child.2

theorem exists_childrenHold (any : ChildHolds holds children) :
    ∃ parts : List (List Unit), parts.flatten ≠ [] ∧
      ChildrenHold (fun items doc => items ≠ [] → holds doc) parts children := by
  obtain ⟨shown, member, here⟩ := any
  obtain ⟨before, after, rfl⟩ := List.append_of_mem member
  have others (children : List (NodeId × Doc)) :
      ChildrenHold (fun (items : List Unit) doc => items ≠ [] → holds doc) (children.map fun _ => []) children :=
    List.forall₂_map_left_iff.mpr (List.forall₂_same.mpr fun _ _ some => absurd rfl some)
  refine ⟨before.map (fun _ => []) ++ [()] :: after.map (fun _ => []), by simp, ?_⟩
  exact List.rel_append (others before) (.cons (fun _ => here) (others after))

theorem Page.upward_body {page : Page} (upward : Doc.Upward holds) (any : ChildHolds holds children)
    (some : page.tree.children id ≠ []) (tagGroup : GroupId) : Yields (page.body id children tagGroup) holds := by
  obtain ⟨parts, one, each⟩ := exists_childrenHold any
  exact (gathers_body upward.gathers each some tagGroup).mono fun _ here => here one

/-! ### Children of which one shows a text -/

section Shown

variable {tree : Tree} {doc : Doc} {wanted : Assertion} {lead cs : List Char}

theorem showsAmong_ownLine (shows : doc.Shows wanted lead) : Yields (ownLine tree id doc) (ShowsAmong wanted lead) := by
  unfold ownLine
  split
  · exact yields_pure (.here shows)
  · next prev separator _ =>
    refine yields_bind (inks_separator separator) fun between blank => ?_
    split
    · exact yields_bind inks_hardline fun empty blankToo => yields_pure (.there blank (.there blankToo (.here shows)))
    · exact yields_pure (.there blank (.here shows))

theorem showsAmong_flowingText (shows : doc.Shows wanted lead) :
    Yields (flowingText tree id doc) (ShowsAmong wanted lead) := by
  unfold flowingText
  split
  · exact yields_pure (.here shows)
  · next prev separator _ =>
    split
    · exact yields_pure (.here shows)
    · split
      · exact yields_bind inksAll_emptyLine fun _ blank => yields_pure (ShowsAmong.behind (.here shows) blank)
      · exact yields_bind (inks_separator separator) fun _ blank => yields_pure (.there blank (.here shows))

theorem showsAmong_flowing (shows : doc.Shows wanted lead) (group : GroupId) (prevGroup : Option GroupId) :
    Yields (flowing tree id doc group prevGroup) (ShowsAmong wanted lead) := by
  unfold flowing
  split
  · exact showsAmong_flowingText shows
  · refine yields_bind yields_precedingParts fun before blank => ?_
    refine yields_bind yields_true fun after _ => ?_
    refine yields_bind (shows_concat (.here shows)) fun content shows => ?_
    refine yields_bind (shows_groupWith shows _ _) fun inner shows => ?_
    refine yields_bind (shows_concat (ShowsAmong.behind (.here shows) blank.2)) fun whole shows => ?_
    refine yields_bind (shows_groupWith shows _ _) fun outer shows => yields_pure ?_
    exact ShowsAmong.behind (.here shows) blank.1

variable (among : ShowsAmong wanted lead (children.map (·.2)))

include among

theorem showsAmong_ownLines : Yields (children.mapM fun child => ownLine tree child.1 child.2) fun lines =>
    ShowsAmong wanted lead lines.flatten := by
  induction children generalizing lead with
  | nil => cases among
  | cons child children ih =>
    rw [List.mapM_cons]
    cases among with
    | here shows =>
      exact yields_bind (showsAmong_ownLine shows) fun first among => yields_bind yields_true fun others _ =>
        yields_pure (among.append others.flatten)
    | there inked among =>
      exact yields_bind (inksAll_ownLine inked) fun first inked => yields_bind (ih among) fun others among =>
        yields_pure (among.behind inked)

theorem showsAmong_flowAll (prevGroup : Option GroupId) :
    Yields (flowAll tree prevGroup children) (ShowsAmong wanted lead) := by
  induction children generalizing lead prevGroup with
  | nil => cases among
  | cons child children ih =>
    rw [flowAll]
    refine yields_bind yields_true fun group _ => ?_
    cases among with
    | here shows =>
      exact yields_bind (showsAmong_flowing shows group prevGroup) fun first among =>
        yields_bind yields_true fun others _ => yields_pure (among.append others)
    | there inked among =>
      exact yields_bind (inksAll_flowing inked) fun first inked => yields_bind (ih among (some group))
        fun others among => yields_pure (among.behind inked)

theorem shows_joinChildren (parent : NodeId) : Yields (joinChildren tree parent children) (Doc.Shows wanted lead) := by
  unfold joinChildren
  split
  · refine yields_bind Layout.Build.inks_breakParent fun first blank => ?_
    refine yields_bind (showsAmong_ownLines among) fun lines among => ?_
    exact shows_concat (.there blank among)
  · exact yields_bind (showsAmong_flowAll among none) fun docs among => shows_concat among

namespace Page

variable {page : Page}

theorem shows_body (some : page.tree.children id ≠ []) (tagGroup : GroupId) :
    Yields (page.body id children tagGroup) (Doc.Shows wanted lead) := by
  have breaks : Layout.Build.Inks (if page.tree.breaksContent id then Build.breakParent else Build.empty) [] := by
    split
    · exact Layout.Build.inks_breakParent
    · exact inks_empty
  unfold body
  split
  · refine yields_bind (inks_lineBefore _ _) fun before blank => ?_
    refine yields_bind (shows_joinChildren among id) fun joined shows => ?_
    refine yields_bind (shows_concat (.there blank (.here shows))) fun content shows => ?_
    dsimp only
    split
    · exact yields_bind (shows_indentIfBreak shows tagGroup false) fun indented shows =>
        shows_triple breaks (yields_pure shows)
    · exact yields_bind (shows_indent shows) fun indented shows => shows_triple breaks (yields_pure shows)
  · next none =>
    exact absurd (List.getLast?_eq_some_getLast some) (none _ _ (List.head?_eq_some_head some))

end Page

end Shown

/-! ### Nodes that are laid out -/

namespace Page

variable {page : Page} {id parent : NodeId} {children : List (NodeId × Doc)} {depth : Nat} {wanted : Assertion}
  {lead rest : List Char}

theorem outlineTo_eq_outline {tree : Tree} (numbered : tree.Numbered) (inside : id < tree.size)
    (deep : tree.size ≤ depth + id) : tree.outlineTo depth id = tree.outline id := by
  unfold Tree.outline
  generalize same : tree.size = more
  have deepToo : tree.size ≤ more + id := same ▸ Nat.le_add_right _ _
  clear same
  induction depth generalizing id more with
  | zero => exact absurd inside (Nat.not_lt_of_le (Nat.zero_add id ▸ deep))
  | succ depth ih =>
    cases more with
    | zero => exact absurd inside (Nat.not_lt_of_le (Nat.zero_add id ▸ deepToo))
    | succ more =>
      unfold Tree.outlineTo
      refine congrArg (Outline.node id) (List.map_congr_left fun child member => ?_)
      exact ih (numbered.later member).2 (numbered.size_le_of_mem member deep) more
        (numbered.size_le_of_mem member deepToo)

variable (page) in
/-- What is seen of a node between its first marker and what is inside of it. -/
def spellOpening (id : NodeId) : List Char :=
  match page.tree.kind id with
  | .element _ | .conditional .. => visible (page.attributesText id) ++ page.spellMarker ⟨id, .openingEnd⟩
  | _ => []

variable (page) in
/-- What is seen of a page before what is inside of a node, given the nodes around it from the nearest to the root: the
opening tags of these, the nodes before each, and the first marker of the node. -/
def spellAround (id : NodeId) : List NodeId → List Char
  | [] => []
  | parent :: around =>
    spellAround parent around ++ page.spellOpening parent ++
      ((page.tree.children parent).takeWhile (· ≠ id)).flatMap (fun other => page.spell (page.tree.outline other)) ++
      page.spellMarker ⟨id, .openingStart⟩

variable (page) in
/-- What is seen of a page before what is inside of a node. -/
def spelledUpTo (id : NodeId) : List Char :=
  page.spellAround id (page.tree.ancestors id)

/-- What the nodes before a child print, with what their parent and the child print around it, are the markers and the
nodes that belong there. -/
theorem printed_before (numbered : page.tree.Numbered) (depth : Nat) {before after : List NodeId}
    (split : page.tree.children parent = before ++ id :: after) :
    page.spellOwn ⟨parent, .openingEnd⟩ ++ before.flatMap (page.printedInk depth) ++ page.head id =
      page.spellMarker ⟨parent, .openingEnd⟩ ++ page.spellAll (before.map (page.tree.outlineTo depth)) ++
        page.spellMarker ⟨id, .openingStart⟩ := by
  rw [spellAll_map]
  induction before using List.reverseRecOn generalizing id after with
  | nil =>
    obtain ⟨above, prev, -⟩ := numbered.linked split
    have first : page.tree.firstChild? parent = some id := by
      unfold Tree.firstChild?
      rw [split, List.nil_append, List.head?_cons]
    rw [List.flatMap_nil, List.flatMap_nil, List.append_nil, List.append_nil, spellOwn_append_head first prev above]
  | append_singleton before last ih =>
    have splitLast : page.tree.children parent = before ++ last :: (id :: after) := by
      rw [split, List.append_assoc]
      rfl
    obtain ⟨-, prev, -⟩ := numbered.linked split
    obtain ⟨-, -, next⟩ := numbered.linked splitLast
    rw [List.getLast?_concat] at prev
    have seam := tail_append_head next prev
    have earlier := ih splitLast
    rw [List.flatMap_append, List.flatMap_append, List.flatMap_singleton, List.flatMap_singleton]
    calc page.spellOwn ⟨parent, .openingEnd⟩ ++
          (before.flatMap (page.printedInk depth) ++ page.printedInk depth last) ++ page.head id
        = (page.spellOwn ⟨parent, .openingEnd⟩ ++ before.flatMap (page.printedInk depth) ++ page.head last) ++
          page.spellInner last (page.spellAll (page.tree.outlineTo depth last).inner) ++
          (page.tail last ++ page.head id) := by simp only [printedInk, List.append_assoc]
      _ = _ := by
        rw [earlier, seam]
        simp only [List.append_assoc]

theorem shows_printElement (declines : page.Declines) (tagged : page.IsTagged id) (plain : page.Plain id)
    (some : page.tree.children id ≠ []) (among : ShowsAmong wanted lead (children.map (·.2))) :
    Printing.Yields (page.printElement id children) (Doc.Shows wanted
      (page.head id ++ visible (page.attributesText id) ++ page.spellOwn ⟨id, .openingEnd⟩ ++ lead)) := by
  have once := timesBorrowed_eq_one plain.kept plain.printed tagged.isMute
  unfold printElement head
  rw [spellBorrowed_once once]
  refine Printing.yields_bind Printing.yields_true fun tagGroup _ => ?_
  refine Printing.yields_bind (Printing.yields_lift (shows_body among some tagGroup)) fun body shows => ?_
  refine Printing.yields_bind (inks_openingTag declines tagged plain.kept) fun tag inked => ?_
  refine Printing.yields_bind (Printing.yields_lift (inks_groupWith inked _ _)) fun opening inked => ?_
  refine Printing.yields_bind Printing.yields_true fun closing _ => ?_
  have whole : ShowsAmong wanted _ [opening, body, closing] := .there inked (.here shows)
  exact Printing.yields_bind (Printing.yields_lift (shows_concat whole)) fun element shows =>
    Printing.yields_lift (shows_groupWith shows _ _)

theorem showsAmong_printNodes {ink : NodeId → List Char} {before after : List NodeId}
    (each : ∀ other ∈ before, Printing.Inks (page.printChild depth other) (ink other))
    (here : Printing.Yields (page.printChild depth id) (Doc.Shows wanted lead)) :
    Printing.Yields (page.printNodes ((before ++ id :: after).map (page.tree.outlineTo depth))) fun docs =>
      ShowsAmong wanted (before.flatMap ink ++ lead) (docs.map (·.2)) := by
  have first (id : NodeId) (more : List Outline) : page.printNodes (page.tree.outlineTo depth id :: more) = (do
      let doc ← page.printChild depth id
      return (id, doc) :: (← page.printNodes more)) := by
    unfold printChild
    rw [outlineTo_eq, printNodes]
    split <;> rfl
  induction before with
  | nil =>
    rw [List.nil_append, List.map_cons, first]
    exact Printing.yields_bind here fun doc shows => Printing.yields_bind Printing.yields_true fun others _ =>
      Printing.yields_pure (.here shows)
  | cons other before ih =>
    obtain ⟨inks, others⟩ := List.forall_mem_cons.mp each
    rw [List.cons_append, List.map_cons, first, List.flatMap_cons, List.append_assoc]
    exact Printing.yields_bind inks fun doc inked => Printing.yields_bind (ih others) fun docs among =>
      Printing.yields_pure (.there inked among)

theorem head_root (shaped : page.tree.Shaped) : page.head Tree.rootId = [] := by
  obtain ⟨noParent, noPrev, -⟩ := shaped.numbered.root
  have borrowed : page.tree.borrowedBefore? Tree.rootId = none := by
    unfold Tree.borrowedBefore?
    rw [noPrev, noParent]
    exact ite_self _
  unfold head
  rw [borrowed, spellBorrowed_none, spellOwn_of_noMarker (hasMarker_root shaped _)]
  rfl

theorem embedded?_of_canHaveChildren (parent : (page.tree.kind id).canHaveChildren = true) :
    page.embedded? id = pure none := by
  unfold embedded?
  cases kind : page.tree.kind id <;> first | rfl | (rw [kind] at parent; cases parent)

theorem preservesContent_of_laidOut (shaped : page.tree.Shaped) (laidOut : page.tree.LaidOut id) :
    page.tree.preservesContent id = false := by
  cases laidOut with
  | root => exact (plain_root shaped).printed
  | child _ _ _ _ _ printed => exact printed

theorem isIgnored_of_laidOut (shaped : page.tree.Shaped) (laidOut : page.tree.LaidOut id) :
    page.tree.isIgnored id = false := by
  cases laidOut with
  | root => exact (plain_root shaped).kept
  | child _ _ _ _ kept _ => exact kept

theorem spellAll_outlineTo (numbered : page.tree.Numbered) {before : List NodeId}
    (below : ∀ other ∈ before, other ∈ page.tree.children parent) (deep : page.tree.size ≤ depth + 1 + parent) :
    page.spellAll (before.map (page.tree.outlineTo depth)) =
      before.flatMap fun other => page.spell (page.tree.outline other) := by
  rw [spellAll_eq_flatMap, List.flatMap_map]
  refine List.flatMap_congr fun other member => congrArg page.spell ?_
  exact outlineTo_eq_outline numbered (numbered.later (below other member)).2
    (numbered.size_le_of_mem (below other member) deep)

/-- A text that is shown inside of a child is shown inside of its parent, behind what is seen before the child. -/
theorem shows_printNode (shaped : page.tree.Shaped) (declines : page.Declines) (around : page.tree.LaidOut parent)
    (notExpression : (page.tree.kind parent).isInterpolation = false) {before after : List NodeId}
    (split : page.tree.children parent = before ++ id :: after) (deep : page.tree.size ≤ depth + 1 + parent)
    (here : Printing.Yields (page.printChild depth id) (Doc.Shows wanted (page.head id ++ rest))) :
    Printing.Yields (page.printNode (page.tree.outlineTo (depth + 1) parent)) (Doc.Shows wanted (page.head parent ++
      (page.spellOpening parent ++ before.flatMap (fun other => page.spell (page.tree.outline other)) ++
        page.spellMarker ⟨id, .openingStart⟩ ++ rest))) := by
  have some : page.tree.children parent ≠ [] := by
    rw [split]
    exact List.append_ne_nil_of_right_ne_nil _ (List.cons_ne_nil _ _)
  have isParent : (page.tree.kind parent).canHaveChildren = true :=
    Bool.not_eq_false _ ▸ fun childless => some (shaped.leaf childless)
  have noInterpolation : page.tree.kind parent ≠ .interpolation := fun same => by
    rw [same] at notExpression
    cases notExpression
  have below : ∀ other ∈ before, other ∈ page.tree.children parent :=
    fun other member => split ▸ List.mem_append_left _ member
  have each : ∀ other ∈ before, Printing.Inks (page.printChild depth other) (page.printedInk depth other) := by
    intro other member
    exact inks_printChild shaped declines (shaped.numbered.later (below other member)).2
      (shaped.numbered.size_le_of_mem (below other member) deep)
      (visited_of_mem shaped.numbered noInterpolation (below other member))
  have plain : page.Plain parent := ⟨isIgnored_of_laidOut shaped around, preservesContent_of_laidOut shaped around⟩
  have seams := printed_before shaped.numbered depth split
  rw [spellAll_outlineTo shaped.numbered below deep] at seams
  rw [Tree.outlineTo, printNode, embedded?_of_canHaveChildren isParent, pure_bind]
  dsimp only
  rw [plain.printed, if_neg Bool.false_ne_true, split]
  refine Printing.yields_bind (showsAmong_printNodes each here) fun docs among => ?_
  have tagged (tagged : page.IsTagged parent) (opening : page.spellOpening parent =
      visible (page.attributesText parent) ++ page.spellMarker ⟨parent, .openingEnd⟩) :
      Printing.Yields (page.printElement parent docs) (Doc.Shows wanted (page.head parent ++
        (page.spellOpening parent ++ before.flatMap (fun other => page.spell (page.tree.outline other)) ++
          page.spellMarker ⟨id, .openingStart⟩ ++ rest))) := by
    have printed := shows_printElement declines tagged plain some among
    have lead := congrArg (page.head parent ++ visible (page.attributesText parent) ++ · ++ rest) seams
    rw [opening]
    simp only [List.append_assoc] at lead printed ⊢
    rwa [← lead]
  unfold assemble
  cases kind : page.tree.kind parent with
  | root =>
    obtain rfl : parent = Tree.rootId := by
      cases around with
      | root => rfl
      | child _ _ _ member => exact absurd kind (shaped.below member)
    have opening : page.spellOpening Tree.rootId = [] := by
      unfold spellOpening
      rw [kind]
    rw [spellOwn_of_noMarker (hasMarker_root shaped _), spellMarker_root shaped] at seams
    have lead := congrArg (· ++ rest) seams
    rw [head_root shaped, opening]
    simp only [List.nil_append, List.append_assoc] at lead ⊢
    rw [← lead]
    cases docs with
    | nil => exact absurd rfl among.ne_nil
    | cons first others =>
      refine Printing.yields_bind (Printing.yields_lift (shows_joinChildren among _)) fun joined shows => ?_
      refine Printing.yields_bind (Printing.yields_lift (shows_groupWith shows _ _)) fun body shows => ?_
      refine Printing.yields_bind Printing.yields_true fun last _ => Printing.yields_lift ?_
      exact shows_concat (.here shows)
  | element element =>
    exact tagged (.inl ⟨element, kind⟩) (by unfold spellOpening; rw [kind])
  | conditional condition complete =>
    exact tagged (.inr ⟨condition, complete, kind⟩) (by unfold spellOpening; rw [kind])
  | interpolation => exact absurd kind noInterpolation
  | _ =>
    rw [kind] at isParent
    cases isParent

theorem ancestorsUpTo_of_laidOut (numbered : page.tree.Numbered) (laidOut : page.tree.LaidOut id) {count more : Nat}
    (enough : id ≤ count) (enoughToo : id ≤ more) :
    page.tree.ancestorsUpTo count id = page.tree.ancestorsUpTo more id := by
  induction laidOut generalizing count more with
  | root =>
    have none (count : Nat) : page.tree.ancestorsUpTo count Tree.rootId = [] := by
      cases count with
      | zero => rfl
      | succ count => rw [Tree.ancestorsUpTo, numbered.root.1]
    rw [none, none]
  | child _ _ _ member _ _ ih =>
    have order := (numbered.later member).1
    cases count with
    | zero => exact absurd order (Nat.not_lt_of_le (enough.trans (Nat.zero_le _)))
    | succ count =>
      cases more with
      | zero => exact absurd order (Nat.not_lt_of_le (enoughToo.trans (Nat.zero_le _)))
      | succ more =>
        rw [Tree.ancestorsUpTo, Tree.ancestorsUpTo, numbered.parent_of_mem member]
        exact congrArg _ (ih (Nat.le_of_lt_succ (order.trans_le enough)) (Nat.le_of_lt_succ (order.trans_le enoughToo)))

/-- What is seen before a child is what is seen before its parent, the opening tag of that and the children before. -/
theorem spelledUpTo_child (numbered : page.tree.Numbered) (around : page.tree.LaidOut parent) {before after : List NodeId}
    (split : page.tree.children parent = before ++ id :: after) (first : id ∉ before) :
    page.spelledUpTo id = page.spelledUpTo parent ++ page.spellOpening parent ++
      before.flatMap (fun other => page.spell (page.tree.outline other)) ++ page.spellMarker ⟨id, .openingStart⟩ := by
  have member : id ∈ page.tree.children parent := by
    rw [split]
    exact List.mem_append_right _ List.mem_cons_self
  obtain ⟨later, inside⟩ := numbered.later member
  have ancestors : page.tree.ancestors id = parent :: page.tree.ancestors parent := by
    have within : parent < page.tree.size := later.trans inside
    obtain ⟨count, size⟩ := Nat.exists_eq_add_one.mpr (Nat.zero_lt_of_lt inside)
    unfold Tree.ancestors
    rw [size] at within ⊢
    rw [Tree.ancestorsUpTo, numbered.parent_of_mem member]
    exact congrArg _ (ancestorsUpTo_of_laidOut numbered around (Nat.le_of_lt_succ within) (Nat.le_of_lt within))
  have children : (page.tree.children parent).takeWhile (· ≠ id) = before := by
    rw [split, List.takeWhile_append_of_pos fun other inside => by simpa using ne_of_mem_of_not_mem inside first]
    simp
  unfold spelledUpTo
  rw [ancestors, spellAround, children]

/-- If texts that are shown inside of a node are shown on the page, then so are those inside of its children. -/
theorem shows_print_child (shaped : page.tree.Shaped) (declines : page.Declines) (around : page.tree.LaidOut parent)
    (notExpression : (page.tree.kind parent).isInterpolation = false) (member : id ∈ page.tree.children parent)
    (above : ∀ rest, (∀ depth, page.tree.size ≤ depth + parent →
      Printing.Yields (page.printNode (page.tree.outlineTo depth parent))
        (Doc.Shows wanted (page.head parent ++ rest))) →
      Printing.Yields page.print (Doc.Shows wanted (page.spelledUpTo parent ++ rest)))
    (here : ∀ depth, page.tree.size ≤ depth + id →
      Printing.Yields (page.printChild depth id) (Doc.Shows wanted (page.head id ++ rest))) :
    Printing.Yields page.print (Doc.Shows wanted (page.spelledUpTo id ++ rest)) := by
  obtain ⟨before, after, split, first⟩ := List.eq_append_cons_of_mem member
  obtain ⟨later, within⟩ := shaped.numbered.later member
  have shows := above (page.spellOpening parent ++
      before.flatMap (fun other => page.spell (page.tree.outline other)) ++ page.spellMarker ⟨id, .openingStart⟩ ++
      rest) fun depth deep => by
    cases depth with
    | zero => exact absurd (later.trans within) (Nat.not_lt_of_le (Nat.zero_add parent ▸ deep))
    | succ depth =>
      exact shows_printNode shaped declines around notExpression split deep
        (here depth (shaped.numbered.size_le_of_mem member deep))
  rw [spelledUpTo_child shaped.numbered around split first]
  simpa only [List.append_assoc] using shows

/-- A text that is shown inside of a node that is laid out is shown on the page, behind what is seen before it. -/
theorem shows_print (shaped : page.tree.Shaped) (declines : page.Declines) (laidOut : page.tree.LaidOut id)
    (here : ∀ depth, page.tree.size ≤ depth + id →
      Printing.Yields (page.printNode (page.tree.outlineTo depth id)) (Doc.Shows wanted (page.head id ++ rest))) :
    Printing.Yields page.print (Doc.Shows wanted (page.spelledUpTo id ++ rest)) := by
  induction laidOut generalizing rest with
  | root =>
    have whole := here page.tree.size (Nat.le_add_right _ _)
    have alone : page.spelledUpTo Tree.rootId = [] := by
      have none : page.tree.ancestors Tree.rootId = [] :=
        ancestorsUpTo_of_laidOut shaped.numbered .root (Nat.zero_le _) (Nat.le_refl 0)
      unfold spelledUpTo
      rw [none]
      rfl
    rw [head_root shaped] at whole
    rwa [alone]
  | @child parent id around _ notExpression member kept _ ih =>
    refine shows_print_child shaped declines around notExpression member (fun rest here => ih here) fun depth deep => ?_
    unfold printChild
    rw [kept, if_neg Bool.false_ne_true]
    exact here depth deep

/-! ### Nodes that are copied -/

variable (page) in
/-- What is copied of a node: its content, or all of it. -/
def copiedSource (id : NodeId) : String :=
  if page.tree.isIgnored id then page.ignoredSource id else page.innerSource id

variable (page) in
/-- What is seen of a page before what is copied of a node. -/
def spelledUpToCopy (id : NodeId) : List Char :=
  page.spelledUpTo id ++
    if page.tree.isIgnored id then [] else visible (page.attributesText id) ++ page.spellOwn ⟨id, .openingEnd⟩

variable {front run back : List Char}

section Copies

variable {front run back : List Char} (wants : ∀ ending, wanted ending (Text.writtenChars ending run))
  (solid : Layout.EndsSolid run)

include wants solid

theorem shows_literalText {content : String} (split : content.toList = front ++ run ++ back) :
    Yields (literalText content) (Doc.Shows wanted (visible front)) := by
  refine (Layout.Build.yields_of_makes (lays_literalText content)).mono fun doc same => ?_
  rw [split] at same
  exact Doc.shows_of_adds (Doc.adds_of_verbatim? same) wants solid

theorem shows_printIgnored (ignored : page.tree.isIgnored id = true)
    (split : (page.ignoredSource id).toList = front ++ run ++ back) :
    Yields (page.printIgnored id) (Doc.Shows wanted (page.head id ++ visible front)) := by
  rw [(spell_ends_of_ignored ignored).1]
  exact shows_triple (inks_borrowed page _) (shows_literalText wants solid split)

theorem shows_printCopied (declines : page.Declines) (kept : page.tree.isIgnored id = false)
    (copied : page.tree.preservesContent id = true) (split : (page.innerSource id).toList = front ++ run ++ back) :
    Printing.Yields (page.printCopied id) (Doc.Shows wanted (page.head id ++
      (visible (page.attributesText id) ++ page.spellOwn ⟨id, .openingEnd⟩ ++ visible front))) := by
  have tagged := isTagged_of_preservesContent copied
  have lead : page.head id ++ (visible (page.attributesText id) ++ page.spellOwn ⟨id, .openingEnd⟩ ++ visible front) =
      page.borrowedInk (page.tree.borrowedBefore? id) ++ ((page.borrowedInk (page.tree.borrowedBefore? id) ++
        page.spellOwn ⟨id, .openingStart⟩ ++ visible (page.attributesText id) ++ page.spellOwn ⟨id, .openingEnd⟩) ++
        visible front) := by
    unfold head
    rw [spellBorrowed_twice kept copied tagged]
    simp only [List.append_assoc]
  unfold printCopied
  rw [lead]
  refine Printing.yields_bind (Printing.yields_lift (inks_borrowed page _)) fun before inkedBefore => ?_
  refine Printing.yields_bind (inks_openingTag declines tagged kept) fun opening inkedOpening => ?_
  refine Printing.yields_bind (Printing.yields_lift (Layout.Build.inks_group inkedOpening)) fun start inkedStart => ?_
  refine Printing.yields_bind (Printing.yields_lift (shows_literalText wants solid split)) fun content shows => ?_
  refine Printing.yields_bind Printing.yields_true fun closing _ => ?_
  refine Printing.yields_bind Printing.yields_true fun after _ => Printing.yields_lift ?_
  exact shows_concat (.there inkedBefore (.there inkedStart (.here shows)))

/-- Every part of what is copied that does not end in a blank is shown where it stands. -/
theorem shows_print_of_copied (shaped : page.tree.Shaped) (declines : page.Declines) (copied : page.tree.Copied id)
    (split : (page.copiedSource id).toList = front ++ run ++ back) :
    Printing.Yields page.print (Doc.Shows wanted (page.spelledUpToCopy id ++ visible front)) := by
  obtain ⟨around, notExpression, member, copied⟩ := copied
  unfold spelledUpToCopy
  rw [List.append_assoc]
  refine shows_print_child shaped declines around notExpression member
    (fun rest here => shows_print shaped declines around here) fun depth _ => ?_
  unfold copiedSource at split
  unfold printChild
  cases ignored : page.tree.isIgnored id with
  | true =>
    rw [ignored, if_pos rfl] at split
    rw [if_pos rfl, if_pos rfl, List.nil_append]
    exact Printing.yields_lift (shows_printIgnored wants solid ignored split)
  | false =>
    rw [ignored, if_neg Bool.false_ne_true] at split
    have preserved := copied.resolve_left (ignored ▸ Bool.false_ne_true)
    have isParent : (page.tree.kind id).canHaveChildren = true := by
      obtain ⟨element, kind⟩ | ⟨condition, complete, kind⟩ := isTagged_of_preservesContent preserved
      all_goals rw [kind]; rfl
    rw [if_neg Bool.false_ne_true, if_neg Bool.false_ne_true, outlineTo_eq, printNode,
      embedded?_of_canHaveChildren isParent, pure_bind]
    dsimp only
    rw [if_pos preserved]
    exact shows_printCopied wants solid declines ignored preserved split

end Copies

end Page

end MarkupFormat.Print
