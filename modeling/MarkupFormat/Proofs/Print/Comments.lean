import MarkupFormat.Proofs.Layout.Triples
import MarkupFormat.Proofs.Markup.DocumentOrder
import MarkupFormat.Proofs.Print.AttributeText
import MarkupFormat.Proofs.Print.KeptSource
import MarkupFormat.Proofs.Print.LaidOut

/-!
# Printed comments

A comment is printed as it is written, between markers that it may borrow on both sides, and so it is if a comment
before it asks to leave it as it is. As the documents of children are put together in order, the document of a page
shows all comments that stand in nothing that is copied, in document order (`Page.showsComments_print`).
-/

namespace MarkupFormat.Markup.Tree

open Annotate (Covers)

/-- What is written of a node in the source. -/
def writtenText (tree : Tree) (id : NodeId) : List Char :=
  ((tree.node id).span.slice tree.source.toList).toList

/-- The nodes that are not copied together with a node around them: no comment asks to leave such a node as it is, and
no such node has content that is preserved. -/
inductive Uncopied (tree : Tree) : NodeId → Prop where
  | root : Uncopied tree rootId
  | child {parent id : NodeId} (around : Uncopied tree parent) (kept : tree.isIgnored parent = false)
    (printed : tree.preservesContent parent = false) (member : id ∈ tree.children parent) : Uncopied tree id

/-- A comment that is not copied together with a node around it. -/
structure PrintsComment (tree : Tree) (id : NodeId) : Prop where
  comment : ∃ value, tree.kind id = .comment value
  uncopied : tree.Uncopied id

variable {tree : Tree} {depth : Nat} {id parent : NodeId} {ids : List NodeId}

/-- The nodes below a node, as far as its outline reaches. -/
theorem ids_outlineTo_inner : (tree.outlineTo depth id).ids = id :: (tree.outlineTo depth id).inner.flatMap Outline.ids := by
  cases depth <;> exact Outline.ids_node _ _

theorem parent_of_uncopied (numbered : tree.Numbered) (member : id ∈ tree.children parent) (uncopied : tree.Uncopied id) :
    tree.Uncopied parent ∧ tree.isIgnored parent = false ∧ tree.preservesContent parent = false := by
  cases uncopied with
  | root => exact absurd (numbered.later member).1 (Nat.not_lt_zero _)
  | child around kept printed other =>
    have above := numbered.parent_of_mem member
    rw [numbered.parent_of_mem other] at above
    cases above
    exact ⟨around, kept, printed⟩

theorem laidOut_of_below (numbered : tree.Numbered) {below : NodeId}
    (member : below ∈ (tree.outlineTo depth id).inner.flatMap Outline.ids) (uncopied : tree.Uncopied below) :
    tree.Uncopied id ∧ tree.isIgnored id = false ∧ tree.preservesContent id = false := by
  induction depth generalizing id with
  | zero => cases member
  | succ depth ih =>
    obtain ⟨_, inside, member⟩ := List.mem_flatMap.mp member
    obtain ⟨child, isChild, rfl⟩ := List.mem_map.mp inside
    rw [ids_outlineTo_inner] at member
    obtain rfl | deeper := List.mem_cons.mp member
    · exact parent_of_uncopied numbered isChild uncopied
    · exact parent_of_uncopied numbered isChild (ih deeper).1

theorem eq_nil_or_singleton_of_copied (numbered : tree.Numbered) (sub : ids.Sublist (tree.outlineTo depth id).ids)
    (each : ∀ shown ∈ ids, tree.Uncopied shown) (copied : tree.isIgnored id = true) : ids = [] ∨ ids = [id] := by
  have none {more : List NodeId} (sub : more.Sublist ((tree.outlineTo depth id).inner.flatMap Outline.ids))
      (each : ∀ shown ∈ more, tree.Uncopied shown) : more = [] := by
    refine List.eq_nil_iff_forall_not_mem.mpr fun shown member => ?_
    obtain ⟨-, kept, -⟩ := laidOut_of_below numbered (sub.subset member) (each shown member)
    exact Bool.false_ne_true (kept.symm.trans copied)
  rw [ids_outlineTo_inner] at sub
  obtain within | ⟨more, rfl, within⟩ := List.sublist_cons_iff.mp sub
  · exact .inl (none within each)
  · exact .inr (congrArg (id :: ·) (none within (List.forall_mem_cons.mp each).2))

theorem writtenText_of_comment (covers : Covers tree) {value : String} (comment : tree.kind id = .comment value) :
    tree.writtenText id = "<!--".toList ++ value.toList ++ "-->".toList := by
  have inside : id < tree.size := by
    refine Nat.lt_of_not_le fun outside => ?_
    unfold kind at comment
    rw [node_of_size_le outside] at comment
    cases comment
  have noText : (tree.kind id).isText = false := by
    rw [comment]
    rfl
  obtain ⟨text, cut, written, -⟩ := covers.written id inside noText
  have cut : Text.Cut tree.source.toList (tree.node id).span.start (tree.node id).span.stop text := cut
  have written : (tree.kind id).WrittenAs text := written
  rw [comment] at written
  unfold writtenText Span.slice
  rw [cut.slice_eq, String.toList_ofList]
  exact written

theorem isTextLikeNode_of_comment {value : String} (comment : tree.kind id = .comment value) :
    tree.isTextLikeNode id = true := by
  unfold isTextLikeNode
  rw [comment]
  rfl

end MarkupFormat.Markup.Tree

namespace MarkupFormat.Print

open Annotate (Covers)
open Layout (Build Doc Solid)
open Layout.Build (Yields gathers_between yields_of_makes yields_true)
open Markup (NodeId Outline Tree)

/-- A text with its line feeds as they are is shown. -/
theorem showsInOrder_literalText {content : String} (solid : Solid [content.toList]) :
    Yields (literalText content) (Doc.ShowsInOrder [content.toList]) :=
  (yields_of_makes (lays_literalText content)).mono fun _ same =>
    Doc.showsInOrder_of_adds (Doc.adds_of_verbatim? same) solid

namespace Page

variable {page : Page} {depth : Nat} {id parent : NodeId} {ids children : List NodeId}

theorem solid_comment (covers : Covers page.tree) {value : String} (comment : page.tree.kind id = .comment value) :
    Solid [page.tree.writtenText id] := by
  rintro ending _ ⟨⟩
  · rw [Tree.writtenText_of_comment covers comment, Text.writtenChars_append]
    exact ⟨'>', by rw [List.getLast?_append]; cases ending <;> rfl, by decide⟩
  · contradiction

theorem showsComment_printComment (covers : Covers page.tree) {value : String}
    (comment : page.tree.kind id = .comment value) :
    Yields (page.printComment id) (Doc.ShowsInOrder [page.tree.writtenText id]) :=
  gathers_between Doc.gathers_showsInOrder _ (showsInOrder_literalText (solid_comment covers comment)) _

/-- A comment that a comment asks to leave as it is lends nothing, so all of it is copied. -/
theorem showsComment_printIgnored (covers : Covers page.tree) {value : String}
    (comment : page.tree.kind id = .comment value) (member : id ∈ page.tree.children parent) :
    Yields (page.printIgnored id) (Doc.ShowsInOrder [page.tree.writtenText id]) := by
  obtain ⟨before, after, split⟩ := List.append_of_mem member
  have all : page.ignoredSource id = page.sourceText (page.tree.node id).span :=
    (ignoredSource_of_isTextLikeNode covers split (Tree.isTextLikeNode_of_comment comment)).2.2
  have same : page.printIgnored id = Build.seq [page.before id, literalText (page.ignoredSource id), page.after id] :=
    rfl
  rw [same, all]
  exact gathers_between Doc.gathers_showsInOrder _ (showsInOrder_literalText (solid_comment covers comment)) _

theorem childrenHold_printNodes (covers : Covers page.tree) (below : ∀ child ∈ children, child ∈ page.tree.children parent)
    (sub : ids.Sublist (children.flatMap fun child => (page.tree.outlineTo depth child).ids))
    (comments : ∀ id ∈ ids, page.tree.PrintsComment id)
    (each : ∀ child ∈ children, ∀ shown : List NodeId, shown.Sublist (page.tree.outlineTo depth child).ids →
      (∀ id ∈ shown, page.tree.PrintsComment id) →
      Printing.Yields (page.printNode (page.tree.outlineTo depth child))
        (Doc.ShowsInOrder (shown.map page.tree.writtenText))) :
    Printing.Yields (page.printNodes (children.map (page.tree.outlineTo depth))) fun docs =>
      ∃ parts, parts.flatten = ids.map page.tree.writtenText ∧ ChildrenHold Doc.ShowsInOrder parts docs := by
  induction children generalizing ids with
  | nil =>
    cases List.sublist_nil.mp sub
    exact Printing.yields_pure ⟨[], rfl, .nil⟩
  | cons child rest ih =>
    obtain ⟨isChild, others⟩ := List.forall_mem_cons.mp below
    obtain ⟨first, later⟩ := List.forall_mem_cons.mp each
    obtain ⟨shown, more, rfl, here, there⟩ := List.sublist_append_iff.mp sub
    obtain ⟨isHere, isThere⟩ := List.forall_mem_append.mp comments
    rw [List.map_cons, outlineTo_eq, printNodes]
    have finish {doc : Doc} (shows : doc.ShowsInOrder (shown.map page.tree.writtenText)) :
        Printing.Yields
          (do return (child, doc) :: (← page.printNodes (rest.map (page.tree.outlineTo depth)))) fun docs =>
          ∃ parts, parts.flatten = (shown ++ more).map page.tree.writtenText ∧
            ChildrenHold Doc.ShowsInOrder parts docs := by
      refine Printing.yields_bind (ih others there isThere later) fun docs ⟨parts, same, hold⟩ => ?_
      refine Printing.yields_pure ⟨_ :: parts, ?_, .cons shows hold⟩
      rw [List.flatten_cons, same, List.map_append]
    cases ignored : page.tree.isIgnored child with
    | false =>
      rw [if_neg Bool.false_ne_true, ← outlineTo_eq]
      exact Printing.yields_bind (first shown here isHere) fun doc shows => finish shows
    | true =>
      rw [if_pos rfl]
      have uncopied : ∀ id ∈ shown, page.tree.Uncopied id := fun id member => (isHere id member).uncopied
      obtain rfl | rfl := Tree.eq_nil_or_singleton_of_copied covers.shaped.numbered here uncopied ignored
      · exact Printing.yields_bind Printing.yields_true fun doc _ => finish doc.showsInOrder_nil
      · obtain ⟨value, comment⟩ := (isHere child (List.mem_singleton_self _)).comment
        exact Printing.yields_bind (Printing.yields_lift (showsComment_printIgnored covers comment isChild))
          fun doc shows => finish shows

theorem showsComment_printNode (covers : Covers page.tree) {value : String}
    (comment : page.tree.kind id = .comment value) (inner : List Outline) :
    Printing.Yields (page.printNode (.node id inner)) (Doc.ShowsInOrder [page.tree.writtenText id]) := by
  have untagged : ¬page.IsTagged id := by
    rintro (⟨_, tagged⟩ | ⟨_, _, tagged⟩) <;> rw [comment] at tagged <;> cases tagged
  have declined : page.embedded? id = pure none := by
    unfold embedded?
    rw [comment]
  rw [printNode, declined, pure_bind]
  dsimp only
  rw [preservesContent_eq_false untagged, if_neg Bool.false_ne_true]
  refine Printing.yields_bind Printing.yields_true fun children _ => ?_
  unfold assemble
  rw [comment]
  exact Printing.yields_lift (showsComment_printComment covers comment)

/-- There is nothing below a comment. -/
theorem showsComments_of_first (covers : Covers page.tree)
    (below : ids.Sublist ((page.tree.outlineTo depth id).inner.flatMap Outline.ids))
    (comments : ∀ shown ∈ id :: ids, page.tree.PrintsComment shown) :
    Printing.Yields (page.printNode (page.tree.outlineTo depth id))
      (Doc.ShowsInOrder ((id :: ids).map page.tree.writtenText)) := by
  obtain ⟨value, comment⟩ := (comments id List.mem_cons_self).comment
  have leaf : page.tree.children id = [] := covers.shaped.leaf (by rw [comment]; rfl)
  have none : (page.tree.outlineTo depth id).inner = [] := by
    cases depth with
    | zero => rfl
    | succ depth => rw [Tree.outlineTo, Outline.inner, leaf, List.map_nil]
  rw [none] at below
  cases List.sublist_nil.mp below
  rw [outlineTo_eq]
  exact showsComment_printNode covers comment _

theorem showsComments_printNode (covers : Covers page.tree) (sub : ids.Sublist (page.tree.outlineTo depth id).ids)
    (comments : ∀ shown ∈ ids, page.tree.PrintsComment shown) :
    Printing.Yields (page.printNode (page.tree.outlineTo depth id))
      (Doc.ShowsInOrder (ids.map page.tree.writtenText)) := by
  induction depth generalizing id ids with
  | zero =>
    obtain below | ⟨more, rfl, below⟩ := List.sublist_cons_iff.mp sub
    · cases List.sublist_nil.mp below
      exact fun requests => yields_true.mono fun result _ => result.1.showsInOrder_nil
    · exact showsComments_of_first covers below comments
  | succ depth ih =>
    rw [Tree.ids_outlineTo_inner] at sub
    obtain below | ⟨more, rfl, below⟩ := List.sublist_cons_iff.mp sub
    · cases ids with
      | nil => exact fun requests => yields_true.mono fun result _ => result.1.showsInOrder_nil
      | cons shown others =>
        have member := below.subset List.mem_cons_self
        obtain ⟨-, -, printed⟩ :=
          Tree.laidOut_of_below covers.shaped.numbered member (comments shown List.mem_cons_self).uncopied
        rw [Tree.outlineTo, Outline.inner, List.flatMap_map] at below
        have some : page.tree.children id ≠ [] := by
          rintro none
          rw [none] at below
          cases below
        have around : (page.tree.kind id).canHaveChildren = true :=
          Bool.not_eq_false _ ▸ fun childless => some (covers.shaped.leaf childless)
        rw [Tree.outlineTo, printNode, embedded?_of_canHaveChildren around, pure_bind]
        dsimp only
        rw [printed, if_neg Bool.false_ne_true]
        have children := childrenHold_printNodes covers (fun _ isChild => isChild) below comments
          fun child _ ids sub comments => ih sub comments
        refine Printing.yields_bind children fun docs shown => ?_
        obtain ⟨parts, same, hold⟩ := shown
        rw [← same]
        exact gathers_assemble Doc.gathers_showsInOrder covers.shaped some hold
    · exact showsComments_of_first covers below comments

theorem showsComments_print (covers : Covers page.tree) (sub : ids.Sublist (page.tree.descendants Tree.rootId))
    (comments : ∀ shown ∈ ids, page.tree.PrintsComment shown) :
    Printing.Yields page.print (Doc.ShowsInOrder (ids.map page.tree.writtenText)) :=
  showsComments_printNode covers sub comments

end Page

end MarkupFormat.Print
