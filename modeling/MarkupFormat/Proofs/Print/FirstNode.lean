import MarkupFormat.Proofs.Layout.Continued
import MarkupFormat.Proofs.Print.AttributeText
import MarkupFormat.Proofs.Print.Printed

/-!
# The first node of a page

What the document of a page begins with is decided where the first node is printed (`yields_print_first`), as no marker
is glued to that node from before.

Front matter that is not empty is printed as it is written, and nothing is glued to it. What comes next stands after an
empty line, whatever it is, so the document of the page begins with the block and a line break
(`yields_print_frontMatter`). A declaration is printed with both of its markers, and nothing comes before its last one
(`yields_print_declaration`).
-/

namespace MarkupFormat.Markup.Tree

variable {tree : Tree} {first : NodeId} {later : List NodeId}

/-- How the first node below the root is linked. -/
theorem Shaped.linked_first (shaped : tree.Shaped) (children : tree.children rootId = first :: later) :
    tree.prev? first = none ∧ tree.next? first = later.head? ∧
      ∀ other, tree.next? first = some other → tree.prev? other = some first := by
  have split : tree.children rootId = [] ++ first :: later := children
  obtain ⟨-, noPrev, next⟩ := shaped.numbered.linked split
  refine ⟨noPrev, next, fun other same => ?_⟩
  cases later with
  | nil =>
    rw [next] at same
    cases same
  | cons second rest =>
    obtain rfl : second = other := Option.some.inj (next.symm.trans same)
    have split : tree.children rootId = [first] ++ second :: rest := children
    exact (shaped.numbered.linked split).2.1

end MarkupFormat.Markup.Tree

namespace MarkupFormat.Print

open Layout (BeginsLine Build Carries Doc GroupId StartsWith WritesFirst beginsLine_append beginsLine_concat
  carries_startsWith carries_writesFirst startsWith_append startsWith_of_verbatim? writesFirst_of_verbatim?)
open Layout.Build (Lays Yields lays_group lays_seq lays_text makes_hardline yields_bind yields_of_makes yields_pure
  yields_true)
open Markup (FrontMatter NodeId Outline Tree)
open Text (isWhiteSpace)

variable {tree : Tree} {block : FrontMatter} {first next : NodeId} {later : List NodeId} {doc : Doc} {cs : List Char}
  {begins : List Doc → Prop}

/-- The first node flows with what follows it in its group. -/
theorem yields_flowing_first {ends : List Doc → Prop} (carries : Carries begins) (noPrev : tree.prev? first = none)
    (noText : tree.isTextLikeNode first = false)
    (following : Yields (followingParts tree first) fun parts => begins (doc :: parts.1) ∧ ends parts.2)
    (group : GroupId) :
    Yields (flowing tree first doc group none) fun docs =>
      ∃ outer after, docs = [outer] ++ after ∧ begins [outer] ∧ ends after := by
  have noneBefore : precedingParts tree first none = (do return ([], [])) := by
    unfold precedingParts separatorBefore?
    rw [noPrev]
    rfl
  unfold flowing
  rw [noText, if_neg Bool.false_ne_true, noneBefore, pure_bind]
  refine yields_bind following fun parts ⟨here, ends⟩ => ?_
  dsimp only
  refine yields_bind (carries.yields_concat here) fun body here => ?_
  refine yields_bind (carries.yields_groupWith _ _ here) fun inner here => ?_
  refine yields_bind (carries.yields_concat here) fun around here => ?_
  refine yields_bind (carries.yields_groupWith _ _ here) fun outer here => ?_
  exact yields_pure ⟨outer, parts.2, rfl, here, ends⟩

namespace Page

variable {page : Page}

theorem yields_ids_printNodes (outlines : List Outline) :
    Printing.Yields (page.printNodes outlines) fun docs => docs.map (·.1) = outlines.map Outline.id := by
  induction outlines with
  | nil => exact Printing.yields_pure rfl
  | cons outline rest ih =>
    obtain ⟨id, inner⟩ := outline
    have others (doc : Doc) : Printing.Yields (do return (id, doc) :: (← page.printNodes rest)) fun docs =>
        docs.map (·.1) = id :: rest.map Outline.id :=
      Printing.yields_bind ih fun docs ids => Printing.yields_pure (congrArg (id :: ·) ids)
    rw [printNodes]
    split
    · exact Printing.yields_bind Printing.yields_true fun doc _ => others doc
    · exact Printing.yields_bind Printing.yields_true fun doc _ => others doc

theorem yields_printNodes_first {printed : Doc → Prop} (noPrev : page.tree.prev? first = none)
    (node : ∀ inner, Printing.Yields (page.printNode (.node first inner)) printed) (depth : Nat) :
    Printing.Yields (page.printNodes ((first :: later).map (page.tree.outlineTo depth))) fun docs =>
      ∃ doc rest, docs = (first, doc) :: rest ∧ printed doc ∧ rest.map (·.1) = later := by
  have kept : page.tree.isIgnored first = false := by
    unfold Tree.isIgnored
    rw [noPrev]
    rfl
  have number (id : NodeId) : (Outline.id ∘ page.tree.outlineTo depth) id = id := by
    show (page.tree.outlineTo depth id).id = id
    rw [outlineTo_eq, Outline.id]
  rw [List.map_cons, outlineTo_eq, printNodes, kept, if_neg Bool.false_ne_true]
  refine Printing.yields_bind (node _) fun doc here => ?_
  refine Printing.yields_bind (yields_ids_printNodes _) fun rest ids => ?_
  refine Printing.yields_pure ⟨doc, rest, rfl, here, ?_⟩
  rw [ids, List.map_map, List.map_congr_left fun id _ => number id, List.map_id']

/-- The document of a page is what its nodes flow to, which the first one begins, and a line. -/
theorem yields_print_first {printed : Doc → Prop} (shaped : page.tree.Shaped) (declines : page.Declines)
    (children : page.tree.children Tree.rootId = first :: later)
    (node : ∀ inner, Printing.Yields (page.printNode (.node first inner)) printed) (carries : Carries begins)
    (flow : ∀ doc rest, printed doc → rest.map (·.1) = later →
      Yields (flowAll page.tree none ((first, doc) :: rest)) begins) :
    Printing.Yields page.print fun doc =>
      ∃ mark whole line, doc = .concat mark [whole, line] ∧ begins [whole] ∧ BeginsLine [line] [] := by
  obtain ⟨depth, size⟩ : ∃ depth, page.tree.size = depth + 1 := Nat.exists_eq_add_one.mpr shaped.nonempty
  have flows : page.tree.breaksChildren Tree.rootId = false := by
    unfold Tree.breaksChildren
    dsimp only
    rw [show (page.tree.node Tree.rootId).kind = _ from shaped.root]
  unfold print Tree.outline
  rw [size]
  show Printing.Yields (page.printNode
    (.node Tree.rootId ((page.tree.children Tree.rootId).map (page.tree.outlineTo depth)))) _
  rw [printNode, children]
  refine Printing.yields_bind (yields_embedded? declines) fun answer answered => ?_
  cases answer with
  | some doc =>
    obtain ⟨block, same, _⟩ := answered
    rw [shaped.root] at same
    cases same
  | none =>
    dsimp only
    rw [(plain_root shaped).printed, if_neg Bool.false_ne_true]
    refine Printing.yields_bind (yields_printNodes_first (shaped.linked_first children).1 node depth)
      fun docs ⟨doc, rest, split, here, ids⟩ => ?_
    subst split
    have joined : Yields (joinChildren page.tree Tree.rootId ((first, doc) :: rest)) fun doc => begins [doc] := by
      unfold joinChildren
      rw [flows, if_neg Bool.false_ne_true]
      exact yields_bind (flow doc rest here ids) fun _ => carries.yields_concat
    unfold assemble
    rw [shaped.root]
    dsimp only
    refine Printing.yields_bind (Printing.yields_lift joined) fun body here => ?_
    refine Printing.yields_bind (Printing.yields_lift (carries.yields_groupWith _ _ here)) fun whole here => ?_
    refine Printing.yields_bind (Printing.yields_lift (yields_of_makes makes_hardline)) fun line ends => ?_
    exact Printing.yields_lift (yields_bind yields_true fun mark _ => yields_pure ⟨mark, whole, line, rfl, here, ends⟩)

end Page

/-! ### Front matter -/

theorem isTextLikeNode_frontMatter (kind : tree.kind first = .frontMatter block) :
    tree.isTextLikeNode first = false := by
  unfold Tree.isTextLikeNode
  rw [kind]
  rfl

theorem hasEmptyLineAfter_frontMatter (kind : tree.kind first = .frontMatter block) :
    tree.hasEmptyLineAfter first = true := by
  unfold Tree.hasEmptyLineAfter Tree.isFrontMatter
  rw [kind]
  rfl

theorem separator_frontMatter (kind : tree.kind first = .frontMatter block) : separator tree first next ≠ .nothing := by
  have noText := isTextLikeNode_frontMatter kind
  have noBorrower : tree.borrowsNextOpeningStart first = false := by
    unfold Tree.borrowsNextOpeningStart
    rw [noText, Bool.and_false, Bool.false_and]
  have noElement : (tree.kind first).isElement = false := by
    rw [kind]
    rfl
  unfold separator
  dsimp only
  rw [noText, noBorrower, noElement, Bool.false_and, Bool.false_and, Bool.false_and, Bool.false_and,
    if_neg Bool.false_ne_true, if_neg Bool.false_ne_true, if_neg Bool.false_ne_true]
  split
  · decide
  · split
    · decide
    · decide

theorem yields_emptyLine : Yields emptyLine fun docs => BeginsLine docs [] :=
  yields_bind (yields_of_makes makes_hardline) fun _ begins => yields_bind (yields_of_makes makes_hardline) fun _ _ =>
    yields_pure (beginsLine_append begins _)

theorem yields_flowing_after (kind : tree.kind first = .frontMatter block) (prev : tree.prev? next = some first)
    (noText : tree.isTextLikeNode next = false) (group : GroupId) (prevGroup : Option GroupId) :
    Yields (flowing tree next doc group prevGroup) fun docs => BeginsLine docs [] := by
  have before : separatorBefore? tree next = some (first, separator tree first next) := by
    unfold separatorBefore?
    rw [prev]
    simp [separator_frontMatter kind]
  have preceding : Yields (precedingParts tree next prevGroup) fun parts => BeginsLine parts.1 [] := by
    unfold precedingParts
    rw [before]
    dsimp only
    rw [hasEmptyLineAfter_frontMatter kind, if_pos rfl]
    exact yields_bind yields_emptyLine fun _ begins => yields_pure begins
  unfold flowing
  rw [noText, if_neg Bool.false_ne_true]
  refine yields_bind preceding fun parts begins => ?_
  exact yields_bind yields_true fun _ _ => yields_bind yields_true fun _ _ => yields_bind yields_true fun _ _ =>
    yields_bind yields_true fun _ _ => yields_bind yields_true fun _ _ => yields_pure (beginsLine_append begins _)

/-- An empty line follows front matter, unless the next node brings it along. -/
def EndsBefore (tree : Tree) (first : NodeId) (after : List Doc) : Prop :=
  BeginsLine after [] ∨ after = [] ∧ ∀ next, tree.next? first = some next → tree.isTextLikeNode next = false

theorem yields_followingParts_frontMatter (kind : tree.kind first = .frontMatter block) :
    Yields (followingParts tree first) fun parts => parts.1 = [] ∧ EndsBefore tree first parts.2 := by
  unfold followingParts separatorAfter?
  cases after : tree.next? first with
  | none =>
    refine yields_pure ⟨rfl, .inr ⟨rfl, fun next same => ?_⟩⟩
    rw [after] at same
    cases same
  | some next =>
    have separated : Option.filter (·.2 ≠ .nothing) (some (next, separator tree first next)) =
        some (next, separator tree first next) := by simp [separator_frontMatter kind]
    rw [Option.map_some, separated]
    dsimp only
    rw [hasEmptyLineAfter_frontMatter kind, if_pos rfl]
    split
    · exact yields_bind yields_emptyLine fun _ begins => yields_pure ⟨rfl, .inl begins⟩
    · next noText =>
      refine yields_pure ⟨rfl, .inr ⟨rfl, fun other same => ?_⟩⟩
      rw [after] at same
      cases same
      exact Bool.eq_false_iff.mpr noText

theorem yields_flowAll_frontMatter {rest : List (NodeId × Doc)} (kind : tree.kind first = .frontMatter block)
    (noPrev : tree.prev? first = none) (next : tree.next? first = rest.head?.map (·.1))
    (prev : ∀ next, tree.next? first = some next → tree.prev? next = some first) (starts : StartsWith [doc] cs) :
    Yields (flowAll tree none ((first, doc) :: rest)) fun docs => StartsWith docs cs := by
  unfold flowAll
  refine yields_bind yields_true fun group _ => ?_
  have following : Yields (followingParts tree first) fun parts =>
      StartsWith (doc :: parts.1) cs ∧ EndsBefore tree first parts.2 :=
    (yields_followingParts_frontMatter kind).mono fun parts ⟨inside, ends⟩ => ⟨inside ▸ starts, ends⟩
  refine yields_bind (yields_flowing_first (carries_startsWith cs) noPrev (isTextLikeNode_frontMatter kind) following group)
    fun parts parted => ?_
  obtain ⟨outer, after, split, starts, ends⟩ := parted
  subst split
  obtain begins | ⟨rfl, noText⟩ := ends
  · refine yields_bind yields_true fun docs _ => yields_pure (.inr ?_)
    exact beginsLine_append (startsWith_append starts begins) docs
  · cases rest with
    | nil =>
      refine yields_bind (yields_pure rfl) fun docs none => yields_pure ?_
      subst none
      exact starts
    | cons second rest =>
      have begins : Yields (flowAll tree (some group) (second :: rest)) fun docs => BeginsLine docs [] := by
        obtain ⟨id, content⟩ := second
        unfold flowAll
        refine yields_bind yields_true fun next_group _ => ?_
        have noWords := noText id next
        refine yields_bind (yields_flowing_after kind (prev id next) noWords next_group _) fun parts begins => ?_
        exact yields_bind yields_true fun docs _ => yields_pure (beginsLine_append begins docs)
      exact yields_bind begins fun docs begins => yields_pure (.inr (startsWith_append starts begins))

namespace Page

variable {page : Page}

/-- Front matter with something in it is printed as it is written. -/
theorem yields_embeddedFrontMatter? (declines : page.Declines) (said : block.value.toList.all isWhiteSpace = false) :
    Printing.Yields (page.embeddedFrontMatter? block) fun answer => answer = none := by
  have some_value : Text.trim isWhiteSpace block.value ≠ "" := by
    intro empty
    have gone : Text.dropEnds isWhiteSpace block.value.toList = [] := by
      rw [← String.toList_ofList (l := Text.dropEnds _ _)]
      exact congrArg String.toList empty
    have parts := Text.dropEnd_append_takeEnd isWhiteSpace (block.value.toList.dropWhile isWhiteSpace)
    have blank := Text.all_takeEnd isWhiteSpace (block.value.toList.dropWhile isWhiteSpace)
    rw [show Text.dropEnd isWhiteSpace _ = [] from gone, List.nil_append] at parts
    rw [parts, Text.all_dropWhile said] at blank
    cases blank
  unfold embeddedFrontMatter?
  split
  · exact Printing.yields_pure rfl
  · dsimp only
    rw [if_neg some_value]
    refine Printing.yields_bind (yields_embed declines _) fun answer none => ?_
    subst none
    exact Printing.yields_pure rfl

theorem yields_printNode_frontMatter (declines : page.Declines) (said : block.value.toList.all isWhiteSpace = false)
    (kind : page.tree.kind first = .frontMatter block) (inner : List Outline) :
    Printing.Yields (page.printNode (.node first inner)) fun doc => StartsWith [doc] block.raw.toList := by
  have answer : Printing.Yields (page.embedded? first) fun answer => answer = none := by
    unfold embedded?
    rw [kind]
    exact yields_embeddedFrontMatter? declines said
  have printed : page.tree.preservesContent first = false := by
    refine preservesContent_eq_false ?_
    rintro (⟨element, other⟩ | ⟨condition, complete, other⟩)
    · rw [kind] at other
      cases other
    · rw [kind] at other
      cases other
  rw [printNode]
  refine Printing.yields_bind answer fun answer none => ?_
  subst none
  dsimp only
  rw [printed, if_neg Bool.false_ne_true]
  refine Printing.yields_bind Printing.yields_true fun children _ => ?_
  unfold assemble
  rw [kind]
  exact Printing.yields_lift ((yields_of_makes (lays_literalText block.raw)).mono fun _ => startsWith_of_verbatim?)

theorem yields_print_frontMatter (shaped : page.tree.Shaped) (declines : page.Declines)
    (children : page.tree.children Tree.rootId = first :: later) (kind : page.tree.kind first = .frontMatter block)
    (said : block.value.toList.all isWhiteSpace = false) :
    Printing.Yields page.print fun doc => BeginsLine [doc] block.raw.toList := by
  obtain ⟨noPrev, next, prev⟩ := shaped.linked_first children
  have node (inner : List Outline) : Printing.Yields (page.printNode (.node first inner)) fun doc =>
      StartsWith [doc] block.raw.toList := yields_printNode_frontMatter declines said kind inner
  have carries := carries_startsWith block.raw.toList
  refine (yields_print_first shaped declines children node carries fun doc rest starts ids => ?_).mono ?_
  · have linked : page.tree.next? first = rest.head?.map (·.1) := by rw [next, ← ids, List.head?_map]
    exact yields_flowAll_frontMatter kind noPrev linked prev starts
  · rintro _ ⟨mark, whole, line, rfl, starts, ends⟩
    exact beginsLine_concat mark (startsWith_append starts ends)

end Page

/-! ### Declarations -/

namespace Page

variable {page : Page} {value : String}

theorem isTextLikeNode_doctype (kind : tree.kind first = .doctype value) : tree.isTextLikeNode first = false := by
  unfold Tree.isTextLikeNode
  rw [kind]
  rfl

/-- The first node prints no marker before its own, and none of its own is printed before it. -/
theorem openingStart_first (noPrev : page.tree.prev? first = none) (loose : page.tree.isGluedBefore first = false) :
    Lays (page.openingStart first) (page.openingStartText first).toList := by
  have kept : page.tree.lendsOpeningStart first = false := by
    unfold Tree.lendsOpeningStart
    rw [noPrev]
    rfl
  have none : page.tree.borrowedBefore? first = none := by
    unfold Tree.borrowedBefore? Tree.borrowsParentOpeningEnd
    rw [noPrev, loose, Bool.and_false]
    rfl
  unfold openingStart before own borrowed
  rw [kept, none]
  have parts := lays_seq (.cons (lays_text "") (.cons (lays_text (page.openingStartText first)) .nil))
  simpa [markerText] using parts

/-- A declaration below the root prints the end of its tag itself, and no marker after it. -/
theorem closingEnd_declaration (shaped : page.tree.Shaped) (children : page.tree.children Tree.rootId = first :: later)
    (kind : page.tree.kind first = .doctype value) : Lays (page.closingEnd first) ['>'] := by
  have split : page.tree.children Tree.rootId = [] ++ first :: later := children
  obtain ⟨above, -, -⟩ := shaped.numbered.linked split
  obtain ⟨noPrev, next, prev⟩ := shaped.linked_first children
  have last (none : page.tree.next? first = none) : page.tree.lastChild? Tree.rootId = some first := by
    unfold Tree.lastChild?
    rw [next, List.head?_eq_none_iff] at none
    rw [children, none]
    rfl
  have kept : page.tree.lendsClosingEnd first = false := by
    unfold Tree.lendsClosingEnd
    cases after : page.tree.next? first with
    | none =>
      dsimp only
      unfold Tree.borrowsLastChildClosingEnd
      rw [above, Option.any_some, last after, Option.any_some, shaped.looseEnd (last after)]
      rfl
    | some other =>
      dsimp only
      have isDoctype : page.tree.isDoctype first = true := by
        unfold Tree.isDoctype
        rw [kind]
      unfold Tree.borrowsPrevClosingEnd
      rw [prev other after, Option.any_some, isDoctype]
      rfl
  have none : page.tree.borrowedAfter? first = none := by
    unfold Tree.borrowedAfter?
    cases after : page.tree.next? first with
    | none =>
      dsimp only
      unfold Tree.borrowsParentClosingStart
      rw [shaped.looseEnd (last after), Bool.and_false, Bool.false_and]
      rfl
    | some other =>
      dsimp only
      unfold Tree.borrowsNextOpeningStart
      rw [isTextLikeNode_doctype kind, Bool.and_false, Bool.false_and]
      rfl
  have written : page.omitsClosingTag first = false := by
    have kept : page.tree.isIgnored first = false := by
      unfold Tree.isIgnored
      rw [noPrev]
      rfl
    unfold omitsClosingTag
    dsimp only
    rw [above, Option.any_some, (plain_root shaped).printed, kept, Bool.or_false, Bool.and_false]
  have text : page.closingEndText first = ">" := by
    unfold closingEndText
    rw [written, kind]
    rfl
  unfold closingEnd own after borrowed
  rw [kept, none]
  have parts := lays_seq (.cons (lays_text (page.closingEndText first)) (.cons (lays_text "") .nil))
  rw [text] at parts
  simpa [markerText, text] using parts

theorem yields_printNode_declaration (shaped : page.tree.Shaped) (declines : page.Declines)
    (children : page.tree.children Tree.rootId = first :: later) (kind : page.tree.kind first = .doctype value)
    (inner : List Outline) :
    Printing.Yields (page.printNode (.node first inner)) fun doc => doc.verbatim? =
      some ((page.openingStartText first).toList ++ ' ' :: normalizeDoctype value.toList ++ ['>']) := by
  have untagged : ¬page.IsTagged first := by
    rintro (⟨element, other⟩ | ⟨condition, complete, other⟩) <;> rw [kind] at other <;> cases other
  have isFirst : page.tree.firstChild? Tree.rootId = some first := by
    unfold Tree.firstChild?
    rw [children]
    rfl
  have loose := shaped.looseStart isFirst
  have front := openingStart_first (shaped.linked_first children).1 loose
  have value_text := lays_text (String.ofList (normalizeDoctype value.toList))
  rw [String.toList_ofList] at value_text
  rw [printNode]
  refine Printing.yields_bind (yields_embedded? declines) fun answer answered => ?_
  cases answer with
  | some doc =>
    obtain ⟨block, same, _⟩ := answered
    rw [kind] at same
    cases same
  | none =>
    dsimp only
    rw [preservesContent_eq_false untagged, if_neg Bool.false_ne_true]
    refine Printing.yields_bind Printing.yields_true fun docs _ => ?_
    unfold assemble
    rw [kind]
    refine Printing.yields_lift (yields_of_makes (Layout.Build.makes_bind
      (lays_seq (.cons front (.cons (lays_text " ") (.cons value_text .nil)))) fun body inside => ?_))
    have whole := lays_seq (.cons (lays_group inside) (.cons (closingEnd_declaration shaped children kind) .nil))
    simpa using whole

/-- A page that begins with a declaration is printed so that nothing comes before the end of the declaration. -/
theorem yields_print_declaration (shaped : page.tree.Shaped) (declines : page.Declines)
    (children : page.tree.children Tree.rootId = first :: later) (kind : page.tree.kind first = .doctype value) :
    Printing.Yields page.print fun doc => WritesFirst [doc]
      ((page.openingStartText first).toList ++ ' ' :: normalizeDoctype value.toList ++ ['>']) := by
  let written := (page.openingStartText first).toList ++ ' ' :: normalizeDoctype value.toList ++ ['>']
  have node := yields_printNode_declaration shaped declines children kind
  have carries := carries_writesFirst written
  refine (yields_print_first shaped declines children node carries fun doc rest same _ => ?_).mono ?_
  · unfold flowAll
    refine yields_bind yields_true fun group _ => ?_
    let ends (_ : List Doc) : Prop := True
    have following : Yields (followingParts page.tree first) fun parts =>
        WritesFirst (doc :: parts.1) written ∧ ends parts.2 :=
      yields_true.mono fun parts _ => ⟨(writesFirst_of_verbatim? same).append parts.1, trivial⟩
    refine yields_bind (yields_flowing_first carries (shaped.linked_first children).1 (isTextLikeNode_doctype kind)
      following group) fun parts parted => ?_
    obtain ⟨outer, after, split, writes, -⟩ := parted
    subst split
    refine yields_bind yields_true fun docs _ => yields_pure ?_
    rw [List.append_assoc]
    exact writes.append (after ++ docs)
  · rintro _ ⟨mark, whole, line, rfl, writes, -⟩
    exact (writes.append [line]).concat mark

end Page

end MarkupFormat.Print
