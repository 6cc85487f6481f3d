import MarkupFormat.Print.Document
import MarkupFormat.Proofs.Layout.Ink
import MarkupFormat.Proofs.Markup.Numbering

/-!
# Spelling

The spelling of a page is what is seen of it: the markers and the contents of its nodes in the order of the
source. Most markers are in it once. Those that a directive should print for a neighbour are not in it at all,
those that a node borrows whose content is copied are in it twice, and what a neighbour takes for a part of the
tags of a directive is in it although a directive has none. Between two nodes in a row, `tail_append_head` turns
what the two print into what belongs there.
-/

namespace MarkupFormat.Markup.Tree

variable (tree : Tree)

/-- The neighbour that prints a marker in place of its owner, if one does. -/
def borrower? (owned : OwnedMarker) : Option NodeId :=
  let id := owned.owner
  match owned.marker with
  | .openingStart => if tree.lendsOpeningStart id then tree.prev? id else none
  | .openingEnd => if tree.lendsOpeningEnd id then tree.firstChild? id else none
  | .closingStart => if tree.lendsClosingStart id then tree.lastChild? id else none
  | .closingEnd => if tree.lendsClosingEnd id then (tree.next? id).or (tree.parent? id) else none

/-- Whether the tags of a node have a part. A node that closes itself ends its only tag as a closing tag. -/
def hasMarker (owned : OwnedMarker) : Bool :=
  match tree.kind owned.owner, owned.marker with
  | .element _, .openingEnd | .element _, .closingStart | .conditional .., .openingEnd
  | .conditional .., .closingStart => !(tree.node owned.owner).flags.selfClosing
  | .element _, _ | .conditional .., _ => true
  | .interpolation, .openingStart | .interpolation, .closingEnd | .doctype _, .openingStart
  | .doctype _, .closingEnd | .conditionalStart _, .openingStart | .conditionalStart _, .closingEnd
  | .conditionalEnd, .openingStart | .conditionalEnd, .closingEnd => true
  | _, _ => false

/-- Whether a node is the expression of an interpolation. -/
def isExpression (id : NodeId) : Bool :=
  (tree.parent? id).any fun parent => (tree.kind parent).isInterpolation

/-- Whether a node prints nothing but itself. -/
def isMute (id : NodeId) : Bool :=
  match tree.kind id with
  | .directive _ => true
  | .text _ => tree.isExpression id
  | _ => false

/-- How often a node prints a marker that it borrows. -/
def timesBorrowed (id : NodeId) : Nat :=
  if tree.isIgnored id then 1
  else if tree.isMute id then 0
  else if tree.preservesContent id then 2
  else 1

/-- How often a marker is printed. The markers of a node that is left as it is are part of its source. -/
def timesPrinted (owned : OwnedMarker) : Nat :=
  match tree.borrower? owned with
  | some borrower => tree.timesBorrowed borrower
  | none => if tree.hasMarker owned && !tree.isIgnored owned.owner then 1 else 0

/-- How often a marker should be printed: once, if the tags of the node have it. -/
def timesDue (owned : OwnedMarker) : Nat :=
  if tree.hasMarker owned then 1 else 0

/-- Whether a marker is printed apart from the content of its node. What is left as it is has its markers in its
source, and so has copied content those markers of its node that are lent to what is inside. -/
def standsApart (owned : OwnedMarker) : Bool :=
  !tree.isIgnored owned.owner &&
    (!tree.preservesContent owned.owner || owned.marker matches .openingStart | .closingEnd)

/-! ### Who prints a marker -/

variable {tree} {id : NodeId}

/-- What is not borrowed is printed as it should be, and what is borrowed if its borrower does so. -/
theorem timesPrinted_eq_timesDue_iff {owned : OwnedMarker} (apart : tree.standsApart owned = true) :
    tree.timesPrinted owned = tree.timesDue owned ↔
      ∀ borrower ∈ tree.borrower? owned, tree.timesBorrowed borrower = tree.timesDue owned := by
  have kept : tree.isIgnored owned.owner = false := by
    unfold standsApart at apart
    rw [Bool.and_eq_true, Bool.not_eq_true'] at apart
    exact apart.1
  unfold timesPrinted
  cases tree.borrower? owned with
  | none =>
    have own : (if tree.hasMarker owned && !tree.isIgnored owned.owner then 1 else 0) = tree.timesDue owned := by
      rw [kept, Bool.not_false, Bool.and_true]
      rfl
    exact iff_of_true own nofun
  | some borrower => exact ⟨fun same other member => Option.some.inj member ▸ same, fun all => all borrower rfl⟩

/-- A text does not lend the end of a closing tag, and only texts borrow the start of an opening tag. -/
theorem borrowsNextOpeningStart_eq_false {next : NodeId} (before : tree.prev? next = some id)
    (borrows : tree.borrowsPrevClosingEnd next = true) : tree.borrowsNextOpeningStart id = false := by
  unfold borrowsPrevClosingEnd at borrows
  rw [before] at borrows
  simp only [Option.any_some, Bool.and_eq_true, Bool.not_eq_true'] at borrows
  unfold borrowsNextOpeningStart
  rw [borrows.1.2, Bool.and_false, Bool.false_and]

/-- What ends in text lends nothing to its parent. -/
theorem borrowsLastChildClosingEnd_eq_false {parent : NodeId} (lastChild : tree.lastChild? parent = some id)
    (borrows : tree.borrowsParentClosingStart id = true) : tree.borrowsLastChildClosingEnd parent = false := by
  unfold borrowsParentClosingStart at borrows
  simp only [Bool.and_eq_true] at borrows
  unfold borrowsLastChildClosingEnd
  rw [lastChild, Option.any_some, borrows.2, Bool.not_true, Bool.and_false, Bool.false_and]

theorem isSome_if_any {borrows : NodeId → Bool} {neighbour : Option NodeId} :
    (if neighbour.any borrows then neighbour else none).isSome = neighbour.any borrows := by
  cases neighbour with
  | none => rfl
  | some other => by_cases does : borrows other = true <;> simp [does]

theorem isSome_borrower?_openingStart :
    (tree.borrower? ⟨id, .openingStart⟩).isSome = tree.lendsOpeningStart id :=
  isSome_if_any

theorem isSome_borrower?_openingEnd :
    (tree.borrower? ⟨id, .openingEnd⟩).isSome = tree.lendsOpeningEnd id :=
  isSome_if_any

theorem isSome_borrower?_closingStart :
    (tree.borrower? ⟨id, .closingStart⟩).isSome = tree.lendsClosingStart id :=
  isSome_if_any

theorem isSome_borrower?_closingEnd :
    (tree.borrower? ⟨id, .closingEnd⟩).isSome = tree.lendsClosingEnd id := by
  show (if tree.lendsClosingEnd id = true then (tree.next? id).or (tree.parent? id) else none).isSome = _
  unfold lendsClosingEnd
  cases tree.next? id with
  | some next => by_cases borrows : tree.borrowsPrevClosingEnd next = true <;> simp [borrows]
  | none => exact isSome_if_any

/-- A node whose opening tag is begun by the node before it borrows nothing there. -/
theorem borrowedBefore?_eq_none (lends : tree.lendsOpeningStart id = true) : tree.borrowedBefore? id = none := by
  unfold lendsOpeningStart at lends
  unfold borrowedBefore?
  cases before : tree.prev? id with
  | none =>
    rw [before] at lends
    cases lends
  | some prev =>
    rw [before] at lends
    have text : tree.borrowsNextOpeningStart prev = true := lends
    dsimp only
    split
    · next borrows =>
      rw [borrowsNextOpeningStart_eq_false before borrows] at text
      cases text
    · rfl

/-- A node whose closing tag is ended by another one borrows nothing there. -/
theorem borrowedAfter?_eq_none (numbered : tree.Numbered) {parent : NodeId} {before after : List NodeId}
    (split : tree.children parent = before ++ id :: after) (lends : tree.lendsClosingEnd id = true) :
    tree.borrowedAfter? id = none := by
  obtain ⟨above, _, next⟩ := numbered.linked split
  unfold lendsClosingEnd at lends
  unfold borrowedAfter?
  cases after with
  | nil =>
    have lastChild : tree.lastChild? parent = some id := by
      unfold lastChild?
      rw [split, List.getLast?_concat]
    rw [next, List.head?_nil, above] at lends ⊢
    have ends : tree.borrowsLastChildClosingEnd parent = true := lends
    dsimp only
    split
    · next borrows =>
      rw [borrowsLastChildClosingEnd_eq_false lastChild borrows] at ends
      cases ends
    · rfl
  | cons other rest =>
    have splitNext : tree.children parent = (before ++ [id]) ++ other :: rest := by
      rw [split, List.append_assoc]
      rfl
    obtain ⟨_, prev, _⟩ := numbered.linked splitNext
    rw [List.getLast?_concat] at prev
    rw [next, List.head?_cons] at lends ⊢
    dsimp only
    rw [if_neg]
    rw [borrowsNextOpeningStart_eq_false prev lends]
    exact Bool.false_ne_true

theorem borrowedBefore?_of_loose (loose : tree.isGluedBefore id = false) : tree.borrowedBefore? id = none := by
  unfold borrowedBefore? borrowsParentOpeningEnd borrowsPrevClosingEnd
  rw [loose]
  cases tree.prev? id <;> simp

theorem borrowedAfter?_of_loose (loose : tree.isGluedAfter id = false) : tree.borrowedAfter? id = none := by
  unfold borrowedAfter? borrowsParentClosingStart borrowsNextOpeningStart
  rw [loose]
  cases tree.next? id <;> simp

/-- Text has no tags, so nobody prints a part of them. -/
theorem borrower?_of_isTextLikeNode (numbered : tree.Numbered) {parent : NodeId} {before after : List NodeId}
    (split : tree.children parent = before ++ id :: after) (leaf : tree.children id = [])
    (text : tree.isTextLikeNode id = true) :
    tree.borrower? ⟨id, .openingStart⟩ = none ∧ tree.borrower? ⟨id, .closingEnd⟩ = none := by
  obtain ⟨above, prev, next⟩ := numbered.linked split
  have keepsStart : tree.lendsOpeningStart id = false := by
    unfold lendsOpeningStart
    rw [prev]
    rcases List.eq_nil_or_concat before with rfl | ⟨earlier, other, rfl⟩
    · rfl
    · rw [List.concat_eq_append] at split
      have splitOther : tree.children parent = earlier ++ other :: id :: after := by
        rw [split, List.append_assoc]
        rfl
      obtain ⟨_, _, follows⟩ := numbered.linked splitOther
      rw [List.concat_eq_append, List.getLast?_concat, Option.any_some]
      unfold borrowsNextOpeningStart
      rw [follows, List.head?_cons, Option.any_some, text]
      rfl
  have keepsEnd : tree.lendsClosingEnd id = false := by
    unfold lendsClosingEnd
    rw [next]
    cases after with
    | nil =>
      have last : tree.lastChild? parent = some id := by
        unfold lastChild?
        rw [split, List.getLast?_concat]
      have deepest (depth : Nat) : tree.lastDescendantTo depth id = id := by
        cases depth with
        | zero => rfl
        | succ depth =>
          unfold lastDescendantTo lastChild?
          rw [leaf, List.getLast?_nil]
      dsimp only [List.head?_nil]
      rw [above, Option.any_some]
      unfold borrowsLastChildClosingEnd lastDescendant
      rw [last, Option.any_some, deepest, text, Bool.not_true, Bool.and_false, Bool.false_and]
    | cons other rest =>
      have splitOther : tree.children parent = (before ++ [id]) ++ other :: rest := by
        rw [split, List.append_assoc]
        rfl
      obtain ⟨_, follows, _⟩ := numbered.linked splitOther
      dsimp only [List.head?_cons]
      unfold borrowsPrevClosingEnd
      rw [follows, List.getLast?_concat, Option.any_some, text, Bool.not_true, Bool.and_false, Bool.false_and]
  constructor <;> refine Option.isNone_iff_eq_none.mp (Option.isSome_eq_false_iff.mp ?_)
  · exact isSome_borrower?_openingStart.trans keepsStart
  · exact isSome_borrower?_closingEnd.trans keepsEnd

end MarkupFormat.Markup.Tree

namespace MarkupFormat.Print.Page

open Markup (Attribute FrontMatter NodeId Outline OwnedMarker)
open Text (visible)

variable (page : Page) (id : NodeId)

/-! ### Contents -/

/-- A value of an attribute between its quotes. Classes stand in double quotes, with single spaces. -/
def valueText (name written : String) : List Char :=
  let value := Text.unescapeQuotes written.toList
  if name = "class" ∧ written ≠ "" ∧ ¬Text.occursIn ['{', '{'] value ∧ Text.collapse value ≠ [] then
    '"' :: (Text.escapeQuote '"' (Text.collapse value) ++ ['"'])
  else
    let quote := Text.preferredQuote value
    quote :: (Text.escapeQuote quote value ++ [quote])

def attributeText (attr : Attribute) : List Char :=
  if (page.keptAttributes id).contains attr.rawName then (page.sourceText attr.span).toList
  else
    match attr.value with
    | none => attr.rawName.toList
    | some written => attr.rawName.toList ++ '=' :: valueText attr.rawName written

def attributesText : List Char :=
  (((page.tree.kind id).element?.map (·.attributes)).getD []).flatMap (page.attributeText id)

/-- The characters of a text that are printed. -/
def textContent (value : List Char) : List Char :=
  if page.tree.isExpression id then (splitFinalLine value).1
  else
    let flags := ((page.tree.parent? id).map fun parent => (page.tree.node parent).flags).getD {}
    if flags.whitespaceSensitive then
      if flags.indentationSensitive then value else Text.dedent (Text.trimKeepingIndentation value)
    else (Text.words value).flatten

/-- The characters of front matter that are printed. -/
def frontMatterText (block : FrontMatter) : String :=
  if block.language = "yaml" ∧ Text.trim Text.isWhiteSpace block.value = "" then
    block.startDelimiter ++ block.explicitLanguage ++ block.endDelimiter
  else block.raw

/-- The source of a node that is left as it is, without the markers that it lends. -/
def ignoredSource : String :=
  let tree := page.tree
  let start := (tree.node id).span.start
  let stop := page.sourceEnd tree.size id
  page.copy
    (if tree.lendsOpeningStart id then start + page.markerBytes id .openingStart else start)
    (if (tree.next? id).any tree.borrowsPrevClosingEnd then stop - page.markerBytes id .closingEnd else stop)

/-! ### Markers -/

/-- What is seen of a marker. -/
def markerInk (owned : OwnedMarker) : List Char :=
  visible (page.markerText owned).toList

def spellMarker (owned : OwnedMarker) : List Char :=
  (List.replicate (page.tree.timesPrinted owned) (page.markerInk owned)).flatten

/-- What is seen of a marker that may be borrowed. -/
def borrowedInk (owned : Option OwnedMarker) : List Char :=
  (owned.map page.markerInk).getD []

def spellBorrowed (owned : Option OwnedMarker) : List Char :=
  (List.replicate (page.tree.timesBorrowed id) (page.borrowedInk owned)).flatten

/-- A marker that its owner prints. -/
def spellOwn (owned : OwnedMarker) : List Char :=
  if (page.tree.borrower? owned).isNone && page.tree.hasMarker owned && !page.tree.isIgnored owned.owner then
    page.markerInk owned
  else []

/-! ### Nodes -/

/-- What is between the first and the last marker of a node, given what its children are. The content of a node
that is copied comes with the markers that its children would have printed. -/
def spellInner (children : List Char) : List Char :=
  if page.tree.isIgnored id then visible (page.ignoredSource id).toList
  else if page.tree.preservesContent id then
    visible (page.attributesText id) ++ page.spellOwn ⟨id, .openingEnd⟩ ++ visible (page.innerSource id).toList ++
      (if page.tree.lendsClosingStart id || page.isSelfClosing id then []
        else page.borrowedInk (page.tree.borrowedInside? id)) ++ page.spellOwn ⟨id, .closingStart⟩
  else
    match page.tree.kind id with
    | .root | .interpolation => children
    | .element _ | .conditional .. =>
      visible (page.attributesText id) ++ page.spellMarker ⟨id, .openingEnd⟩ ++ children ++
        page.spellMarker ⟨id, .closingStart⟩
    | .text value => visible (page.textContent id value.toList)
    | .doctype value => visible (normalizeDoctype value.toList)
    | .comment _ => visible (page.sourceText (page.tree.node id).span).toList
    | .directive value => visible ("<?" ++ value ++ "?>").toList
    | .frontMatter block => visible (frontMatterText block).toList
    | .cdata value => visible ("<![CDATA[" ++ value ++ "]]>").toList
    | .conditionalStart _ | .conditionalEnd => []

mutual

/-- What is seen of a node and everything below it. -/
def spell : Outline → List Char
  | .node id inner =>
    page.spellMarker ⟨id, .openingStart⟩ ++ page.spellInner id (spellAll inner) ++
      page.spellMarker ⟨id, .closingEnd⟩

def spellAll : List Outline → List Char
  | [] => []
  | outline :: rest => spell outline ++ spellAll rest

end

/-! ### What a node prints around its content -/

/-- What a node prints before its content. -/
def head : List Char :=
  page.spellBorrowed id (page.tree.borrowedBefore? id) ++ page.spellOwn ⟨id, .openingStart⟩

/-- What a node prints after its content. -/
def tail : List Char :=
  page.spellOwn ⟨id, .closingEnd⟩ ++ page.spellBorrowed id (page.tree.borrowedAfter? id)

variable {page id}

theorem spellMarker_of_none {owned : OwnedMarker} (kept : page.tree.borrower? owned = none) :
    page.spellMarker owned = page.spellOwn owned := by
  unfold spellMarker spellOwn Markup.Tree.timesPrinted
  simp only [kept, Option.isNone_none, Bool.true_and]
  split
  · exact List.append_nil _
  · rfl

theorem spellMarker_of_some {owned : OwnedMarker} {borrower : NodeId}
    (lent : page.tree.borrower? owned = some borrower) :
    page.spellMarker owned = page.spellBorrowed borrower (some owned) ∧ page.spellOwn owned = [] := by
  unfold spellMarker spellOwn Markup.Tree.timesPrinted
  rw [lent]
  exact ⟨rfl, rfl⟩

@[simp]
theorem spellBorrowed_none : page.spellBorrowed id none = [] :=
  List.flatten_replicate_nil

/-- Between two nodes in a row there are the last marker of the one and the first marker of the other. -/
theorem tail_append_head {next : NodeId} (after : page.tree.next? id = some next)
    (before : page.tree.prev? next = some id) :
    page.tail id ++ page.head next =
      page.spellMarker ⟨id, .closingEnd⟩ ++ page.spellMarker ⟨next, .openingStart⟩ := by
  have borrowedBefore : page.tree.borrowedBefore? next =
      if page.tree.borrowsPrevClosingEnd next then some ⟨id, .closingEnd⟩ else none := by
    unfold Markup.Tree.borrowedBefore?
    rw [before]
  have borrowedAfter : page.tree.borrowedAfter? id =
      if page.tree.borrowsNextOpeningStart id then some ⟨next, .openingStart⟩ else none := by
    unfold Markup.Tree.borrowedAfter?
    rw [after]
  have ending : page.tree.borrower? ⟨id, .closingEnd⟩ =
      if page.tree.borrowsPrevClosingEnd next then some next else none := by
    unfold Markup.Tree.borrower? Markup.Tree.lendsClosingEnd
    simp only [after, Option.some_or]
  have starting : page.tree.borrower? ⟨next, .openingStart⟩ =
      if page.tree.borrowsNextOpeningStart id then some id else none := by
    unfold Markup.Tree.borrower? Markup.Tree.lendsOpeningStart
    simp only [before, Option.any_some]
  unfold tail head
  rw [borrowedBefore, borrowedAfter]
  by_cases ends : page.tree.borrowsPrevClosingEnd next = true
  · have starts := Markup.Tree.borrowsNextOpeningStart_eq_false before ends
    rw [if_pos ends] at ending ⊢
    rw [starts, if_neg Bool.false_ne_true] at starting ⊢
    obtain ⟨spelled, notOwn⟩ := spellMarker_of_some ending
    rw [spelled, notOwn, spellMarker_of_none starting, spellBorrowed_none, List.append_nil, List.nil_append]
  · rw [if_neg ends] at ending ⊢
    rw [spellMarker_of_none ending, spellBorrowed_none, List.nil_append, List.append_assoc]
    by_cases starts : page.tree.borrowsNextOpeningStart id = true
    · rw [if_pos starts] at starting ⊢
      obtain ⟨spelled, notOwn⟩ := spellMarker_of_some starting
      rw [spelled, notOwn, List.append_nil]
    · rw [if_neg starts] at starting ⊢
      rw [spellMarker_of_none starting, spellBorrowed_none, List.nil_append]

/-- The first child prints the end of its parent's opening tag, unless the parent does. -/
theorem spellOwn_append_head {parent first : NodeId} (firstChild : page.tree.firstChild? parent = some first)
    (before : page.tree.prev? first = none) (above : page.tree.parent? first = some parent) :
    page.spellOwn ⟨parent, .openingEnd⟩ ++ page.head first =
      page.spellMarker ⟨parent, .openingEnd⟩ ++ page.spellMarker ⟨first, .openingStart⟩ := by
  have borrowedBefore : page.tree.borrowedBefore? first =
      if page.tree.borrowsParentOpeningEnd first then some ⟨parent, .openingEnd⟩ else none := by
    unfold Markup.Tree.borrowedBefore?
    rw [before, above]
    rfl
  have opening : page.tree.borrower? ⟨parent, .openingEnd⟩ =
      if page.tree.borrowsParentOpeningEnd first then some first else none := by
    unfold Markup.Tree.borrower? Markup.Tree.lendsOpeningEnd
    simp only [firstChild, Option.any_some]
  have starting : page.tree.borrower? ⟨first, .openingStart⟩ = none := by
    unfold Markup.Tree.borrower? Markup.Tree.lendsOpeningStart
    simp only [before, Option.any_none, Bool.false_eq_true, if_false]
  unfold head
  rw [borrowedBefore, spellMarker_of_none starting]
  by_cases borrows : page.tree.borrowsParentOpeningEnd first = true
  · rw [if_pos borrows] at opening ⊢
    obtain ⟨spelled, notOwn⟩ := spellMarker_of_some opening
    rw [spelled, notOwn, List.nil_append]
  · rw [if_neg borrows] at opening ⊢
    rw [spellMarker_of_none opening, spellBorrowed_none, List.nil_append]

variable (page id) in
/-- What a node prints between its last child and its closing tag. -/
def spellInside : List Char :=
  if page.tree.lendsClosingStart id then [] else page.borrowedInk (page.tree.borrowedInside? id)

/-- The last child prints the start of its parent's closing tag, or the parent the end of its last child's closing
tag, or neither. -/
theorem tail_append_spellOwn {parent last : NodeId} (lastChild : page.tree.lastChild? parent = some last)
    (after : page.tree.next? last = none) (above : page.tree.parent? last = some parent)
    (once : page.tree.timesBorrowed parent = 1) :
    page.tail last ++ (page.spellInside parent ++ page.spellOwn ⟨parent, .closingStart⟩) =
      page.spellMarker ⟨last, .closingEnd⟩ ++ page.spellMarker ⟨parent, .closingStart⟩ := by
  have borrowedAfter : page.tree.borrowedAfter? last =
      if page.tree.borrowsParentClosingStart last then some ⟨parent, .closingStart⟩ else none := by
    unfold Markup.Tree.borrowedAfter?
    rw [after, above]
    rfl
  have borrowedInside : page.tree.borrowedInside? parent =
      if page.tree.borrowsLastChildClosingEnd parent then some ⟨last, .closingEnd⟩ else none := by
    unfold Markup.Tree.borrowedInside?
    rw [lastChild]
    rfl
  have lends : page.tree.lendsClosingStart parent = page.tree.borrowsParentClosingStart last := by
    unfold Markup.Tree.lendsClosingStart
    rw [lastChild]
    rfl
  have closing : page.tree.borrower? ⟨parent, .closingStart⟩ =
      if page.tree.borrowsParentClosingStart last then some last else none := by
    unfold Markup.Tree.borrower?
    simp only [lends, lastChild]
  have ending : page.tree.borrower? ⟨last, .closingEnd⟩ =
      if page.tree.borrowsLastChildClosingEnd parent then some parent else none := by
    unfold Markup.Tree.borrower? Markup.Tree.lendsClosingEnd
    simp only [after, above, Option.any_some, Option.none_or]
  unfold tail spellInside
  rw [borrowedAfter, borrowedInside, lends]
  by_cases starts : page.tree.borrowsParentClosingStart last = true
  · have ends := Markup.Tree.borrowsLastChildClosingEnd_eq_false lastChild starts
    rw [if_pos starts] at closing ⊢
    rw [if_pos starts]
    rw [ends, if_neg Bool.false_ne_true] at ending
    obtain ⟨spelled, notOwn⟩ := spellMarker_of_some closing
    rw [spelled, notOwn, spellMarker_of_none ending, List.append_nil, List.append_nil]
  · rw [if_neg starts] at closing ⊢
    rw [if_neg starts, spellMarker_of_none closing, spellBorrowed_none, List.append_nil, ← List.append_assoc]
    by_cases ends : page.tree.borrowsLastChildClosingEnd parent = true
    · rw [if_pos ends] at ending ⊢
      obtain ⟨spelled, notOwn⟩ := spellMarker_of_some ending
      rw [spelled, notOwn, List.nil_append]
      unfold spellBorrowed
      rw [once]
      simp
    · rw [if_neg ends] at ending ⊢
      rw [spellMarker_of_none ending]
      exact congrArg (· ++ _) (List.append_nil _)

/-- What the children of a node print around their contents and what belongs there differ at both ends only. -/
theorem exists_core (numbered : page.tree.Numbered) (inner : NodeId → List Char) {parent first : NodeId}
    {before rest : List NodeId} (split : page.tree.children parent = before ++ first :: rest) :
    ∃ core,
      ((first :: rest).flatMap fun child => page.head child ++ inner child ++ page.tail child) =
        page.head first ++ core ++ page.tail ((first :: rest).getLast (List.cons_ne_nil _ _)) ∧
      ((first :: rest).flatMap fun child =>
          page.spellMarker ⟨child, .openingStart⟩ ++ inner child ++ page.spellMarker ⟨child, .closingEnd⟩) =
        page.spellMarker ⟨first, .openingStart⟩ ++ core ++
          page.spellMarker ⟨(first :: rest).getLast (List.cons_ne_nil _ _), .closingEnd⟩ := by
  induction rest generalizing before first with
  | nil => exact ⟨inner first, List.append_nil _, List.append_nil _⟩
  | cons next rest ih =>
    have splitNext : page.tree.children parent = (before ++ [first]) ++ next :: rest := by
      rw [split, List.append_assoc]
      rfl
    obtain ⟨core, printed, spelled⟩ := ih splitNext
    obtain ⟨_, _, after⟩ := numbered.linked split
    obtain ⟨_, behind, _⟩ := numbered.linked splitNext
    rw [List.getLast?_concat] at behind
    have seam := tail_append_head after behind
    refine ⟨inner first ++ (page.spellMarker ⟨first, .closingEnd⟩ ++ page.spellMarker ⟨next, .openingStart⟩) ++ core,
      ?_, ?_⟩
    · rw [List.flatMap_cons, printed, List.getLast_cons (List.cons_ne_nil _ _), ← seam]
      simp only [List.append_assoc]
    · rw [List.flatMap_cons, spelled, List.getLast_cons (List.cons_ne_nil _ _)]
      simp only [List.append_assoc]

end MarkupFormat.Print.Page
