import MarkupFormat.Annotate.Lines

/-!
# Borrowed markers

Where white space between two nodes would show, no line can be broken between them. The line is
broken inside a tag instead, and a node prints a marker that belongs to a neighbour:

```text
<span
  >text</span
>
```

A node borrows a marker if it prints a marker of a neighbour, and lends a marker if a neighbour
prints it. For each marker of each node both sides are decided by the same test.
-/

namespace MarkupFormat.Markup

/-- The parts of the tags of a node. -/
inductive Marker where
  | openingStart
  | openingEnd
  | closingStart
  | closingEnd
  deriving DecidableEq, Repr, Inhabited

/-- A marker of a node. -/
structure OwnedMarker where
  owner : NodeId
  marker : Marker
  deriving DecidableEq, Repr, Inhabited

namespace Tree

open Annotate (isPreLike isTextLike)

variable (tree : Tree) (id : NodeId)

/-- Whether a node is printed without tags. -/
def isTextLikeNode : Bool :=
  isTextLike (tree.kind id)

/-- Whether white space before a node would show, and there is none. -/
def isGluedBefore : Bool :=
  (tree.node id).flags.leadingSensitive && !(tree.node id).flags.leadingSpaces

/-- Whether white space after a node would show, and there is none. -/
def isGluedAfter : Bool :=
  (tree.node id).flags.trailingSensitive && !(tree.node id).flags.trailingSpaces

/-- Whether a node is a document type. -/
def isDoctype : Bool :=
  match tree.kind id with
  | .doctype _ => true
  | _ => false

/-! ### Borrowing -/

/-- Whether a node prints the end of the closing tag of the node before it. -/
def borrowsPrevClosingEnd : Bool :=
  (tree.prev? id).any (fun prev => !tree.isDoctype prev && !tree.isTextLikeNode prev) &&
    tree.isGluedBefore id

/-- Whether a node prints the end of the closing tag of its last child. -/
def borrowsLastChildClosingEnd : Bool :=
  (tree.lastChild? id).any (fun last =>
    tree.isGluedAfter last && !tree.isTextLikeNode (tree.lastDescendant last)) &&
      !isPreLike (tree.kind id)

/-- Whether a node prints the start of the closing tag of its parent. -/
def borrowsParentClosingStart : Bool :=
  (tree.next? id).isNone && tree.isGluedAfter id && tree.isTextLikeNode (tree.lastDescendant id)

/-- Whether a node prints the start of the opening tag of the node after it. -/
def borrowsNextOpeningStart : Bool :=
  (tree.next? id).any (fun next => !tree.isTextLikeNode next) && tree.isTextLikeNode id &&
    tree.isGluedAfter id

/-- Whether a node prints the end of the opening tag of its parent. -/
def borrowsParentOpeningEnd : Bool :=
  (tree.prev? id).isNone && tree.isGluedBefore id

/-- The marker that a node prints before its own. -/
def borrowedBefore? : Option OwnedMarker :=
  match tree.prev? id with
  | none =>
    if tree.borrowsParentOpeningEnd id then (tree.parent? id).map (⟨·, .openingEnd⟩) else none
  | some prev => if tree.borrowsPrevClosingEnd id then some ⟨prev, .closingEnd⟩ else none

/-- The marker that a node prints between its content and its closing tag. -/
def borrowedInside? : Option OwnedMarker :=
  if tree.borrowsLastChildClosingEnd id then (tree.lastChild? id).map (⟨·, .closingEnd⟩) else none

/-- The marker that a node prints after its own. -/
def borrowedAfter? : Option OwnedMarker :=
  match tree.next? id with
  | none =>
    if tree.borrowsParentClosingStart id then (tree.parent? id).map (⟨·, .closingStart⟩) else none
  | some next => if tree.borrowsNextOpeningStart id then some ⟨next, .openingStart⟩ else none

/-! ### Lending -/

/-- Whether the start of a node's opening tag is printed by the node before it. -/
def lendsOpeningStart : Bool :=
  (tree.prev? id).any tree.borrowsNextOpeningStart

/-- Whether the end of a node's opening tag is printed by its first child. -/
def lendsOpeningEnd : Bool :=
  (tree.firstChild? id).any tree.borrowsParentOpeningEnd

/-- Whether the start of a node's closing tag is printed by its last child. -/
def lendsClosingStart : Bool :=
  (tree.lastChild? id).any tree.borrowsParentClosingStart

/-- Whether the end of a node's closing tag is printed by the node after it or, if there is none,
by its parent. -/
def lendsClosingEnd : Bool :=
  match tree.next? id with
  | some next => tree.borrowsPrevClosingEnd next
  | none => (tree.parent? id).any tree.borrowsLastChildClosingEnd

end Tree

end MarkupFormat.Markup
