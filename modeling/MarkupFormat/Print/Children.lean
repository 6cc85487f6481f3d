import MarkupFormat.Print.Tag

/-!
# Children

What is between the children of a node. Each child is in a group with what follows it, and in
another with what precedes it, so that a line after a child that is broken can be dropped before
the next one.
-/

namespace MarkupFormat.Print

open Layout (Build Doc GroupId)
open Markup (NodeId Tree)

/-- What separates two children. -/
inductive Separator where
  | nothing
  | softline
  | line
  | hardline
  deriving DecidableEq, Repr, Inhabited

/-- The separator as a document. -/
def Separator.doc : Separator → Build Doc
  | nothing => Build.empty
  | softline => Build.softline
  | line => Build.line
  | hardline => Build.hardline

/-! ### Separators -/

/-- Whether a node has something to print between the start of its opening tag and the end of its
last tag. -/
def hasInnerTag (tree : Tree) (id : NodeId) : Bool :=
  let node := tree.node id
  tree.isIgnored id || !node.children.isEmpty || node.flags.selfClosing ||
    match node.kind with
    | .element element => !element.attributes.isEmpty
    | _ => false

/-- Whether a node borrows the end of a closing tag whose start is borrowed by text two levels
down:

```text
<a><b>text</b
  ></a
><c>
```
-/
def closesTwoLevels (tree : Tree) (prev next : NodeId) : Bool :=
  tree.borrowsPrevClosingEnd next &&
    (tree.lastChild? prev).any fun last =>
      tree.borrowsParentClosingStart last &&
        (tree.lastChild? last).any tree.borrowsParentClosingStart

/-- What separates two texts. -/
def textSeparator (tree : Tree) (prev next : NodeId) : Separator :=
  let flags := (tree.node prev).flags
  if flags.trailingSensitive && !flags.trailingSpaces then .nothing
  else if tree.prefersLineBefore next then .hardline
  else if flags.trailingSensitive then .line
  else .softline

/-- What separates two nodes that are next to each other. -/
def separator (tree : Tree) (prev next : NodeId) : Separator :=
  let flags := (tree.node next).flags
  if tree.isTextLikeNode prev && tree.isTextLikeNode next then textSeparator tree prev next
  else if tree.borrowsNextOpeningStart prev && hasInnerTag tree next then .nothing
  else if (tree.kind prev).isElement && (tree.node prev).flags.selfClosing &&
      tree.borrowsPrevClosingEnd next then .nothing
  else if !flags.leadingSensitive || tree.prefersLineBefore next ||
      closesTwoLevels tree prev next then .hardline
  else if flags.leadingSpaces then .line
  else .softline

/-- What separates a node from the one before it, if there is one and anything does. -/
def separatorBefore? (tree : Tree) (id : NodeId) : Option (NodeId × Separator) :=
  ((tree.prev? id).map fun prev => (prev, separator tree prev id)).filter (·.2 ≠ .nothing)

/-- What separates a node from the one after it, if there is one and anything does. -/
def separatorAfter? (tree : Tree) (id : NodeId) : Option (NodeId × Separator) :=
  ((tree.next? id).map fun next => (next, separator tree id next)).filter (·.2 ≠ .nothing)

/-! ### Children on lines of their own -/

/-- A child that has its own lines, with what precedes it. -/
def ownLine (tree : Tree) (id : NodeId) (doc : Doc) : Build (List Doc) := do
  match separatorBefore? tree id with
  | none => return [doc]
  | some (prev, separator) =>
    let between ← separator.doc
    if tree.hasEmptyLineAfter prev then return [between, ← Build.hardline, doc]
    else return [between, doc]

/-! ### Children that flow -/

/-- A line break and an empty line. -/
def emptyLine : Build (List Doc) := do
  return [← Build.hardline, ← Build.hardline]

/-- A text among the children, with what precedes it if that is a text. -/
def flowingText (tree : Tree) (id : NodeId) (doc : Doc) : Build (List Doc) := do
  match separatorBefore? tree id with
  | none => return [doc]
  | some (prev, separator) =>
    if !tree.isTextLikeNode prev then return [doc]
    else if tree.hasEmptyLineAfter prev then return (← emptyLine) ++ [doc]
    else return [← separator.doc, doc]

/-- What precedes a node that is no text: what is outside of its group, and what is inside. -/
def precedingParts (tree : Tree) (id : NodeId) (prevGroup : Option GroupId) :
    Build (List Doc × List Doc) := do
  match separatorBefore? tree id with
  | none => return ([], [])
  | some (prev, separator) =>
    if tree.hasEmptyLineAfter prev then return (← emptyLine, [])
    else if separator = .hardline then return ([← Build.hardline], [])
    else if tree.isTextLikeNode prev then return ([], [← separator.doc])
    else
      let broken ← Build.empty
      return ([], [← Build.ifBreakFor broken (← Build.softline) prevGroup])

/-- What follows a node that is no text: what is inside of its group, and what is outside. -/
def followingParts (tree : Tree) (id : NodeId) : Build (List Doc × List Doc) := do
  match separatorAfter? tree id with
  | none => return ([], [])
  | some (next, separator) =>
    let beforeText := tree.isTextLikeNode next
    if tree.hasEmptyLineAfter id then
      if beforeText then return ([], ← emptyLine) else return ([], [])
    else if separator = .hardline then
      if beforeText then return ([], [← Build.hardline]) else return ([], [])
    else return ([← separator.doc], [])

/-- A child that flows, with what is around it. -/
def flowing (tree : Tree) (id : NodeId) (doc : Doc) (group : GroupId)
    (prevGroup : Option GroupId) : Build (List Doc) := do
  if tree.isTextLikeNode id then flowingText tree id doc
  else
    let (outerBefore, innerBefore) ← precedingParts tree id prevGroup
    let (innerAfter, outerAfter) ← followingParts tree id
    let inner ← Build.groupWith (← Build.concat (doc :: innerAfter)) (some group) false
    let outer ← Build.group (← Build.concat (innerBefore ++ [inner]))
    return outerBefore ++ outer :: outerAfter

/-- The children that flow, after one whose group is given. -/
def flowAll (tree : Tree) (prevGroup : Option GroupId) :
    List (NodeId × Doc) → Build (List Doc)
  | [] => return []
  | (id, doc) :: rest => do
    let group ← Build.freshGroup "child"
    let parts ← flowing tree id doc group prevGroup
    return parts ++ (← flowAll tree (some group) rest)

/-- The children of a node, given how each is printed. -/
def joinChildren (tree : Tree) (parent : NodeId) (children : List (NodeId × Doc)) :
    Build Doc := do
  if tree.breaksChildren parent then
    let first ← Build.breakParent
    Build.concat (first :: (← children.mapM fun (id, doc) => ownLine tree id doc).flatten)
  else Build.concat (← flowAll tree none children)

end MarkupFormat.Print
