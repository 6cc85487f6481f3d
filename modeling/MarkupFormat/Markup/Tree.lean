import MarkupFormat.Markup.LineIndex
import MarkupFormat.Markup.Node
import MarkupFormat.Text.Quoted

/-!
# The tree of a source

All nodes of a source stand in one table and refer to each other by their numbers. What a node
contains is said by the lists of children alone; parents and neighbours are found from these by
`relink`, and may be out of date before it. `Tree.ofContent` numbers nodes in the order in which
they are written.
-/

namespace MarkupFormat.Markup

/-- The number of a node. -/
abbrev NodeId := Nat

/-- A node in its place. -/
structure Node extends NodeInfo where
  parent : Option NodeId := none
  prev : Option NodeId := none
  next : Option NodeId := none
  children : List NodeId := []
  deriving DecidableEq, Repr, Inhabited

/-- The nodes of a source. The node with number zero is the root. -/
structure Tree where
  nodes : Array Node
  source : String
  lines : LineIndex
  deriving Inhabited

/-- The part of a tree below a node, by the numbers of the nodes. -/
inductive Outline where
  | node (id : NodeId) (inner : List Outline)
  deriving Inhabited

namespace Outline

def id : Outline → NodeId
  | node id _ => id

def inner : Outline → List Outline
  | node _ inner => inner

mutual

/-- The nodes with their depths, each before those below it. -/
def flatten (depth : Nat) : Outline → List (NodeId × Nat)
  | node id inner => (id, depth) :: flattenAll (depth + 1) inner

/-- The nodes of several outlines with their depths. -/
def flattenAll (depth : Nat) : List Outline → List (NodeId × Nat)
  | [] => []
  | outline :: outlines => outline.flatten depth ++ flattenAll depth outlines

end

/-- The nodes, each before those below it. -/
def ids (outline : Outline) : List NodeId :=
  (outline.flatten 0).map (·.1)

end Outline

namespace Tree

/-- The number of the root. -/
def rootId : NodeId := 0

/-- A tree that holds only a root over a source. -/
def empty (source : String) : Tree :=
  let chars := source.toList
  { nodes := #[{ kind := .root, span := ⟨0, Text.byteLength chars⟩ }]
    source := source
    lines := .build chars }

/-- The node with a number. -/
def node (tree : Tree) (id : NodeId) : Node :=
  tree.nodes.getD id default

def kind (tree : Tree) (id : NodeId) : NodeKind :=
  (tree.node id).kind

def parent? (tree : Tree) (id : NodeId) : Option NodeId :=
  (tree.node id).parent

def prev? (tree : Tree) (id : NodeId) : Option NodeId :=
  (tree.node id).prev

def next? (tree : Tree) (id : NodeId) : Option NodeId :=
  (tree.node id).next

def children (tree : Tree) (id : NodeId) : List NodeId :=
  (tree.node id).children

def firstChild? (tree : Tree) (id : NodeId) : Option NodeId :=
  (tree.children id).head?

def lastChild? (tree : Tree) (id : NodeId) : Option NodeId :=
  (tree.children id).getLast?

/-- How many nodes there are, those outside of every list of children included. -/
def size (tree : Tree) : Nat :=
  tree.nodes.size

/-- Whether there is nothing but the root. -/
def isEmpty (tree : Tree) : Bool :=
  tree.size ≤ 1 && (tree.children rootId).isEmpty

/-- Every number, in the order in which the nodes were added. -/
def ids (tree : Tree) : List NodeId :=
  List.range tree.size

/-- The line of an offset, counted from one. -/
def lineOf (tree : Tree) (offset : Nat) : Nat :=
  tree.lines.line offset

/-- Changes one node. -/
def modify (tree : Tree) (id : NodeId) (change : Node → Node) : Tree :=
  { tree with nodes := tree.nodes.modify id change }

/-- Adds a node outside of every list of children. -/
def alloc (tree : Tree) (node : Node) : Tree × NodeId :=
  ({ tree with nodes := tree.nodes.push node }, tree.size)

/-- Adds a node as the last child of another. -/
def append (tree : Tree) (parent : NodeId) (node : Node) : Tree × NodeId :=
  let (tree, id) := tree.alloc { node with parent := some parent }
  (tree.modify parent fun p => { p with children := p.children ++ [id] }, id)

/-! ### Links -/

/-- The node without links. -/
def unlinked (node : Node) : Node :=
  { node with parent := none, prev := none, next := none }

/-- Links the children of a node, given the child before those listed. -/
def linkChildren (parent : NodeId) (prev : Option NodeId) :
    List NodeId → Array Node → Array Node
  | [], nodes => nodes
  | child :: rest, nodes =>
    linkChildren parent (some child) rest
      (nodes.modify child fun node =>
        { node with parent := some parent, prev := prev, next := rest.head? })

/-- The tree with the links that its lists of children imply. -/
def relink (tree : Tree) : Tree :=
  let cleared := tree.nodes.map unlinked
  { tree with
    nodes := tree.ids.foldl
      (fun nodes id => linkChildren id none (tree.children id) nodes) cleared }

/-! ### Trees of markup -/

/-- The numbers of trees that are numbered one after the other. -/
def numbers (start : NodeId) : List Fragment → List NodeId
  | [] => []
  | fragment :: rest => start :: numbers (start + fragment.size) rest

mutual

/-- The nodes of a tree that is numbered from `start`. -/
def nodesOf (start : NodeId) : Fragment → List Node
  | .node info children =>
    { toNodeInfo := info, children := numbers (start + 1) children } ::
      nodesOfAll (start + 1) children

/-- The nodes of several trees that are numbered from `start`. -/
def nodesOfAll (start : NodeId) : List Fragment → List Node
  | [] => []
  | fragment :: rest => nodesOf start fragment ++ nodesOfAll (start + fragment.size) rest

end

/-- The tree of a source with the given root. -/
def ofRoot (source : String) (root : Fragment) : Tree :=
  relink
    { nodes := (nodesOf rootId root).toArray
      source := source
      lines := .build source.toList }

/-- The tree of a source whose nodes are given. -/
def ofContent (source : String) (content : List Fragment) : Tree :=
  ofRoot source (.node
    { kind := .root, span := ⟨0, Text.byteLength source.toList⟩ } content)

/-! ### Walks -/

/-- What is below a node, down to the given depth. -/
def outlineTo (tree : Tree) : Nat → NodeId → Outline
  | 0, id => .node id []
  | depth + 1, id => .node id ((tree.children id).map (tree.outlineTo depth))

/-- What is below a node. No path is longer than there are nodes, unless a node is below
itself. -/
def outline (tree : Tree) (id : NodeId) : Outline :=
  tree.outlineTo tree.size id

/-- A node and everything below it, each node before those below it. -/
def descendants (tree : Tree) (id : NodeId) : List NodeId :=
  (tree.outline id).ids

/-- The links upwards from a node, at most `count`. -/
def ancestorsUpTo (tree : Tree) : Nat → NodeId → List NodeId
  | 0, _ => []
  | count + 1, id =>
    match tree.parent? id with
    | some parent => parent :: tree.ancestorsUpTo count parent
    | none => []

/-- The nodes around a node, the nearest first. -/
def ancestors (tree : Tree) (id : NodeId) : List NodeId :=
  tree.ancestorsUpTo tree.size id

/-! ### Dumps -/

/-- An attribute in a dump. -/
def dumpAttribute (attr : Attribute) : String :=
  match attr.value with
  | some value => " " ++ attr.rawName ++ "=" ++ Text.quoted value
  | none => " " ++ attr.rawName

/-- What a dump tells of a kind besides its name and value. -/
def dumpKind : NodeKind → String
  | .element element =>
    " <" ++ element.rawName ++ ">" ++
      (match element.ns with
        | some ns => " ns=" ++ ns
        | none => "") ++
      String.join (element.attributes.map dumpAttribute)
  | .conditional condition _ | .conditionalStart condition => " [if " ++ condition ++ "]"
  | .frontMatter block => " lang=" ++ block.language
  | _ => ""

/-- The line of a node in a dump. -/
def dumpNode (info : NodeInfo) (depth : Nat) : String :=
  String.ofList (List.replicate (2 * depth) ' ') ++ info.kind.typeName ++ dumpKind info.kind ++
    (match info.kind.value? with
      | some value => " " ++ Text.quoted value
      | none => "") ++
    " @" ++ info.span.text ++
    (if info.display = .inline then "" else " display=" ++ info.display.keyword) ++
    (if info.flags = {} then "" else " " ++ info.flags.text)

/-- The lines of a dump, a node each, indented by their depth. -/
def dumpLines (tree : Tree) : List String :=
  ((tree.outline rootId).flatten 0).map fun (id, depth) =>
    dumpNode (tree.node id).toNodeInfo depth

/-- The tree as text, a node a line. -/
def dump (tree : Tree) : String :=
  String.join (tree.dumpLines.map (· ++ "\n"))

end Tree

end MarkupFormat.Markup
