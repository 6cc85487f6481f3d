import MarkupFormat.Annotate.Inline
import MarkupFormat.Annotate.Interpolation
import MarkupFormat.Annotate.Lines
import MarkupFormat.Annotate.Trim
import MarkupFormat.Markup.Parse
import MarkupFormat.Text.LineEnding

/-!
# Annotated trees

`annotate` reads a source and brings its tree into the form that is printed: texts are split and
trimmed, and every node knows its display and which white space around it shows. White space
between two neighbours shows only if both agree.
-/

namespace MarkupFormat.Markup.Tree

open Format (Sensitivity)

/-- The tree with its nodes changed. -/
def mapNodes (tree : Tree) (change : NodeId → Node → Node) : Tree :=
  { tree with nodes := tree.nodes.mapIdx change }

/-- The tree with the display of every node. -/
def resolveDisplays (tree : Tree) (sensitivity : Sensitivity) : Tree :=
  tree.mapNodes fun id node => { node with display := tree.displayOf id sensitivity }

/-- Whether a node is printed without an end tag of its own. -/
def isSelfClosing (info : NodeInfo) : Bool :=
  !info.kind.canHaveChildren ||
    match info.kind with
    | .element element =>
      element.tag.isVoid || (info.endSpan.isSome && info.endSpan = info.startSpan)
    | _ => false

/-- The tree in which nodes without an end tag of their own are flagged. -/
def markSelfClosing (tree : Tree) : Tree :=
  tree.mapNodes fun _ node =>
    { node with flags := { node.flags with selfClosing := isSelfClosing node.toNodeInfo } }

/-- Whether a node and the one before it agree that white space between them shows. -/
def agreesLeading (tree : Tree) (id : NodeId) : Bool :=
  tree.isLeadingSensitive id && (tree.prev? id).all tree.isTrailingSensitive

/-- Whether a node and the one after it agree that white space between them shows. -/
def agreesTrailing (tree : Tree) (id : NodeId) : Bool :=
  tree.isTrailingSensitive id && (tree.next? id).all tree.isLeadingSensitive

/-- The sensitivity flags of a node. -/
def sensitivityFlags (tree : Tree) (id : NodeId) (node : Node) : Flags :=
  let isChild := node.parent.isSome
  { node.flags with
    leadingSensitive := isChild && tree.agreesLeading id
    trailingSensitive := isChild && tree.agreesTrailing id
    danglingSensitive :=
      node.kind.canHaveChildren && node.children.isEmpty && tree.isDanglingSensitive id }

/-- The tree in which white space that shows is flagged. -/
def markSensitivity (tree : Tree) : Tree :=
  tree.mapNodes fun id node => { node with flags := tree.sensitivityFlags id node }

mutual

/-- The nodes of an outline with what is below them. -/
def gather (tree : Tree) : Outline → Fragment
  | .node id inner => .node (tree.node id).toNodeInfo (gatherAll tree inner)

/-- The nodes of several outlines. -/
def gatherAll (tree : Tree) : List Outline → List Fragment
  | [] => []
  | outline :: outlines => gather tree outline :: gatherAll tree outlines

end

/-- The tree without numbers. -/
def toFragment (tree : Tree) : Fragment :=
  tree.gather (tree.outline rootId)

end MarkupFormat.Markup.Tree

namespace MarkupFormat.Annotate

open Format (Options)
open Markup (Fragment ParseError Tree)

/-- A tree that is ready to be printed. -/
structure Annotated where
  tree : Tree
  /-- How many nodes were made on the way, those that are no longer in the tree included. -/
  made : Nat
  deriving Inhabited

/-- A tree as read, with texts split and trimmed. -/
def normalize (root : Fragment) : Fragment :=
  trimText (splitInterpolations (mergeCdata (foldConditions (dropFirstLineFeeds root))))

/-- A normal tree with display and sensitivity. -/
def classify (source : String) (options : Options) (root : Fragment) : Tree :=
  ((Tree.ofRoot source root).resolveDisplays options.sensitivity).markSelfClosing.markSensitivity

/-- How many nodes `normalize` makes. Only splitting texts makes any. -/
def normalizeCount (root : Fragment) : Nat :=
  splitCount (mergeCdata (foldConditions (dropFirstLineFeeds root)))

/-- The annotated tree of the nodes of a source. A merge makes one text in the place of four
nodes, so the loss of nodes tells the number of merges. -/
def ofContent (source : String) (options : Options) (content : List Fragment) : Annotated :=
  let chars := source.toList
  let root : Fragment :=
    .node { kind := .root, span := ⟨0, Text.byteLength chars⟩ } content
  let classified := classify source options (normalize root)
  let merged := Tree.ofRoot source (mergeSimpleElements chars classified.toFragment)
  { tree := merged
    made := root.size + normalizeCount root + (classified.size - merged.size) / 3 }

/-- Reads and annotates a source, all of whose lines are first ended alike. -/
def annotate (source : String) (options : Options) : Except ParseError Annotated :=
  let source := Text.normalizeLineEndings source
  (Markup.parse source {}).map (ofContent source options)

end MarkupFormat.Annotate
