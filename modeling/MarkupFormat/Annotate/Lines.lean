import MarkupFormat.Annotate.Classify

/-!
# Lines around nodes

Where the source has line breaks and empty lines around a node, and where a node asks for them.
-/

namespace MarkupFormat.Markup.Tree

open Annotate (isPreLike isTextOrInterpolation prefersOwnLines)

variable (tree : Tree) (id : NodeId)

/-- Whether the source has an empty line between a node and the next one. -/
def hasEmptyLineAfter : Bool :=
  tree.isFrontMatter id ||
    (tree.next? id).any fun next =>
      tree.lineOf (tree.node id).span.stop + 1 < tree.lineOf (tree.node next).span.start

/-- Whether each child of a node has a line of its own. -/
def breaksChildren : Bool :=
  let node := tree.node id
  match node.kind with
  | .element element =>
    !node.children.isEmpty &&
      (["html", "head", "ul", "ol", "select"].contains element.name ||
        (node.display.isTable && node.display ≠ .tableCell))
  | _ => false

/-- Whether a node has a child that is not a text. -/
def hasNonTextChild : Bool :=
  (tree.children id).any fun child => !(tree.kind child).isText

/-- Whether the white space before a node had a line break in it. -/
def hasLeadingLineBreak : Bool :=
  let node := tree.node id
  let line := tree.lineOf node.span.start
  node.flags.leadingSpaces &&
    match node.prev, node.parent with
    | some prev, _ => tree.lineOf (tree.node prev).span.stop < line
    | none, some parent =>
      tree.isRoot parent ||
        (tree.node parent).startSpan.any fun span => tree.lineOf span.stop < line
    | none, none => false

/-- Whether the white space after a node had a line break in it. -/
def hasTrailingLineBreak : Bool :=
  let node := tree.node id
  let line := tree.lineOf node.span.stop
  node.flags.trailingSpaces &&
    match node.next, node.parent with
    | some next, _ => line < tree.lineOf (tree.node next).span.start
    | none, some parent =>
      tree.isRoot parent ||
        (tree.node parent).endSpan.any fun span => line < tree.lineOf span.start
    | none, none => false

/-- Whether a node had line breaks on both sides. -/
def hasSurroundingLineBreaks : Bool :=
  tree.hasLeadingLineBreak id && tree.hasTrailingLineBreak id

/-- Whether the content of a node has lines of its own between the tags. -/
def breaksContent : Bool :=
  let children := tree.children id
  tree.breaksChildren id ||
    (match tree.kind id with
      | .element element =>
        !children.isEmpty &&
          (["body", "script", "style"].contains element.name ||
            children.any tree.hasNonTextChild)
      | _ => false) ||
    (match children with
      | [only] =>
        !(tree.kind only).isText && tree.hasLeadingLineBreak only &&
          (!(tree.node only).flags.trailingSensitive || tree.hasTrailingLineBreak only)
      | _ => false)

/-- Whether white space after a node is better a line break. -/
def prefersLineAfter : Bool :=
  prefersOwnLines (tree.kind id) ||
    (match tree.kind id with
      | .element element => element.fullName = "br"
      | _ => false) ||
    tree.hasSurroundingLineBreaks id

/-- Whether white space before a node is better a line break. -/
def prefersLineBefore : Bool :=
  prefersOwnLines (tree.kind id) || (tree.prev? id).any tree.prefersLineAfter ||
    tree.hasSurroundingLineBreaks id

/-- The last child of the last child and so on, down to the given depth. -/
def lastDescendantTo : Nat → NodeId → NodeId
  | 0, id => id
  | depth + 1, id =>
    match tree.lastChild? id with
    | some last => lastDescendantTo depth last
    | none => id

/-- The deepest last child, or the node itself. -/
def lastDescendant : NodeId :=
  tree.lastDescendantTo tree.size id

/-- Whether the content of a node is copied from the source: a conditional section that does not
stand on its own, and preformatted content that is more than text. -/
def preservesContent : Bool :=
  let node := tree.node id
  (match node.kind with
    | .conditional _ complete =>
      !complete || (tree.lastChild? id).any fun last =>
        !(tree.node last).flags.selfClosing && (tree.node last).endSpan.isNone
    | _ => false) ||
  (isPreLike node.kind &&
    node.children.any fun child => !isTextOrInterpolation (tree.kind child))

/-- Whether the comment before a node asks to leave the node as it is. -/
def isIgnored : Bool :=
  match (tree.prev? id).map tree.kind with
  | some (.comment value) => Text.dropEnds Text.isWhiteSpace value.toList = "quill-ignore".toList
  | _ => false

end MarkupFormat.Markup.Tree
