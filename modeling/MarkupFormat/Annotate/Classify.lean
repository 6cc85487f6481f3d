import MarkupFormat.Annotate.Style
import MarkupFormat.Format.Options
import MarkupFormat.Markup.Tree
import MarkupFormat.Text.Blank

/-!
# Display and sensitivity of nodes

What a node is to its neighbours: its display, and whether white space before, after or inside it
shows. The sensitivity reads the displays that are stored at the neighbours.
-/

namespace MarkupFormat.Markup.Tree

open Annotate (defaultDisplay? isBlockLike isEdgeSensitive isPreLike isScriptLike
  isTextOrInterpolation isUnknownNamespace)
open Format (Sensitivity)

variable (tree : Tree) (id : NodeId)

/-! ### Display -/

/-- The keyword in a comment that sets the display of the node after it. -/
def displayComment? (kind : NodeKind) : Option String :=
  match kind with
  | .comment value => do
    let rest ← Text.dropPrefix? "display:".toList (Text.dropEnds Text.isWhiteSpace value.toList)
    let keyword := Text.dropEnds Text.isWhiteSpace rest
    if keyword ≠ [] ∧ keyword.all (fun c => 'a' ≤ c && c ≤ 'z') then some (String.ofList keyword)
    else none
  | _ => none

/-- Whether a node is a drawing's window to ordinary markup. -/
def isForeignObject : Bool :=
  match tree.kind id with
  | .element element => element.fullName = "svg:foreignObject"
  | _ => false

/-- The display that an element has by its name, where names have a style. -/
def styledDisplay (kind : NodeKind) (inForeignObject : Bool) : Display :=
  match kind with
  | .element element =>
    if element.ns.isNone || inForeignObject || isUnknownNamespace element then
      (defaultDisplay? element.name).getD .inline
    else .inline
  | _ => .inline

/-- The display of a node: what a comment before it says, or else what its place in a drawing
asks for, or else what the sensitivity makes of its style. -/
def displayOf (sensitivity : Sensitivity) : Display :=
  let kind := tree.kind id
  match (tree.prev? id).bind fun prev => displayComment? (tree.kind prev) with
  | some keyword => .ofKeyword keyword
  | none =>
    let inDrawing := (kind.element?.bind (·.ns)) = some "svg"
    let inForeignObject := inDrawing && (id :: tree.ancestors id).any tree.isForeignObject
    if inDrawing && !inForeignObject then
      if kind.isNamed "svg" then .inlineBlock else .block
    else
      match sensitivity with
      | .strict => .inline
      | .ignore => .block
      | .css => styledDisplay kind inForeignObject

/-! ### Sensitivity -/

/-- Whether a node is front matter. -/
def isFrontMatter : Bool :=
  match tree.kind id with
  | .frontMatter _ => true
  | _ => false

/-- Whether a node is the root. -/
def isRoot : Bool :=
  match tree.kind id with
  | .root => true
  | _ => false

/-- Whether white space shows between a node and its neighbour on one side. -/
def isSensitiveTowards (neighbour : Option NodeId) : Bool :=
  let kind := tree.kind id
  if tree.isFrontMatter id then false
  else if isTextOrInterpolation kind &&
      neighbour.any fun other => isTextOrInterpolation (tree.kind other) then true
  else
    match tree.parent? id with
    | none => false
    | some parent =>
      let parentKind := tree.kind parent
      let parentDisplay := (tree.node parent).display
      if parentDisplay = .none then false
      else if isPreLike parentKind then true
      else
        match neighbour with
        | none =>
          !(tree.isRoot parent || isPreLike kind || isScriptLike parentKind ||
            !isEdgeSensitive parentDisplay)
        | some other => !isBlockLike (tree.node other).display

/-- Whether a line feed right after the start tag of the parent does not count. -/
def parentIgnoresLineFeed : Bool :=
  match (tree.parent? id).map tree.kind with
  | some (.element element) => element.tag.ignoresFirstLineFeed
  | _ => false

/-- Whether white space before a node shows. -/
def isLeadingSensitive : Bool :=
  let sensitive := tree.isSensitiveTowards id (tree.prev? id)
  if sensitive && (tree.prev? id).isNone && tree.parentIgnoresLineFeed id then
    (tree.kind id).isInterpolation
  else sensitive

/-- Whether white space after a node shows. -/
def isTrailingSensitive : Bool :=
  tree.isSensitiveTowards id (tree.next? id)

/-- Whether white space that is all of a node's content shows. -/
def isDanglingSensitive : Bool :=
  isEdgeSensitive (tree.node id).display && !isScriptLike (tree.kind id)

end MarkupFormat.Markup.Tree
