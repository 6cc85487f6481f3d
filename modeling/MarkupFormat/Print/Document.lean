import MarkupFormat.Print.Element
import MarkupFormat.Print.Text

/-!
# The document of a page

Nodes are printed from the leaves upwards. What the embedder lays out is taken from it; a node that
is copied from the source leaves its children unprinted.
-/

namespace MarkupFormat.Print

open Layout (Build Doc)
open Markup (NodeId Outline)

namespace Page

variable (page : Page)

/-- A node around its printed children. -/
def assemble (id : NodeId) (children : List (NodeId × Doc)) : Printing Doc := do
  match page.tree.kind id with
  | .root =>
    match children with
    | [] => Build.empty
    | _ => Build.concat [← Build.group (← joinChildren page.tree id children), ← Build.hardline]
  | .element _ | .conditional .. => page.printElement id children
  | .interpolation =>
    let opening ← page.openingStart id
    Build.concat (opening :: children.map (·.2) ++ [← page.closingEnd id])
  | .conditionalStart _ | .conditionalEnd =>
    Build.seq [page.openingStart id, page.closingEnd id]
  | .text value => page.printText id value.toList
  | .doctype value => page.printDoctype id value
  | .comment _ => page.printComment id
  | .directive value => literalText ("<?" ++ value ++ "?>")
  | .frontMatter block => literalText block.raw
  | .cdata _ => throw (.unexpectedNode (page.tree.kind id).typeName (page.tree.node id).span)

mutual

/-- A node with what is below it. -/
def printNode : Outline → Printing Doc
  | .node id inner => do
    match ← page.embedded? id with
    | some doc => return doc
    | none =>
      if page.tree.preservesContent id then page.printCopied id
      else page.assemble id (← printNodes inner)

/-- Several nodes. Those that a comment asks to leave as they are, are copied. -/
def printNodes : List Outline → Printing (List (NodeId × Doc))
  | [] => return []
  | .node id inner :: rest => do
    let doc ← if page.tree.isIgnored id then page.printIgnored id else printNode (.node id inner)
    return (id, doc) :: (← printNodes rest)

end

/-- The document of the page. -/
def print : Printing Doc :=
  page.printNode (page.tree.outline Markup.Tree.rootId)

end Page

end MarkupFormat.Print
