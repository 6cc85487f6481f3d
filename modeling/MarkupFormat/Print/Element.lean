import MarkupFormat.Print.Children

/-!
# Elements

Elements and conditional sections: tags around a body that is indented if it is broken.
-/

namespace MarkupFormat.Print

open Layout (Build Doc GroupId)
open Markup (Node NodeId)

/-- Whether a node is preceded by white space that shows. -/
def hasSensitiveSpaceBefore (node : Node) : Bool :=
  node.flags.leadingSpaces && node.flags.leadingSensitive

/-- Whether a node is followed by white space that shows. -/
def hasSensitiveSpaceAfter (node : Node) : Bool :=
  node.flags.trailingSpaces && node.flags.trailingSensitive

/-- Whether a child is text that is printed with its indentation. -/
def keepsIndentation (parent child : Node) : Bool :=
  child.kind.isText && parent.flags.whitespaceSensitive && parent.flags.indentationSensitive

/-- Whether a text ends with a line feed and then exactly `width` blanks. -/
def endsWithIndentedLine (value : List Char) (width : Nat) : Bool :=
  let blanks := value.reverse.take width
  blanks.length = width && blanks.all Text.isLineBlank &&
    (value.reverse.drop width).head? = some '\n'

namespace Page

variable (page : Page) (id : NodeId)

/-! ### Content that is copied -/

/-- The bytes of a marker. -/
def markerBytes (owner : NodeId) (marker : Markup.Marker) : Nat :=
  (page.markerText ⟨owner, marker⟩).utf8ByteSize

/-- The source from one offset to another, or as far as it goes. -/
def copy (start stop : Nat) : String :=
  let source := page.source
  let stop := min stop (Text.byteLength source)
  Text.slice source (min start stop) stop

/-- The source between the tags of a node, with the markers that its children borrow. -/
def innerSource : String :=
  let tree := page.tree
  let node := tree.node id
  let start := (node.startSpan.map (·.stop)).getD node.span.start
  let stop := (node.endSpan.map (·.start)).getD node.span.stop
  let start := if tree.lendsOpeningEnd id then start - page.markerBytes id .openingEnd else start
  let stop :=
    if tree.lendsClosingStart id then stop + page.markerBytes id .closingStart
    else
      match tree.borrowedInside? id with
      | some owned => stop - page.markerBytes owned.owner owned.marker
      | none => stop
  page.copy start stop

/-- An element whose content is copied. -/
def printCopied : Printing Doc := do
  let before ← page.before id
  let opening ← Build.group (← page.openingTag id)
  Build.concat [before, opening, ← literalText (page.innerSource id), ← page.closingTag id,
    ← page.after id]

/-- Where a node ends. An element without an end tag reaches to the end of its content. -/
def sourceEnd : Nat → NodeId → Nat
  | 0, id => (page.tree.node id).span.stop
  | depth + 1, id =>
    let node := page.tree.node id
    match page.tree.lastChild? id with
    | some last =>
      if node.kind.isElement && node.endSpan.isNone then
        max node.span.stop (sourceEnd depth last)
      else node.span.stop
    | none => node.span.stop

/-- A node that is copied from the source, but for the markers that it lends. -/
def printIgnored : Build Doc := do
  let tree := page.tree
  let start := (tree.node id).span.start
  let stop := page.sourceEnd tree.size id
  let start :=
    if tree.lendsOpeningStart id then start + page.markerBytes id .openingStart else start
  let stop :=
    if (tree.next? id).any tree.borrowsPrevClosingEnd then
      stop - page.markerBytes id .closingEnd
    else stop
  Build.seq [page.before id, literalText (page.copy start stop), page.after id]

/-! ### Elements that are laid out -/

/-- Whether a last comment or text ends on a line that is indented like the closing tag. -/
def endsAtClosingTag (last : Node) : Bool :=
  let width := page.options.config.tabWidth * ((page.tree.ancestors id).length - 1)
  match last.kind with
  | .comment value => endsWithIndentedLine value.toList width
  | .text value =>
    keepsIndentation (page.tree.node id) last && endsWithIndentedLine value.toList width
  | _ => false

/-- Whether the content is one interpolation that touches both tags. -/
def hugsContent : Bool :=
  match page.tree.children id with
  | [only] =>
    (page.tree.kind only).isInterpolation && page.tree.isGluedBefore only &&
      page.tree.isGluedAfter only
  | _ => false

/-- What is between the opening tag and the first child. -/
def lineBefore (first : Node) (tagGroup : GroupId) : Build Doc := do
  if page.hugsContent id then
    Build.ifBreakFor (← Build.softline) (← Build.empty) (some tagGroup)
  else if hasSensitiveSpaceBefore first then Build.line
  else if keepsIndentation (page.tree.node id) first then
    Build.dedentToRoot (← Build.softline)
  else Build.softline

/-- What is between the last child and the closing tag. -/
def lineAfter (last : Node) (tagGroup : GroupId) : Build Doc := do
  if page.tree.lendsClosingEnd id then
    if hasSensitiveSpaceAfter last then Build.text " " else Build.empty
  else if page.hugsContent id then
    Build.ifBreakFor (← Build.softline) (← Build.empty) (some tagGroup)
  else if hasSensitiveSpaceAfter last then Build.line
  else if page.endsAtClosingTag id last then Build.empty
  else Build.softline

/-- The body of an element without children. -/
def emptyBody : Build Doc :=
  let flags := (page.tree.node id).flags
  if flags.danglingSpaces && flags.danglingSensitive then Build.line else Build.empty

/-- The body of an element, given how its children are printed. -/
def body (children : List (NodeId × Doc)) (tagGroup : GroupId) : Build Doc := do
  match page.tree.firstChild? id, page.tree.lastChild? id with
  | some first, some last =>
    let before ← page.lineBefore id (page.tree.node first) tagGroup
    let content ← Build.concat [before, ← joinChildren page.tree id children]
    let indented ←
      if page.hugsContent id then Build.indentIfBreak content tagGroup false
      else Build.indent content
    Build.seq [if page.tree.breaksContent id then Build.breakParent else Build.empty,
      return indented, page.lineAfter id (page.tree.node last) tagGroup]
  | _, _ => page.emptyBody id

/-- An element, given how its children are printed. -/
def printElement (children : List (NodeId × Doc)) : Printing Doc := do
  let tagGroup ← Build.freshGroup "element-attrs"
  let body ← page.body id children tagGroup
  let opening ← Build.groupWith (← page.openingTag id) (some tagGroup) false
  Build.group (← Build.concat [opening, body, ← page.closingTag id])

end Page

end MarkupFormat.Print
