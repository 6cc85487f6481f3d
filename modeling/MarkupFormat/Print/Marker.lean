import MarkupFormat.Print.Borrowing
import MarkupFormat.Print.Page

/-!
# The text of markers

How the parts of tags are written for each kind of node.
-/

namespace MarkupFormat.Print.Page

open Markup (Element Marker NodeId NodeKind OwnedMarker Span)

variable (page : Page) (id : NodeId)

/-- The text of a span in the source. -/
def sourceText (span : Span) : String :=
  span.slice page.source

/-- Whether a node is printed without an end tag of its own. -/
def isSelfClosing : Bool :=
  (page.tree.node id).flags.selfClosing

/-- Whether an element is closed by an end tag without a name. -/
def hasNamelessEndTag : Bool :=
  (page.tree.node id).endSpan.any fun span => page.sourceText span = "<//>"

/-- Whether the closing tag is left out: the source has none, and the node is copied from it. -/
def omitsClosingTag : Bool :=
  let node := page.tree.node id
  !node.flags.selfClosing && node.endSpan.isNone &&
    (page.tree.isIgnored id || (page.tree.parent? id).any page.tree.preservesContent)

/-- The bytes of a declaration that are printed as they are written, those of `<!doctype`. -/
def declarationBytes : Nat := 9

/-- How a declaration begins. -/
def declarationStart (value : String) (span : Span) : String :=
  if value = "html" ∧ page.options.isHtmlFile then "<!doctype"
  else
    let written := page.sourceText span
    match Text.splitBytes declarationBytes written.toList with
    | some (start, _) => String.ofList start
    | none => written

/-- How the opening tag of an element begins, with a condition that surrounds the tag. -/
def elementStart (element : Element) : String :=
  match element.condition with
  | some condition => "<!--[if " ++ condition ++ "]><!--><" ++ element.rawName
  | none => "<" ++ element.rawName

def openingStartText : String :=
  let node := page.tree.node id
  match node.kind with
  | .conditional condition _ | .conditionalStart condition => "<!--[if " ++ condition
  | .conditionalEnd => "<!--<!"
  | .interpolation => "\x7b\x7b"
  | .doctype value => page.declarationStart value node.span
  | .element element => elementStart element
  | _ => "<"

def openingEndText : String :=
  match page.tree.kind id with
  | .conditional .. => "]>"
  | .element element => if element.condition.isSome then "><!--<![endif]-->" else ">"
  | _ => ">"

def closingStartText : String :=
  if page.omitsClosingTag id then ""
  else
    match page.tree.kind id with
    | .conditional .. => "<!"
    | .element element => if page.hasNamelessEndTag id then "<//" else "</" ++ element.rawName
    | _ => "</"

def closingEndText : String :=
  if page.omitsClosingTag id then ""
  else
    match page.tree.kind id with
    | .conditional .. | .conditionalEnd => "[endif]-->"
    | .conditionalStart _ => "]><!-->"
    | .interpolation => "\x7d\x7d"
    | .element _ => if page.isSelfClosing id then "/>" else ">"
    | _ => ">"

/-- The text of a marker. -/
def markerText (owned : OwnedMarker) : String :=
  match owned.marker with
  | .openingStart => page.openingStartText owned.owner
  | .openingEnd => page.openingEndText owned.owner
  | .closingStart => page.closingStartText owned.owner
  | .closingEnd => page.closingEndText owned.owner

end MarkupFormat.Print.Page
