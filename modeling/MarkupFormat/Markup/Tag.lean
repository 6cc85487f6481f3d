/-!
# Tags

What is known about an element from its name: which children end it, whether it may stay open,
and how its content is read. Names are compared exactly, so only the lowercase spelling of a name
has a meaning.
-/

namespace MarkupFormat.Markup

/-- How the content of an element is read. -/
inductive ContentType where
  /-- As markup. -/
  | parsable
  /-- As text up to the end tag. -/
  | rawText
  /-- As text up to the end tag, in which entities have a meaning. -/
  | escapableRawText
  deriving DecidableEq, Repr, Inhabited

/-- What a name says about its elements. -/
structure Tag where
  /-- Names of the children whose start tags end the element. -/
  closedByChildren : List String := []
  /-- Whether the end tag of an element around it may end the element. -/
  closedByParent : Bool := false
  /-- The namespace of an element whose name has no prefix. -/
  implicitNamespace : Option String := none
  content : ContentType := .parsable
  /-- Whether the content is markup in the namespace of drawings. -/
  parsableInSvg : Bool := false
  /-- Whether the element has neither content nor an end tag. -/
  isVoid : Bool := false
  /-- Whether its children start from no namespace. -/
  stopsNamespace : Bool := false
  /-- Whether a line feed right after the start tag does not count. -/
  ignoresFirstLineFeed : Bool := false
  deriving DecidableEq, Repr, Inhabited

namespace Tag

/-- Whether the start tag of a child ends the element. -/
def isClosedBy (tag : Tag) (child : String) : Bool :=
  tag.isVoid || tag.closedByChildren.contains child

/-- How the content is read in a namespace. -/
def contentType (tag : Tag) (ns : Option String) : ContentType :=
  if tag.parsableInSvg && ns = some "svg" then .parsable else tag.content

/-- A tag that any of `children` ends. -/
def closedBy (children : List String) (byParent : Bool) : Tag :=
  { closedByChildren := children, closedByParent := byParent }

/-- Names of the children that end a paragraph. -/
def paragraphEnders : List String :=
  ["address", "article", "aside", "blockquote", "div", "dl", "fieldset", "footer", "form",
    "h1", "h2", "h3", "h4", "h5", "h6", "header", "hgroup", "hr", "main", "nav", "ol", "p",
    "pre", "section", "table", "ul"]

/-- What a local name says. -/
def ofName (name : String) : Tag :=
  match name with
  | "area" | "base" | "br" | "col" | "embed" | "hr" | "img" | "input" | "link" | "meta"
  | "param" | "source" | "track" | "wbr" => { isVoid := true }
  | "p" => closedBy paragraphEnders true
  | "thead" => closedBy ["tbody", "tfoot"] false
  | "tbody" => closedBy ["tbody", "tfoot"] true
  | "tfoot" => closedBy ["tbody"] true
  | "tr" => closedBy ["tr"] true
  | "td" | "th" => closedBy ["td", "th"] true
  | "li" => closedBy ["li"] true
  | "dt" => closedBy ["dt", "dd"] false
  | "dd" => closedBy ["dt", "dd"] true
  | "rb" | "rt" | "rp" => closedBy ["rb", "rt", "rtc", "rp"] true
  | "rtc" => closedBy ["rb", "rtc", "rp"] true
  | "optgroup" => closedBy ["optgroup"] true
  | "option" => closedBy ["option", "optgroup"] true
  | "pre" | "listing" => { ignoresFirstLineFeed := true }
  | "textarea" => { content := .escapableRawText, ignoresFirstLineFeed := true }
  | "title" => { content := .escapableRawText, parsableInSvg := true }
  | "script" | "style" => { content := .rawText }
  | "svg" => { implicitNamespace := some "svg" }
  | "foreignObject" => { implicitNamespace := some "svg", stopsNamespace := true }
  | "math" => { implicitNamespace := some "math" }
  | _ => {}

/-- What the name of an element says in its namespace. In a foreign namespace only the elements
that open one keep their meaning. -/
def ofElement (name : String) (ns : Option String) : Tag :=
  let tag := ofName name
  if ns.isNone || tag.implicitNamespace.isSome then tag else {}

end Tag

end MarkupFormat.Markup
