import MarkupFormat.Markup.Node

/-!
# Default styles

The display and the treatment of white space that elements have without a style sheet, and what
follows from the style for a single node.
-/

namespace MarkupFormat.Annotate

open Markup (Display Element NodeKind)

/-- The display of an element with a name, if it is not that of running text. -/
def defaultDisplay? (name : String) : Option Display :=
  match name with
  | "area" | "base" | "basefont" | "datalist" | "head" | "link" | "meta" | "noembed"
  | "noframes" | "rp" | "style" | "title" => some .none
  | "html" | "body" | "address" | "blockquote" | "center" | "div" | "figure" | "figcaption"
  | "footer" | "form" | "header" | "hr" | "legend" | "listing" | "main" | "p" | "plaintext"
  | "pre" | "xmp" | "article" | "aside" | "h1" | "h2" | "h3" | "h4" | "h5" | "h6" | "hgroup"
  | "nav" | "section" | "dir" | "dd" | "dl" | "dt" | "menu" | "ol" | "ul" | "fieldset"
  | "details" | "summary" | "dialog" | "option" | "optgroup" | "script" | "source" | "track"
  | "param" | "frameset" | "frame" | "search" => some .block
  | "li" => some .listItem
  | "table" => some .table
  | "caption" => some .tableCaption
  | "colgroup" => some .tableColumnGroup
  | "col" => some .tableColumn
  | "thead" => some .tableHeaderGroup
  | "tbody" => some .tableRowGroup
  | "tfoot" => some .tableFooterGroup
  | "tr" => some .tableRow
  | "td" | "th" => some .tableCell
  | "ruby" => some .ruby
  | "rt" => some .rubyText
  | "button" | "meter" | "progress" | "object" | "video" | "audio" | "select" | "marquee" =>
    some .inlineBlock
  | "template" => some .inline
  | _ => none

/-- The treatment of white space in an element with a name. -/
def defaultWhiteSpace (name : String) : String :=
  match name with
  | "listing" | "pre" | "xmp" => "pre"
  | "plaintext" | "textarea" => "pre-wrap"
  | "nobr" => "nowrap"
  | "table" => "initial"
  | _ => "normal"

/-- Whether white space around a box collapses to a line boundary. -/
def isBlockLike (display : Display) : Bool :=
  display = .block || display = .listItem || display.isTable

/-- Whether white space at the edges inside a box shows. -/
def isEdgeSensitive (display : Display) : Bool :=
  !isBlockLike display && display ≠ .inlineBlock

/-- Whether the namespace of an element is neither written nor one whose elements have a style of
their own. Elements without a namespace belong here too. -/
def isUnknownNamespace (element : Element) : Bool :=
  !element.explicitNs && element.ns ≠ some "html" && element.ns ≠ some "svg"

/-- Whether the text of a node is opaque, as in scripts and style sheets. -/
def isScriptLike (kind : NodeKind) : Bool :=
  match kind with
  | .element element =>
    ["script", "style", "svg:style", "svg:script"].contains element.fullName ||
      (isUnknownNamespace element && ["script", "style"].contains element.name)
  | _ => false

/-- The treatment of white space in a node. -/
def whiteSpaceOf (kind : NodeKind) : String :=
  match kind with
  | .element element =>
    if element.ns.isNone || isUnknownNamespace element then defaultWhiteSpace element.name
    else "normal"
  | _ => "normal"

/-- Whether the text of a node is laid out as it is written, indentation included. -/
def isPreLike (kind : NodeKind) : Bool :=
  "pre".toList.isPrefixOf (whiteSpaceOf kind).toList

/-- Whether the indentation inside a node shows. -/
def isIndentationSensitive (kind : NodeKind) : Bool :=
  isPreLike kind

/-- Whether all white space inside a node shows. -/
def isWhitespaceSensitive (kind : NodeKind) : Bool :=
  isScriptLike kind || kind.isInterpolation || isPreLike kind

/-- Whether a node is printed without tags. -/
def isTextLike (kind : NodeKind) : Bool :=
  kind.isText || kind.isComment

/-- Whether a node is part of running text. -/
def isTextOrInterpolation (kind : NodeKind) : Bool :=
  kind.isText || kind.isInterpolation

/-- Whether lines around a node are better broken. -/
def prefersOwnLines (kind : NodeKind) : Bool :=
  match kind with
  | .conditional .. | .comment _ | .directive _ => true
  | .element element => element.name = "script" || element.name = "select"
  | _ => false

end MarkupFormat.Annotate
