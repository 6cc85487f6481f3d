import MarkupFormat.Markup.Display
import MarkupFormat.Markup.Flags
import MarkupFormat.Markup.FrontMatter
import MarkupFormat.Markup.Span
import MarkupFormat.Markup.Tag

/-!
# Nodes of markup

What a node is and where it was written. `Fragment` joins nodes to trees.
-/

namespace MarkupFormat.Markup

/-- An attribute as written in a start tag. -/
structure Attribute where
  /-- The name as written. -/
  rawName : String
  /-- The value without quotes, if there is one. -/
  value : Option String
  span : Span
  /-- The span of the value within its quotes. -/
  valueSpan : Option Span
  deriving DecidableEq, Repr, Inhabited

/-- What a start tag says. -/
structure Element where
  /-- The name without its namespace. -/
  name : String
  /-- The namespace, written, implied by the name or inherited. -/
  ns : Option String
  /-- Whether the namespace is written. -/
  explicitNs : Bool
  attributes : List Attribute
  tag : Tag
  nameSpan : Span
  /-- The condition of a conditional comment that surrounds the start tag. -/
  condition : Option String := none
  deriving DecidableEq, Repr, Inhabited

namespace Element

/-- The name with its namespace. -/
def fullName (element : Element) : String :=
  match element.ns with
  | some ns => ns ++ ":" ++ element.name
  | none => element.name

/-- The name as it is printed: with the namespace only if that was written. -/
def rawName (element : Element) : String :=
  if element.explicitNs then element.fullName else element.name

/-- The first attribute with a name. -/
def attribute? (element : Element) (name : String) : Option Attribute :=
  element.attributes.find? (·.rawName = name)

def hasAttribute (element : Element) (name : String) : Bool :=
  (element.attribute? name).isSome

/-- The value of the first attribute with a name. -/
def attributeValue? (element : Element) (name : String) : Option String :=
  (element.attribute? name).bind (·.value)

end Element

/-- What a node is. -/
inductive NodeKind where
  | root
  | element (element : Element)
  | text (value : String)
  | comment (value : String)
  | cdata (value : String)
  | doctype (value : String)
  /-- A processing instruction. -/
  | directive (value : String)
  /-- An expression of a template language, which is its only child. -/
  | interpolation
  | frontMatter (block : FrontMatter)
  /-- A conditional comment with its section below it. An incomplete one could not be read and
  has the section as a text. -/
  | conditional (condition : String) (complete : Bool)
  | conditionalStart (condition : String)
  | conditionalEnd
  deriving DecidableEq, Repr, Inhabited

namespace NodeKind

/-- What the kind of a node is called. -/
def typeName : NodeKind → String
  | root => "root"
  | element _ => "element"
  | text _ => "text"
  | comment _ => "comment"
  | cdata _ => "cdata"
  | doctype _ => "docType"
  | directive _ => "directive"
  | interpolation => "interpolation"
  | frontMatter _ => "frontMatter"
  | conditional .. => "ieConditionalComment"
  | conditionalStart _ => "ieConditionalStartComment"
  | conditionalEnd => "ieConditionalEndComment"

/-- The text that a node holds. -/
def value? : NodeKind → Option String
  | text value | comment value | cdata value | doctype value | directive value => some value
  | _ => none

def element? : NodeKind → Option Element
  | element e => some e
  | _ => none

def isElement (kind : NodeKind) : Bool :=
  kind.element?.isSome

/-- The local name of an element. -/
def name? (kind : NodeKind) : Option String :=
  kind.element?.map (·.name)

/-- Whether this is an element with a local name. -/
def isNamed (kind : NodeKind) (name : String) : Bool :=
  kind.name? = some name

def isText : NodeKind → Bool
  | text _ => true
  | _ => false

def isComment : NodeKind → Bool
  | comment _ => true
  | _ => false

def isInterpolation : NodeKind → Bool
  | interpolation => true
  | _ => false

/-- Whether nodes of this kind have children, even if there are none. -/
def canHaveChildren : NodeKind → Bool
  | root | element _ | conditional .. | interpolation => true
  | _ => false

end NodeKind

/-- A node apart from its place in a tree. -/
structure NodeInfo where
  kind : NodeKind
  span : Span
  /-- The span of the start tag, or of what opens a comment with a section. -/
  startSpan : Option Span := none
  /-- The span of the end tag, if one was written; the start tag itself if that closes the
  element. -/
  endSpan : Option Span := none
  display : Display := .inline
  flags : Flags := {}
  deriving DecidableEq, Repr, Inhabited

/-- A node with the nodes below it. -/
inductive Fragment where
  | node (info : NodeInfo) (children : List Fragment)
  deriving Inhabited

namespace Fragment

def info : Fragment → NodeInfo
  | node info _ => info

def children : Fragment → List Fragment
  | node _ children => children

def kind (fragment : Fragment) : NodeKind :=
  fragment.info.kind

def span (fragment : Fragment) : Span :=
  fragment.info.span

/-- A node without children. -/
def leaf (kind : NodeKind) (span : Span) : Fragment :=
  node { kind := kind, span := span } []

mutual

/-- How many nodes a tree has. -/
def size : Fragment → Nat
  | node _ children => 1 + sizes children

/-- How many nodes several trees have. -/
def sizes : List Fragment → Nat
  | [] => 0
  | fragment :: rest => fragment.size + sizes rest

end

end Fragment

end MarkupFormat.Markup
