import MarkupFormat.Markup.Lexeme

/-!
# Open elements

While a source is read, elements stay open until a tag ends them. A tag may end elements other
than the one it names: a start tag ends an element that cannot hold it, and an end tag ends the
elements inside the one it names, if these may stay open.
-/

namespace MarkupFormat.Markup

/-- The namespace of an element that is named inside of `parent`, and whether it is written. -/
def TagName.namespaceIn (name : TagName) (parent : Option Element) : Option String × Bool :=
  match name.qualifier with
  | some qualifier => (some qualifier, true)
  | none =>
    match (Tag.ofName name.name).implicitNamespace with
    | some implied => (some implied, false)
    | none =>
      match parent with
      | some parent => (if parent.tag.stopsNamespace then none else parent.ns, false)
      | none => (none, false)

/-- The element that a start tag inside of `parent` opens. -/
def StartTag.elementIn (tag : StartTag) (parent : Option Element) : Element :=
  let name := tag.name.name
  let (ns, explicitNs) := tag.name.namespaceIn parent
  { name := name
    ns := ns
    explicitNs := explicitNs
    attributes := tag.attributes
    tag := Tag.ofElement name ns
    nameSpan := tag.nameSpan }

/-- Whether the content of an element is raw text. -/
def Element.hasRawContent (element : Element) : Bool :=
  (Tag.ofName element.name).contentType element.ns ≠ .parsable

/-- An element that is not ended, with what was read inside it, the last node first. -/
structure OpenElement where
  element : Element
  startSpan : Span
  children : List Fragment := []
  deriving Inhabited

/-- Where the element ends if no end tag was written: at its last child, or at its start tag. -/
def OpenElement.impliedStop (opened : OpenElement) : Nat :=
  match opened.children with
  | [] => opened.startSpan.stop
  | last :: _ => max opened.startSpan.stop last.span.stop

/-- The element, ended by the end tag at `endSpan`, or by something else. -/
def OpenElement.close (opened : OpenElement) (endSpan : Option Span) : Fragment :=
  let stop :=
    match endSpan with
    | some span => span.stop
    | none => opened.impliedStop
  .node
    { kind := .element opened.element
      span := ⟨opened.startSpan.start, stop⟩
      startSpan := some opened.startSpan
      endSpan := endSpan }
    opened.children.reverse

/-- What was read so far: the open elements, the innermost first, and the nodes outside of them,
the last one first. -/
structure OpenElements where
  stack : List OpenElement := []
  nodes : List Fragment := []
  deriving Inhabited

namespace OpenElements

/-- Adds a node inside the innermost open element. -/
def add (opened : OpenElements) (node : Fragment) : OpenElements :=
  match opened.stack with
  | [] => { opened with nodes := node :: opened.nodes }
  | innermost :: outer =>
    { opened with stack := { innermost with children := node :: innermost.children } :: outer }

/-- Ends the innermost element. -/
def close (opened : OpenElements) (endSpan : Option Span) : OpenElements :=
  match opened.stack with
  | [] => opened
  | innermost :: outer => { opened with stack := outer }.add (innermost.close endSpan)

theorem length_stack_add (opened : OpenElements) (node : Fragment) :
    (opened.add node).stack.length = opened.stack.length := by
  unfold add; split <;> simp_all

theorem length_stack_close (opened : OpenElements) (endSpan : Option Span) :
    (opened.close endSpan).stack.length = opened.stack.length - 1 := by
  unfold close
  split
  · simp_all
  · next same => rw [length_stack_add, same]; rfl

/-- Ends every element without an end tag. -/
def closeAll (opened : OpenElements) : OpenElements :=
  if opened.stack = [] then opened else (opened.close none).closeAll
  termination_by opened.stack.length
  decreasing_by
    rw [length_stack_close]
    have := List.length_pos_iff.mpr ‹_›
    omega

/-- The nodes that were read, once everything is ended. -/
def finish (opened : OpenElements) : List Fragment :=
  opened.closeAll.nodes.reverse

/-- The innermost open element. -/
def innermost? (opened : OpenElements) : Option Element :=
  opened.stack.head?.map (·.element)

/-- The namespace of an element that is named here, and whether it is written. -/
def namespaceOf (opened : OpenElements) (name : TagName) : Option String × Bool :=
  name.namespaceIn opened.innermost?

/-- Ends the innermost element that has the given name and those inside it, unless one of these
may not stay open. -/
def closeNamed? (opened : OpenElements) (name : String) (ns : Option String) (endSpan : Span) :
    Option OpenElements :=
  match _h : opened.stack with
  | [] => none
  | innermost :: _ =>
    if innermost.element.name = name ∧ innermost.element.ns = ns then
      some (opened.close (some endSpan))
    else if innermost.element.tag.closedByParent then
      (opened.close none).closeNamed? name ns endSpan
    else none
  termination_by opened.stack.length
  decreasing_by rw [length_stack_close, _h]; simp

/-- Follows an end tag. -/
def endTag (opened : OpenElements) (tag : EndTag) : Except Failure OpenElements :=
  if tag.name.qualifier.isNone && (Tag.ofName tag.name.name).isVoid then
    .error ⟨.voidEnd tag.name.name, tag.span⟩
  else
    match opened.closeNamed? tag.name.name (opened.namespaceOf tag.name).1 tag.span with
    | some opened => .ok opened
    | none => .error ⟨.unmatchedEnd tag.name.written, tag.span⟩

/-- Follows an end tag without a name. -/
def componentEnd (opened : OpenElements) (span : Span) : Except Failure OpenElements :=
  if opened.stack.isEmpty then .error ⟨.nothingToClose, span⟩ else .ok (opened.close (some span))

/-- Follows a start tag. The answer tells whether the content of the element is raw text, which is
then to be read up to its end tag. -/
def startTag (opened : OpenElements) (tag : StartTag) : OpenElements × Bool :=
  let element := tag.elementIn opened.innermost?
  let opened :=
    match opened.innermost? with
    | some parent => if parent.tag.isClosedBy tag.name.name then opened.close none else opened
    | none => opened
  if tag.selfClosing || element.tag.isVoid then
    (opened.add (.node
      { kind := .element element
        span := tag.span
        startSpan := some tag.span
        endSpan := if tag.selfClosing then some tag.span else none } []), false)
  else
    ({ opened with stack := { element := element, startSpan := tag.span } :: opened.stack },
      element.hasRawContent)

end OpenElements

end MarkupFormat.Markup
