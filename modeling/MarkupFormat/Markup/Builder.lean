import MarkupFormat.Markup.Parse
import MarkupFormat.Markup.Tree

/-!
# Building trees

`Tree.ofSource` reads a source into a table of nodes. A node enters the table as soon as its beginning is read,
below the innermost element that is open then, and is changed when its end tag is read. What a section of a
conditional comment added to the table is dropped again if the section cannot be read.
-/

namespace MarkupFormat.Markup

open Text (byteLength)

/-- A node ends no earlier than its last child, if it is an element without an end tag. -/
def NodeInfo.extendTo (info : NodeInfo) (stop : Option Nat) : NodeInfo :=
  if info.kind.isElement && info.endSpan.isNone then
    { info with span := ⟨info.span.start, max info.span.stop (stop.getD info.span.stop)⟩ }
  else info

namespace Tree

/-- Drops the nodes after the first `count`. -/
def truncate (tree : Tree) (count : Nat) : Tree :=
  { tree with nodes := tree.nodes.take count }

/-- Ends an element with an end tag. -/
def endElement (tree : Tree) (id : NodeId) (endSpan : Span) : Tree :=
  tree.modify id fun node =>
    { node with span := ⟨node.span.start, endSpan.stop⟩, endSpan := some endSpan }

/-- Extends an element without an end tag to its last child. -/
def extendSpan (tree : Tree) (id : NodeId) : Tree :=
  let stop := (tree.lastChild? id).map fun last => (tree.node last).span.stop
  tree.modify id fun node => { node with toNodeInfo := node.toNodeInfo.extendTo stop }

/-- Extends the elements without end tags. The last node comes first, so children are extended
before their parents. -/
def extendSpans (tree : Tree) : Tree :=
  tree.ids.foldr (fun id tree => tree.extendSpan id) tree

/-- The open elements, the innermost first, from the one on that an end tag with the given name
ends. -/
def closedBy? (tree : Tree) (name : String) (ns : Option String) : List NodeId → Option (List NodeId)
  | [] => none
  | id :: outer =>
    match (tree.kind id).element? with
    | none => none
    | some element =>
      if element.name = name ∧ element.ns = ns then some (id :: outer)
      else if element.tag.closedByParent then tree.closedBy? name ns outer
      else none

end Tree

/-- A tree in the making. -/
structure Builder where
  tree : Tree
  /-- The node that holds what is outside of the open elements. -/
  base : NodeId
  /-- The open elements, the innermost first. -/
  opened : List NodeId := []

namespace Builder

/-- The node that holds what is read next. -/
def container (builder : Builder) : NodeId :=
  builder.opened.head?.getD builder.base

/-- Adds a node and tells its number. -/
def append (builder : Builder) (info : NodeInfo) : Builder × NodeId :=
  let (tree, id) := builder.tree.append builder.container { toNodeInfo := info }
  ({ builder with tree := tree }, id)

/-- Adds a node without content. -/
def add (builder : Builder) (info : NodeInfo) : Builder :=
  (builder.append info).1

/-- The innermost open element. -/
def innermost? (builder : Builder) : Option Element :=
  builder.opened.head?.bind fun id => (builder.tree.kind id).element?

/-- Ends the innermost element without an end tag. -/
def leave (builder : Builder) : Builder :=
  { builder with opened := builder.opened.tail }

/-- Ends the innermost element with an end tag. -/
def close (builder : Builder) (endSpan : Span) : Builder :=
  match builder.opened with
  | [] => builder
  | innermost :: outer =>
    { builder with tree := builder.tree.endElement innermost endSpan, opened := outer }

/-- Follows an end tag. -/
def endTag (builder : Builder) (tag : EndTag) : Except Failure Builder :=
  if tag.name.qualifier.isNone && (Tag.ofName tag.name.name).isVoid then
    .error ⟨.voidEnd tag.name.name, tag.span⟩
  else
    let ns := (tag.name.namespaceIn builder.innermost?).1
    match builder.tree.closedBy? tag.name.name ns builder.opened with
    | some opened => .ok ({ builder with opened := opened }.close tag.span)
    | none => .error ⟨.unmatchedEnd tag.name.written, tag.span⟩

/-- Follows an end tag without a name. -/
def componentEnd (builder : Builder) (span : Span) : Except Failure Builder :=
  if builder.opened.isEmpty then .error ⟨.nothingToClose, span⟩ else .ok (builder.close span)

/-- Follows a start tag. The answer tells whether the content of the element is raw text. -/
def startTag (builder : Builder) (tag : StartTag) : Builder × Bool :=
  let element := tag.elementIn builder.innermost?
  let builder :=
    match builder.innermost? with
    | some parent => if parent.tag.isClosedBy tag.name.name then builder.leave else builder
    | none => builder
  let (builder, id) := builder.append
    { kind := .element element
      span := tag.span
      startSpan := some tag.span
      endSpan := if tag.selfClosing then some tag.span else none }
  if tag.selfClosing || element.tag.isVoid then (builder, false)
  else ({ builder with opened := id :: builder.opened }, element.hasRawContent)

/-- Reads raw text and the end tag after it. -/
def readRawContent (builder : Builder) (name : String) (cursor : Cursor) :
    Builder × Except Failure Cursor :=
  let (value, rest) := readRaw name.toList cursor.rest
  let next := cursor.skip value rest
  let builder :=
    if value = [] then builder
    else builder.add { kind := .text (String.ofList value), span := cursor.spanTo next }
  if rest = [] then (builder, .ok next)
  else
    match readEndTag next with
    | .ok (tag, last) => (builder.close tag.span, .ok last)
    | .error failure => (builder, .error failure)

/-- Follows a start tag, and reads the content of the element if that is raw text. -/
def readElement (builder : Builder) (tag : StartTag) (cursor : Cursor) :
    Builder × Except Failure Cursor :=
  match builder.startTag tag with
  | (builder, true) => builder.readRawContent tag.name.name cursor
  | (builder, false) => (builder, .ok cursor)

/-- Follows a lexeme that is neither a start tag nor a comment. -/
def follow (builder : Builder) : Lexeme → Except Failure Builder
  | .text value span => .ok (builder.add { kind := .text (String.ofList value), span := span })
  | .cdata value span => .ok (builder.add { kind := .cdata (String.ofList value), span := span })
  | .doctype value span => .ok (builder.add { kind := .doctype (String.ofList value), span := span })
  | .directive value span => .ok (builder.add { kind := .directive (String.ofList value), span := span })
  | .endTag tag => builder.endTag tag
  | .componentEnd span => builder.componentEnd span
  | .comment .. | .startTag _ => .ok builder

/-- Drops what was read of the section of a conditional comment, and keeps the section as a text. -/
def keepSection (tree : Tree) (id : NodeId) (checkpoint : Nat) (condition : String) (body : List Char)
    (span : Span) : Tree :=
  let cleared := (tree.truncate checkpoint).modify id fun node =>
    { node with kind := .conditional condition false, children := [] }
  (cleared.append id { kind := .text (String.ofList body), span := span }).1

/-- Goes on after the section of the conditional comment that was added last. -/
def endSection (builder : Builder) (id : NodeId) (condition : String) (body : List Char) (span : Span) :
    Builder × Except Failure Unit → Builder
  | (inner, .ok ()) => { builder with tree := inner.tree }
  | (inner, .error _) =>
    { builder with tree := keepSection inner.tree id builder.tree.size condition body span }

theorem length_readElement_le {builder after : Builder} {tag : StartTag} {cursor next : Cursor}
    (h : builder.readElement tag cursor = (after, .ok next)) :
    next.rest.length ≤ cursor.rest.length := by
  unfold readElement at h
  split at h
  · unfold readRawContent at h
    have total := congrArg List.length (readRaw_append tag.name.name.toList cursor.rest)
    rw [List.length_append] at total
    dsimp only at h
    split at h
    · cases h
      simp only [Cursor.skip]
      omega
    · split at h
      · next found =>
        cases h
        have := length_readEndTag_lt found
        simp only [Cursor.skip] at this
        omega
      · cases h
  · cases h
    exact Nat.le_refl _

/-- Reads up to the end of the input. Also after a failure, there is what was built so far. -/
def read (options : ParseOptions) (builder : Builder) (cursor : Cursor) : Builder × Except Failure Unit :=
  if _nonempty : cursor.rest = [] then (builder, .ok ())
  else
    match _read : readLexeme options cursor with
    | .error failure => (builder, .error failure)
    | .ok (.startTag tag, next) =>
      match _element : builder.readElement tag next with
      | (builder, .error failure) => (builder, .error failure)
      | (builder, .ok next) => builder.read options next
    | .ok (.comment value span, next) =>
      match _found : conditionalOf? options value with
      | some (.block condition before body) =>
        let (builder, id) := builder.append (conditionalInfo span condition before body true)
        let inner := { tree := builder.tree, base := id : Builder }
        let read := inner.read options ⟨sectionStart span before, body⟩
        (builder.endSection id condition body (sectionSpan span before body) read).read options next
      | kind => (builder.add (commentNode span value kind).info).read options next
    | .ok (lexeme, next) =>
      match builder.follow lexeme with
      | .error failure => (builder, .error failure)
      | .ok builder => builder.read options next
  termination_by cursor.rest.length
  decreasing_by
    · exact Nat.lt_of_le_of_lt (length_readElement_le _element) (readLexeme_lt _nonempty _read).1
    · have := (readLexeme_lt _nonempty _read).2 value span rfl
      have : body.length ≤ value.length := by
        unfold conditionalOf? at _found
        split at _found
        · exact ConditionalComment.length_block_le _found
        · cases _found
      omega
    · exact (readLexeme_lt _nonempty _read).1
    · exact (readLexeme_lt _nonempty _read).1
    · exact (readLexeme_lt _nonempty _read).1

/-- The tree that was built: elements without end tags are extended, and all nodes are linked. -/
def finish (builder : Builder) : Tree :=
  builder.tree.extendSpans.relink

end Builder

namespace Tree

/-- The tree of a source, or the first failure. -/
def read (options : ParseOptions) (source : String) : Except Failure Tree :=
  let chars := source.toList
  let block := if options.frontMatter then FrontMatter.parse? chars else none
  let builder : Builder := { tree := .empty source, base := rootId }
  let (builder, result) :=
    match block with
    | some block =>
      let raw := block.raw.toList
      let length := byteLength raw
      (builder.add { kind := .frontMatter block, span := ⟨0, length⟩ }).read options
        ⟨length, chars.drop raw.length⟩
    | none => builder.read options ⟨0, chars⟩
  result.map fun _ => builder.finish

/-- Reads the tree of a source, whose nodes are numbered in the order in which they are written. -/
def ofSource (source : String) (options : ParseOptions) : Except ParseError Tree :=
  let chars := source.toList
  let bytes := byteLength chars
  let result :=
    if maxSourceBytes < bytes then .error ⟨.tooLarge bytes, ⟨0, 0⟩⟩ else read options source
  result.mapError (ParseError.place chars (LineIndex.build chars))

end Tree

end MarkupFormat.Markup
