import MarkupFormat.Annotate.Style
import MarkupFormat.Text.Blank

/-!
# Normal trees

Steps that bring a tree as read into the form that the rest works on. Each treats the children of
one node at a time, after the nodes below them: line feeds that do not count are dropped,
conditional comments around a start tag become part of the element, and sections of character
data become text.
-/

namespace MarkupFormat.Markup.Fragment

mutual

/-- Makes every node anew from what it is and from the new nodes below it. -/
def bottomUp (make : NodeInfo → List Fragment → Fragment) : Fragment → Fragment
  | .node info children => make info (bottomUpAll make children)

/-- Makes every node of several trees anew. -/
def bottomUpAll (make : NodeInfo → List Fragment → Fragment) : List Fragment → List Fragment
  | [] => []
  | fragment :: rest => fragment.bottomUp make :: bottomUpAll make rest

end

/-- Applies a change of the children to every node, from the leaves upwards. The change sees the
node whose children they are. -/
def mapChildren (change : NodeInfo → List Fragment → List Fragment) (fragment : Fragment) :
    Fragment :=
  fragment.bottomUp fun info children => .node info (change info children)

end MarkupFormat.Markup.Fragment

namespace MarkupFormat.Annotate

open Markup (Fragment NodeInfo NodeKind Span)

/-- Whether a line feed right after the start tag of a node does not count. -/
def ignoresFirstLineFeed (kind : NodeKind) : Bool :=
  match kind with
  | .element element => element.tag.ignoresFirstLineFeed
  | _ => false

/-- The children without a line feed that begins them. -/
def dropLineFeed : List Fragment → List Fragment
  | .node info inner :: rest =>
    match info.kind with
    | .text value =>
      match value.toList with
      | ['\n'] => rest
      | '\n' :: cs =>
        .node { info with
          kind := .text (String.ofList cs)
          span := { info.span with start := info.span.start + 1 } } inner :: rest
      | _ => .node info inner :: rest
    | _ => .node info inner :: rest
  | [] => []

/-- Drops the line feeds after start tags that do not count. -/
def dropFirstLineFeeds (fragment : Fragment) : Fragment :=
  fragment.mapChildren fun info children =>
    if ignoresFirstLineFeed info.kind then dropLineFeed children else children

/-- The element with its condition, if `before` starts a conditional section at its start tag and
the element begins with the end of that section. -/
def withCondition? (before : Fragment) (element : Fragment) : Option Fragment := do
  let .conditionalStart condition := before.kind | none
  let .element e := element.kind | none
  let startSpan ← element.info.startSpan
  let finish :: inner := element.children | none
  let .conditionalEnd := finish.kind | none
  if before.span.stop = startSpan.start ∧ finish.span.start = startSpan.stop then
    some (.node
      { element.info with
        kind := .element { e with condition := some condition }
        startSpan := some ⟨before.span.start, finish.span.stop⟩
        span := { element.span with start := before.span.start } } inner)
  else none

/-- Joins the starts of conditional sections to the elements after them. -/
def joinConditions : List Fragment → List Fragment
  | before :: element :: rest =>
    match withCondition? before element with
    | some joined => joined :: joinConditions rest
    | none => before :: joinConditions (element :: rest)
  | rest => rest

/-- Makes conditional comments around start tags part of their elements. -/
def foldConditions (fragment : Fragment) : Fragment :=
  fragment.mapChildren fun _ children => joinConditions children

/-- The text that stands for a text or for character data. -/
def textOf? (kind : NodeKind) : Option String :=
  match kind with
  | .text value => some value
  | .cdata value => some ("<![CDATA[" ++ value ++ "]]>")
  | _ => none

/-- Joins adjacent texts, character data among them. -/
def joinTexts : List Fragment → List Fragment
  | [] => []
  | .node info inner :: rest =>
    match textOf? info.kind with
    | none => .node info inner :: joinTexts rest
    | some value =>
      match joinTexts rest with
      | .node next below :: later =>
        match next.kind with
        | .text more =>
          .node { info with
            kind := .text (value ++ more)
            span := ⟨info.span.start, next.span.stop⟩ } inner :: later
        | _ => .node { info with kind := .text value } inner :: .node next below :: later
      | [] => [.node { info with kind := .text value } inner]

/-- Whether a node is character data. -/
def isCdata (fragment : Fragment) : Bool :=
  match fragment.kind with
  | .cdata _ => true
  | _ => false

/-- Turns character data into text that is joined with the texts around it. -/
def mergeCdata (fragment : Fragment) : Fragment :=
  fragment.mapChildren fun _ children =>
    if children.any isCdata then joinTexts children else children

end MarkupFormat.Annotate
