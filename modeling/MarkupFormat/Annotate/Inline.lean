import MarkupFormat.Annotate.Normalize
import MarkupFormat.Text.Blank

/-!
# Simple elements inside text

A short element without attributes that touches the text on both sides becomes part of that text,
so that no line is broken inside it.
-/

namespace MarkupFormat.Annotate

open Markup (Element Flags Fragment NodeInfo NodeKind Span)

/-- Whether white space was removed on either side of a node. -/
def hasSpaces (flags : Flags) : Bool :=
  flags.leadingSpaces || flags.trailingSpaces

/-- The element and its text, if that is all it holds and nothing around it may move. -/
def simpleElement? (fragment : Fragment) : Option (Element × String) :=
  match fragment.kind, fragment.children with
  | .element element, [only] =>
    match only.kind with
    | .text value =>
      if element.attributes.isEmpty && !value.toList.any Text.isMarkupSpace &&
          !hasSpaces only.info.flags && fragment.info.flags.leadingSensitive &&
          fragment.info.flags.trailingSensitive && !hasSpaces fragment.info.flags then
        some (element, value)
      else none
    | _ => none
  | _, _ => none

/-- The end tag of a simple element: as written if it has no name, and with its name otherwise. -/
def endTagText (source : List Char) (element : Element) (endSpan : Option Span) : String :=
  match endSpan with
  | some span => if span.slice source = "<//>" then "<//>" else "</" ++ element.rawName ++ ">"
  | none => "</" ++ element.rawName ++ ">"

/-- The text that stands for a text, a simple element and a text. -/
def mergedText? (source : List Char) (before fragment after : Fragment) : Option Fragment := do
  let (element, inner) ← simpleElement? fragment
  let .text first := before.kind | none
  let .text last := after.kind | none
  some (.node
    { kind := .text (first ++ "<" ++ element.rawName ++ ">" ++ inner ++
        endTagText source element fragment.info.endSpan ++ last)
      span := ⟨before.span.start, after.span.stop⟩
      display := before.info.display
      flags :=
        { selfClosing := true
          leadingSpaces := before.info.flags.leadingSpaces
          leadingSensitive := before.info.flags.leadingSensitive
          trailingSpaces := after.info.flags.trailingSpaces
          trailingSensitive := after.info.flags.trailingSensitive } } [])

/-- Merges simple elements with the texts around them. A text that came from a merge takes part in
no other. -/
def mergeSimple (source : List Char) : List Fragment → List Fragment
  | before :: fragment :: after :: rest =>
    match mergedText? source before fragment after with
    | some text => text :: mergeSimple source rest
    | none => before :: mergeSimple source (fragment :: after :: rest)
  | nodes => nodes

/-- Merges the simple elements of a tree with the texts around them. -/
def mergeSimpleElements (source : List Char) (fragment : Fragment) : Fragment :=
  fragment.mapChildren fun _ children => mergeSimple source children

end MarkupFormat.Annotate
