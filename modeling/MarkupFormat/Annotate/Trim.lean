import MarkupFormat.Annotate.Normalize
import MarkupFormat.Text.Bytes

/-!
# Trimming text

White space around the texts of a node is removed, and flags keep where it was. Nodes whose white
space shows keep their text.
-/

namespace MarkupFormat.Annotate

open Markup (Flag Flags Fragment NodeInfo NodeKind Span)
open Text (byteLength isMarkupSpace)

/-- The node with one more flag. -/
def withFlag (flag : Flag) : Fragment → Fragment
  | .node info children => .node { info with flags := info.flags.add flag } children

/-- Flags the first of some nodes, if the condition holds. -/
def flagFirst (flag : Flag) (condition : Bool) : List Fragment → List Fragment
  | node :: rest => (if condition then withFlag flag node else node) :: rest
  | [] => []

/-- A text without the white space around it. Its flags tell on which sides there was some. -/
def trimmedText (info : NodeInfo) (value : List Char) (inner : List Fragment) : Fragment :=
  let leading := value.takeWhile isMarkupSpace
  let trailing := Text.takeEnd isMarkupSpace value
  .node
    { info with
      kind := .text (String.ofList (Text.dropEnds isMarkupSpace value))
      span := ⟨info.span.start + byteLength leading, info.span.stop - byteLength trailing⟩
      flags :=
        { info.flags with
          leadingSpaces := info.flags.leadingSpaces || leading ≠ []
          trailingSpaces := info.flags.trailingSpaces || trailing ≠ [] } }
    inner

/-- Trims the texts of a list, given the nodes kept before it, the last one first. -/
def trimTexts (kept : List Fragment) : List Fragment → List Fragment
  | [] => kept.reverse
  | .node info inner :: rest =>
    match info.kind with
    | .text value =>
      let cs := value.toList
      if cs.all isMarkupSpace then
        trimTexts (flagFirst .trailingSpaces (cs ≠ []) kept)
          (flagFirst .leadingSpaces (cs ≠ []) rest)
      else
        let leading := cs.takeWhile isMarkupSpace
        let trailing := Text.takeEnd isMarkupSpace cs
        trimTexts
          (trimmedText info cs inner :: flagFirst .trailingSpaces (leading ≠ []) kept)
          (flagFirst .leadingSpaces (trailing ≠ []) rest)
    | _ => trimTexts (.node info inner :: kept) rest
  termination_by nodes => nodes.length
  decreasing_by
    all_goals
      have length (condition : Bool) :
          (flagFirst .leadingSpaces condition rest).length = rest.length := by
        cases rest <;> rfl
      simp [length]

/-- Whether children amount to nothing but white space. -/
def isBlankContent : List Fragment → Bool
  | [] => true
  | [only] =>
    match only.kind with
    | .text value => value.toList.all isMarkupSpace
    | _ => false
  | _ => false

/-- A node whose texts are trimmed, if its white space does not show. -/
def trimNode (info : NodeInfo) (children : List Fragment) : Fragment :=
  if !info.kind.canHaveChildren then .node info children
  else if isBlankContent children then
    .node { info with flags := { info.flags with danglingSpaces := children ≠ [] } } []
  else
    let sensitive := isWhitespaceSensitive info.kind
    .node
      { info with
        flags :=
          { info.flags with
            whitespaceSensitive := sensitive
            indentationSensitive := isIndentationSensitive info.kind } }
      (if sensitive then children else trimTexts [] children)

/-- Trims all texts of a tree. -/
def trimText (fragment : Fragment) : Fragment :=
  fragment.bottomUp trimNode

end MarkupFormat.Annotate
