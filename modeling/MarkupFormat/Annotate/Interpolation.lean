import MarkupFormat.Annotate.Normalize
import MarkupFormat.Text.Bytes
import MarkupFormat.Text.Search

/-!
# Interpolations

Expressions of a template language inside text become nodes of their own, each with its expression
as a text below it. Text of scripts and style sheets is left alone.
-/

namespace MarkupFormat.Annotate

open Markup (Fragment NodeInfo NodeKind Span)
open Text (breakOn byteLength)

/-- A piece of a text. -/
inductive TextPiece where
  | text (cs : List Char)
  | expression (cs : List Char)
  deriving DecidableEq, Repr, Inhabited

/-- The expression at the start of a text, which is not empty, and what follows its closing. -/
def expression? : List Char → Option (List Char × List Char)
  | '{' :: '{' :: c :: cs =>
    (breakOn ['}', '}'] cs).map fun (inner, rest) => (c :: inner, rest)
  | _ => none

theorem length_lt_of_expression? {cs inner rest : List Char}
    (h : expression? cs = some (inner, rest)) : rest.length < cs.length := by
  unfold expression? at h
  split at h
  · obtain ⟨⟨before, after⟩, found, same⟩ := Option.map_eq_some_iff.mp h
    cases same
    have total := congrArg List.length (Text.eq_of_breakOn found)
    simp only [List.length_append, List.length_cons, List.length_nil] at total ⊢
    omega
  · cases h

/-- One more character before the first piece of text. -/
def consPiece (c : Char) : List TextPiece → List TextPiece
  | .text cs :: pieces => .text (c :: cs) :: pieces
  | pieces => .text [c] :: pieces

/-- The pieces of a text, none of them empty. -/
def textPieces : List Char → List TextPiece
  | [] => []
  | c :: cs =>
    match _h : expression? (c :: cs) with
    | some (inner, rest) => .expression inner :: textPieces rest
    | none => consPiece c (textPieces cs)
  termination_by cs => cs.length
  decreasing_by
    · exact length_lt_of_expression? _h
    · simp

namespace TextPiece

def isExpression : TextPiece → Bool
  | expression _ => true
  | text _ => false

/-- The bytes that a piece takes in the source, delimiters included. -/
def bytes : TextPiece → Nat
  | text cs => byteLength cs
  | expression cs => 2 + byteLength cs + 2

/-- The node of a piece that begins at an offset. -/
def node (start : Nat) (piece : TextPiece) : Fragment :=
  let span : Span := ⟨start, start + piece.bytes⟩
  match piece with
  | text cs => .leaf (.text (String.ofList cs)) span
  | expression cs =>
    .node { kind := .interpolation, span := span }
      [.leaf (.text (String.ofList cs)) ⟨start + 2, start + 2 + byteLength cs⟩]

/-- The nodes of pieces that begin at an offset. -/
def nodes (start : Nat) : List TextPiece → List Fragment
  | [] => []
  | piece :: rest => piece.node start :: nodes (start + piece.bytes) rest

end TextPiece

/-- Whether a node is a text with an expression in it. -/
def hasExpression (fragment : Fragment) : Bool :=
  match fragment.kind with
  | .text value => (textPieces value.toList).any TextPiece.isExpression
  | _ => false

/-- The nodes that stand for a node: the pieces of a text, or the node itself. -/
def splitText (fragment : Fragment) : List Fragment :=
  match fragment.kind with
  | .text value => TextPiece.nodes fragment.span.start (textPieces value.toList)
  | _ => [fragment]

/-- Whether the children of a node are split. -/
def splits (info : NodeInfo) (children : List Fragment) : Bool :=
  info.kind.canHaveChildren && !isScriptLike info.kind && children.any hasExpression

/-- Makes expressions nodes of their own. -/
def splitInterpolations (fragment : Fragment) : Fragment :=
  fragment.mapChildren fun info children =>
    if splits info children then children.flatMap splitText else children

mutual

/-- How many nodes `splitInterpolations` makes. -/
def splitCount : Fragment → Nat
  | .node info children =>
    splitCounts children +
      if splits info children then
        Fragment.sizes ((children.filter (·.kind.isText)).flatMap splitText)
      else 0

/-- How many nodes it makes in several trees. -/
def splitCounts : List Fragment → Nat
  | [] => 0
  | fragment :: rest => splitCount fragment + splitCounts rest

end

end MarkupFormat.Annotate
