/-!
# Whitespace flags

What is known about the white space in and around a node.
-/

namespace MarkupFormat.Markup

/-- A fact about the white space of a node. -/
inductive Flag where
  /-- White space was removed before the node. -/
  | leadingSpaces
  /-- White space was removed after the node. -/
  | trailingSpaces
  /-- The node held nothing but white space. -/
  | danglingSpaces
  /-- White space before the node shows. -/
  | leadingSensitive
  /-- White space after the node shows. -/
  | trailingSensitive
  /-- White space that is all of the content shows. -/
  | danglingSensitive
  /-- All white space of the content shows. -/
  | whitespaceSensitive
  /-- The indentation of the content shows. -/
  | indentationSensitive
  /-- The node is printed without an end tag of its own. -/
  | selfClosing
  deriving DecidableEq, Repr, Inhabited

namespace Flag

/-- Every flag in order. -/
def all : List Flag :=
  [leadingSpaces, trailingSpaces, danglingSpaces, leadingSensitive, trailingSensitive,
    danglingSensitive, whitespaceSensitive, indentationSensitive, selfClosing]

/-- The name of a flag in outlines. -/
def name : Flag → String
  | leadingSpaces => "HAS_LEADING_SPACES"
  | trailingSpaces => "HAS_TRAILING_SPACES"
  | danglingSpaces => "HAS_DANGLING_SPACES"
  | leadingSensitive => "LEADING_SPACE_SENSITIVE"
  | trailingSensitive => "TRAILING_SPACE_SENSITIVE"
  | danglingSensitive => "DANGLING_SPACE_SENSITIVE"
  | whitespaceSensitive => "WHITESPACE_SENSITIVE"
  | indentationSensitive => "INDENTATION_SENSITIVE"
  | selfClosing => "SELF_CLOSING"

end Flag

/-- A set of flags. -/
structure Flags where
  leadingSpaces : Bool := false
  trailingSpaces : Bool := false
  danglingSpaces : Bool := false
  leadingSensitive : Bool := false
  trailingSensitive : Bool := false
  danglingSensitive : Bool := false
  whitespaceSensitive : Bool := false
  indentationSensitive : Bool := false
  selfClosing : Bool := false
  deriving DecidableEq, Repr, Inhabited

namespace Flags

/-- Whether a flag is in the set. -/
def has (flags : Flags) : Flag → Bool
  | .leadingSpaces => flags.leadingSpaces
  | .trailingSpaces => flags.trailingSpaces
  | .danglingSpaces => flags.danglingSpaces
  | .leadingSensitive => flags.leadingSensitive
  | .trailingSensitive => flags.trailingSensitive
  | .danglingSensitive => flags.danglingSensitive
  | .whitespaceSensitive => flags.whitespaceSensitive
  | .indentationSensitive => flags.indentationSensitive
  | .selfClosing => flags.selfClosing

/-- The set with one more flag. -/
def add (flags : Flags) : Flag → Flags
  | .leadingSpaces => { flags with leadingSpaces := true }
  | .trailingSpaces => { flags with trailingSpaces := true }
  | .danglingSpaces => { flags with danglingSpaces := true }
  | .leadingSensitive => { flags with leadingSensitive := true }
  | .trailingSensitive => { flags with trailingSensitive := true }
  | .danglingSensitive => { flags with danglingSensitive := true }
  | .whitespaceSensitive => { flags with whitespaceSensitive := true }
  | .indentationSensitive => { flags with indentationSensitive := true }
  | .selfClosing => { flags with selfClosing := true }

/-- The flags of the set in order. -/
def toList (flags : Flags) : List Flag :=
  Flag.all.filter flags.has

/-- Whether white space at an edge of the node, or as its content, shows. -/
def anySensitive (flags : Flags) : Bool :=
  flags.leadingSensitive || flags.trailingSensitive || flags.danglingSensitive

/-- The flags in outlines. -/
def text (flags : Flags) : String :=
  "NodeFlags(" ++ " | ".intercalate (flags.toList.map Flag.name) ++ ")"

end Flags

end MarkupFormat.Markup
