import MarkupFormat.Layout.Doc
import MarkupFormat.Text.Blank

/-!
# Building documents

`Build` issues the marks of new nodes and the ids of groups, and fails where a node would be
malformed. Each builder makes one new node; a node used twice stays one node.
-/

namespace MarkupFormat.Layout

/-- What is free for the next node and the next group id. -/
structure Supply where
  mark : Mark := 0
  group : Nat := 1
  deriving Repr, Inhabited

/-- Computations that make new nodes. -/
abbrev Build := StateT Supply (Except DocError)

namespace Build

/-- A mark that no node has yet. -/
def freshMark : Build Mark :=
  modifyGet fun supply => (supply.mark, { supply with mark := supply.mark + 1 })

/-- An id that no group has yet. -/
def freshGroup (name : String) : Build GroupId :=
  modifyGet fun supply => (⟨supply.group, name⟩, { supply with group := supply.group + 1 })

/-- The value of a computation started from a new supply. -/
def run' {ε α : Type} (build : StateT Supply (Except ε) α) : Except ε α :=
  (·.1) <$> build.run {}

def text (content : String) : Build Doc := do
  return .text (← freshMark) content

/-- The document that lays out nothing. -/
def empty : Build Doc :=
  text ""

def concat (parts : List Doc) : Build Doc := do
  return .concat (← freshMark) parts

/-- The concatenation of documents that are built in order. -/
def seq (parts : List (Build Doc)) : Build Doc := do
  concat (← parts.mapM id)

def indent (body : Doc) : Build Doc := do
  return .indent (← freshMark) body

def align (kind : AlignKind) (body : Doc) : Build Doc := do
  return .align (← freshMark) kind body

/-- Undoes the innermost indentation in `body`. -/
def dedent (body : Doc) : Build Doc :=
  align .dedent body

/-- Lays out `body` from the nearest root. -/
def dedentToRoot (body : Doc) : Build Doc :=
  align .dedentToRoot body

/-- Makes the current indentation the root for `body`. -/
def markAsRoot (body : Doc) : Build Doc :=
  align .markAsRoot body

/-- A group that may have an id and may have to break. -/
def groupWith (body : Doc) (id : Option GroupId) (mustBreak : Bool) : Build Doc := do
  return .group (← freshMark) ⟨id, mustBreak⟩ body

def group (body : Doc) : Build Doc :=
  groupWith body none false

/-- A group that tries `alternatives` in order, the most compact first. -/
def choiceWith (alternatives : List Doc) (id : Option GroupId) (mustBreak : Bool) : Build Doc :=
  match alternatives with
  | [] => throw .noAlternatives
  | first :: others => do return .choice (← freshMark) ⟨id, mustBreak⟩ first first others

def choice (alternatives : List Doc) : Build Doc :=
  choiceWith alternatives none false

/-- The first odd place of `parts`, counted from `index`, that holds no line break. -/
def badSeparator? (index : Nat) : List Doc → Option (Nat × Doc)
  | _ :: separator :: parts =>
    if separator.isLineSeparator then badSeparator? (index + 2) parts
    else some (index + 1, separator)
  | _ => none

/-- Contents and line breaks in turn. -/
def fill (parts : List Doc) : Build Doc :=
  match badSeparator? 0 parts with
  | some (index, found) => throw (.fillSeparator index found.typeName)
  | none => do return .fill (← freshMark) parts

/-- One of two bodies, by how the group with the given id, or else the enclosing one, is laid
out. -/
def ifBreakFor (broken flat : Doc) (id : Option GroupId) : Build Doc := do
  return .ifBreak (← freshMark) broken flat id

def ifBreak (broken flat : Doc) : Build Doc :=
  ifBreakFor broken flat none

def indentIfBreak (body : Doc) (id : GroupId) (negate : Bool) : Build Doc := do
  return .indentIfBreak (← freshMark) body id negate

def bareLine (kind : LineKind) : Build Doc := do
  return .line (← freshMark) kind

def line : Build Doc :=
  bareLine .plain

def softline : Build Doc :=
  bareLine .soft

def breakParent : Build Doc := do
  return .breakParent (← freshMark)

/-- A new line that breaks the groups around it. -/
def hardline : Build Doc := do
  let line ← bareLine .hard
  concat [line, ← breakParent]

/-- A new line without indentation that breaks the groups around it. -/
def literalline : Build Doc := do
  let line ← bareLine .literal
  concat [line, ← breakParent]

def trim : Build Doc := do
  return .trim (← freshMark)

def label (name : String) (body : Doc) : Build Doc := do
  return .label (← freshMark) name body

/-- The lines of `content` as texts with `separator` between them. -/
def splitLines (content : String) (separator : Doc) : Build (List Doc) := do
  return (← (Text.splitOn (· = '\n') content).mapM text).intersperse separator

end Build

end MarkupFormat.Layout
