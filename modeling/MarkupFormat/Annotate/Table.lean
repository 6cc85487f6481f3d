import MarkupFormat.Annotate.Annotated
import MarkupFormat.Markup.Builder

/-!
# Annotating a table

`Tree.annotate` reads a source into a table of nodes and annotates it there. Each step goes over the nodes that are
reached from the root, those below a node before it, and changes the table at one of them after the other. Nodes are
added to the table or left out of a list of children, but none is taken from it. Links are made anew after a step that
changed lists of children.
-/

namespace MarkupFormat.Markup

namespace Outline

mutual

/-- The nodes, those below a node before it. -/
def postOrder : Outline → List NodeId
  | node id inner => postOrderAll inner ++ [id]

/-- The nodes of several outlines, those below a node before it. -/
def postOrderAll : List Outline → List NodeId
  | [] => []
  | outline :: outlines => outline.postOrder ++ postOrderAll outlines

end

end Outline

namespace Tree

open Annotate (dropLineFeed hasExpression ignoresFirstLineFeed isBlankContent isCdata isWhitespaceSensitive mergedText?
  splitText splits textOf? trimNode trimmedText withCondition?)
open Format (Options Sensitivity)
open Text (isMarkupSpace)

variable (tree : Tree)

/-- Changes what a node is. -/
def modifyInfo (id : NodeId) (change : NodeInfo → NodeInfo) : Tree :=
  tree.modify id fun node => { node with toNodeInfo := change node.toNodeInfo }

/-- Gives a node other children. -/
def setChildren (id : NodeId) (children : List NodeId) : Tree :=
  tree.modify id fun node => { node with children := children }

/-- A node without what is below it. -/
def bare (id : NodeId) : Fragment :=
  .node (tree.node id).toNodeInfo []

/-- A node with its children, without what is below these. -/
def family (id : NodeId) : Fragment :=
  .node (tree.node id).toNodeInfo ((tree.children id).map tree.bare)

/-- Changes the table at every node that is reached from the root, those below a node before it. -/
def sweep (step : Tree → NodeId → Tree) : Tree :=
  (tree.outline rootId).postOrder.foldl step tree

/-! ### Normal trees -/

/-- Drops the line feed that begins a node, if it does not count. -/
def dropLineFeedAt (id : NodeId) : Tree :=
  match tree.firstChild? id with
  | none => tree
  | some first =>
    if ignoresFirstLineFeed (tree.kind id) then
      match dropLineFeed [tree.bare first] with
      | [] => tree.setChildren id (tree.children id).tail
      | left :: _ => tree.modifyInfo first fun _ => left.info
    else tree

/-- Puts an element that has a condition now in the place of the start of it, and leaves out the end of it. -/
def takeCondition (parent : NodeId) (place : Nat) (id : NodeId) (info : NodeInfo) : Tree :=
  let finish := tree.firstChild? id
  let tree := tree.setChildren parent ((tree.children parent).eraseIdx place)
  let tree := tree.setChildren id ((tree.children id).filter fun child => some child ≠ finish)
  tree.modifyInfo id fun _ => info

/-- Joins the starts of conditional sections to the elements after them, among the children of a node from the place
of `before` on. -/
def joinConditionsFrom (parent : NodeId) (tree : Tree) (place : Nat) (before : NodeId) : List NodeId → Tree
  | [] => tree
  | id :: rest =>
    match withCondition? (tree.bare before) (tree.family id) with
    | none => joinConditionsFrom parent tree (place + 1) id rest
    | some joined => joinConditionsFrom parent (tree.takeCondition parent place id joined.info) place id rest

/-- Makes conditional comments around the start tags of children part of these. -/
def foldConditionsAt (parent : NodeId) : Tree :=
  match tree.children parent with
  | [] => tree
  | first :: rest => joinConditionsFrom parent tree 0 first rest

/-- Joins texts and character data among some nodes, given those before them. -/
def joinTextsFrom (tree : Tree) (joined : List NodeId) : List NodeId → Tree × List NodeId
  | [] => (tree, joined)
  | child :: rest =>
    match textOf? (tree.kind child) with
    | none => joinTextsFrom tree (joined ++ [child]) rest
    | some value =>
      match joined.getLast?.map fun last => (last, tree.kind last) with
      | some (last, .text text) =>
        let tree := tree.modifyInfo last fun info =>
          { info with
            kind := .text (text ++ value)
            span := ⟨info.span.start, (tree.node child).span.stop⟩ }
        joinTextsFrom tree joined rest
      | _ =>
        joinTextsFrom (tree.modifyInfo child fun info => { info with kind := .text value }) (joined ++ [child]) rest

/-- Turns character data among the children of a node into text. -/
def mergeCdataAt (parent : NodeId) : Tree :=
  if (tree.children parent).any fun child => isCdata (tree.bare child) then
    let (tree, joined) := tree.joinTextsFrom [] (tree.children parent)
    tree.setChildren parent joined
  else tree

mutual

/-- Adds a tree outside of every list of children, each node before those below it. -/
def plant (tree : Tree) : Fragment → Tree × NodeId
  | .node info children =>
    let (tree, id) := tree.alloc { toNodeInfo := info }
    let (tree, ids) := plantAll tree children
    (tree.setChildren id ids, id)

/-- Adds several trees outside of every list of children. -/
def plantAll (tree : Tree) : List Fragment → Tree × List NodeId
  | [] => (tree, [])
  | fragment :: rest =>
    let (tree, id) := plant tree fragment
    let (tree, ids) := plantAll tree rest
    (tree, id :: ids)

end

/-- Adds the pieces of the texts among some nodes. The list has the pieces in the place of their texts. -/
def splitFrom (tree : Tree) : List NodeId → Tree × List NodeId
  | [] => (tree, [])
  | child :: rest =>
    let (tree, ids) :=
      if (tree.kind child).isText then tree.plantAll (splitText (tree.bare child)) else (tree, [child])
    let (tree, others) := splitFrom tree rest
    (tree, ids ++ others)

/-- Makes expressions in the texts of a node nodes of their own. -/
def splitTextsAt (parent : NodeId) : Tree :=
  if splits (tree.node parent).toNodeInfo ((tree.children parent).map tree.bare) then
    let (tree, ids) := tree.splitFrom (tree.children parent)
    tree.setChildren parent ids
  else tree

/-- Flags a node, if there is one and the condition holds. -/
def flagSome (flag : Flag) (condition : Bool) : Option NodeId → Tree
  | some id => if condition then tree.modifyInfo id fun info => { info with flags := info.flags.add flag } else tree
  | none => tree

/-- Trims the texts among some nodes, given those kept before. -/
def trimFrom (tree : Tree) (kept : List NodeId) : List NodeId → Tree × List NodeId
  | [] => (tree, kept)
  | child :: rest =>
    match tree.kind child with
    | .text value =>
      let cs := value.toList
      if cs.all isMarkupSpace then
        let tree := tree.flagSome .trailingSpaces (cs ≠ []) kept.getLast?
        trimFrom (tree.flagSome .leadingSpaces (cs ≠ []) rest.head?) kept rest
      else
        let leading := cs.takeWhile isMarkupSpace
        let trailing := Text.takeEnd isMarkupSpace cs
        let tree := tree.modifyInfo child fun info => (trimmedText info cs []).info
        let tree := tree.flagSome .trailingSpaces (leading ≠ []) kept.getLast?
        trimFrom (tree.flagSome .leadingSpaces (trailing ≠ []) rest.head?) (kept ++ [child]) rest
    | _ => trimFrom tree (kept ++ [child]) rest

/-- Trims the texts of a node, if its white space does not show. -/
def trimAt (id : NodeId) : Tree :=
  let children := tree.children id
  let bares := children.map tree.bare
  let (tree, kept) :=
    if !(tree.kind id).canHaveChildren then (tree, children)
    else if isBlankContent bares then (tree, [])
    else if isWhitespaceSensitive (tree.kind id) then (tree, children)
    else tree.trimFrom [] children
  (tree.modifyInfo id fun info => (trimNode info bares).info).setChildren id kept

/-! ### Display and sensitivity -/

/-- Stores the display of a node. -/
def displayAt (sensitivity : Sensitivity) (tree : Tree) (id : NodeId) : Tree :=
  tree.modifyInfo id fun info => { info with display := tree.displayOf id sensitivity }

/-- Flags a node that has no end tag of its own. -/
def selfClosingAt (id : NodeId) : Tree :=
  tree.modifyInfo id fun info => { info with flags := { info.flags with selfClosing := isSelfClosing info } }

/-- Flags children by what each of them says of its two sides, given what was found of the side after the one before
them. -/
def flagChildren (tree : Tree) (before : Option Bool) : List (NodeId × Bool × Bool) → Tree
  | [] => tree
  | (child, leading, trailing) :: rest =>
    let leading := before.getD true && leading
    let trailing := trailing && (rest.head?.map (·.2.1)).getD true
    let tree := tree.modifyInfo child fun info =>
      { info with flags := { info.flags with leadingSensitive := leading, trailingSensitive := trailing } }
    flagChildren tree (some trailing) rest

/-- Flags the white space that shows around the children of a node, or inside it if there are none. -/
def sensitivityAt (id : NodeId) : Tree :=
  if !(tree.kind id).canHaveChildren then tree
  else if tree.children id = [] then
    tree.modifyInfo id fun info =>
      { info with flags := { info.flags with danglingSensitive := tree.isDanglingSensitive id } }
  else
    tree.flagChildren none ((tree.children id).map fun child =>
      (child, tree.isLeadingSensitive child, tree.isTrailingSensitive child))

/-! ### Simple elements -/

/-- Adds the texts that take the place of simple elements and the texts around them. The list has them in their
place. -/
def mergeSimpleFrom (tree : Tree) : List NodeId → Tree × List NodeId
  | before :: id :: after :: rest =>
    match mergedText? tree.source.toList (tree.bare before) (tree.family id) (tree.bare after) with
    | some text =>
      let (tree, merged) := tree.alloc { toNodeInfo := text.info }
      let (tree, others) := mergeSimpleFrom tree rest
      (tree, merged :: others)
    | none =>
      let (tree, others) := mergeSimpleFrom tree (id :: after :: rest)
      (tree, before :: others)
  | ids => (tree, ids)

/-- Merges the simple elements among the children of a node with the texts around them. -/
def mergeSimpleAt (parent : NodeId) : Tree :=
  let (tree, ids) := tree.mergeSimpleFrom (tree.children parent)
  tree.setChildren parent ids

/-! ### Annotated tables -/

/-- The table with texts split and trimmed. -/
def normalize : Tree :=
  let tree := (tree.sweep dropLineFeedAt).relink
  let tree := (tree.sweep foldConditionsAt).relink
  let tree := (tree.sweep mergeCdataAt).relink
  let tree := (tree.sweep splitTextsAt).relink
  (tree.sweep trimAt).relink

/-- The table with display and sensitivity. -/
def classify (options : Options) : Tree :=
  ((tree.sweep (displayAt options.sensitivity)).sweep selfClosingAt).sweep sensitivityAt

/-- The annotated table. -/
def preprocess (options : Options) : Tree :=
  ((tree.normalize.classify options).sweep mergeSimpleAt).relink

/-- Reads a source, all of whose lines are first ended alike, into a table and annotates it. -/
def annotate (source : String) (options : Options) : Except ParseError Tree :=
  (ofSource (Text.normalizeLineEndings source) {}).map (·.preprocess options)

end Tree

end MarkupFormat.Markup
