import MarkupFormat.Print.Marker
import MarkupFormat.Text.LetterData
import MarkupFormat.Text.Quoted
import MarkupFormat.Text.Words

/-!
# Attributes

The attributes of an opening tag and the lines between them. Classes are separated by single
spaces and styles are handed to the embedder; other values stay as they are, in the quotes that
need less escaping.
-/

namespace MarkupFormat.Print

open Layout (Build Doc)
open Markup (Attribute NodeId)

/-! ### Attributes that stay as they are -/

/-- The attributes that a comment keeps as they are written. -/
inductive Kept where
  | nothing
  | everything
  | named (names : List String)
  deriving DecidableEq, Repr, Inhabited

namespace Kept

/-- What a comment keeps. -/
def ofComment (value : String) : Kept :=
  let cs := Text.dropEnds Text.isWhiteSpace value.toList
  match Text.dropPrefix? "quill-ignore-attribute".toList cs with
  | none => nothing
  | some [] => everything
  | some (c :: rest) =>
    if Text.isWhiteSpace c then named (Text.pieces Text.isWhiteSpace (String.ofList rest))
    else nothing

/-- Whether an attribute with a name is kept. -/
def contains (kept : Kept) (name : String) : Bool :=
  match kept with
  | nothing => false
  | everything => true
  | named names => names.contains name

end Kept

/-! ### Values -/

/-- `doc` with the double quotes of its texts written as entities. -/
def escapeDoubleQuotes (doc : Doc) : Build Doc := do
  let rule : Doc → Build Doc := fun node =>
    match node with
    | .text _ content =>
      if '"' ∈ content.toList then
        Build.text (String.ofList (Text.escapeQuote '"' content.toList))
      else return node
    | _ => return node
  return (← doc.transform rule).1

/-- An attribute whose value is printed by something else, in double quotes. -/
def quotedAttribute (name : String) (value : Doc) : Build Doc := do
  Build.seq [Build.text name, Build.text "=\"", do Build.group (← escapeDoubleQuotes value),
    Build.text "\""]

/-- An attribute with its value, in the quotes that need less escaping. -/
def plainAttribute (name : String) (value : List Char) : Build Doc :=
  let quote := Text.preferredQuote value
  let mark := Build.text (String.singleton quote)
  Build.seq [Build.text name, Build.text "=", mark,
    literalText (String.ofList (Text.escapeQuote quote value)), mark]

namespace Page

variable (page : Page)

/-- The value of an attribute whose value has a form of its own. -/
def knownValue? (name : String) (value : List Char) : Printing (Option Doc) := do
  match name with
  | "style" =>
    let style := String.ofList (Text.dropEnds Text.isMarkupSpace value)
    match ← page.embed ⟨.css, .styleAttribute, style⟩ with
    | some doc =>
      let body ← Build.seq [Build.softline, return doc]
      return some (← Build.seq [Build.indent body, Build.softline])
    | none => return none
  | "class" =>
    let classes := Text.collapse value
    if classes = [] then return none
    else return some (← Build.text (String.ofList classes))
  | _ => return none

/-- An attribute. -/
def printAttribute (attr : Attribute) : Printing Doc := do
  match attr.value with
  | none => literalText attr.rawName
  | some written =>
    let value := Text.unescapeQuotes written.toList
    let known ←
      if written = "" || Text.occursIn ['{', '{'] value then pure none
      else page.knownValue? attr.rawName value
    match known with
    | some doc => quotedAttribute attr.rawName doc
    | none => plainAttribute attr.rawName value

/-! ### All attributes of a tag -/

variable (id : NodeId)

/-- The attributes of a node that a comment before it keeps as they are written. -/
def keptAttributes : Kept :=
  match (page.tree.prev? id).map page.tree.kind with
  | some (.comment value) => .ofComment value
  | _ => .nothing

/-- Whether the end of the opening tag stays right after the attributes, since a neighbour prints
it. -/
def keepsBracket : Bool :=
  page.tree.lendsOpeningEnd id ||
    (page.isSelfClosing id && (page.tree.parent? id).any page.tree.borrowsLastChildClosingEnd)

/-- What is between the last attribute and the end of the opening tag. -/
def beforeBracket (stays : Bool) : Build Doc :=
  match stays, page.isSelfClosing id with
  | true, true => Build.text " "
  | true, false => Build.empty
  | false, true => Build.line
  | false, false => Build.softline

/-- The attributes of an opening tag. A script that has nothing but its source stays on one
line. -/
def printAttributes : Printing Doc := do
  let kind := page.tree.kind id
  match (kind.element?.map (·.attributes)).getD [] with
  | [] => if page.isSelfClosing id then Build.text " " else Build.empty
  | attrs =>
    let kept := page.keptAttributes id
    let printed ← attrs.mapM fun attr =>
      if kept.contains attr.rawName then literalText (page.sourceText attr.span)
      else page.printAttribute attr
    let oneLine := kind.isNamed "script" && attrs.map (·.rawName) = ["src"]
    let between ←
      if page.options.singleAttributePerLine && attrs.length > 1 then Build.hardline
      else Build.line
    let first ← if oneLine then Build.text " " else Build.line
    let list ← Build.concat [first, ← Build.concat (printed.intersperse between)]
    let stays := page.keepsBracket id || oneLine || page.options.bracketSameLine
    Build.concat [← Build.indent list, ← page.beforeBracket id stays]

end Page

end MarkupFormat.Print
