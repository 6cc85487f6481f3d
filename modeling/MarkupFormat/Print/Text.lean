import MarkupFormat.Embed.Body
import MarkupFormat.Print.Tag
import MarkupFormat.Text.LetterData
import MarkupFormat.Text.Lines
import MarkupFormat.Text.Words

/-!
# Nodes without content

Texts, comments, declarations and front matter. Text flows as words, unless its parent keeps white
space; then it keeps its lines.
-/

namespace MarkupFormat.Print

open Embed (elementLanguage? prepareBody)
open Layout (Build Doc)
open Markup (FrontMatter NodeId)

/-! ### Texts -/

/-- A text without a final line feed and the blanks after it, and whether it had one. -/
def splitFinalLine (value : List Char) : List Char × Bool :=
  match (Text.dropEnd (fun c => Text.isWhiteSpace c && c ≠ '\n') value).reverse with
  | '\n' :: before => (before.reverse, true)
  | _ => (value, false)

/-- The expression of an interpolation. -/
def expressionText (value : List Char) : Build Doc := do
  let (expression, endsLine) := splitFinalLine value
  Build.seq [literalText (String.ofList expression),
    if endsLine then Build.hardline else Build.empty]

/-- Parts of which the last one is joined to `last`. -/
def joinLast (last : Doc) : Doc → List Doc → Build (List Doc)
  | part, [] => return [← Build.concat [part, last]]
  | part, next :: parts => return part :: (← joinLast last next parts)

/-- Parts with a document at each end, joined to what is there. -/
def wrapParts (first last : Doc) : List Doc → Build (List Doc)
  | [] => do joinLast last (← Build.concat [first, ← Build.empty]) []
  | part :: parts => do joinLast last (← Build.concat [first, part]) parts

namespace Page

variable (page : Page) (id : NodeId)

/-- The words or the lines of a text, and what is between them. -/
def textParts (value : List Char) : Build (List Doc) := do
  let flags := ((page.tree.parent? id).map fun parent => (page.tree.node parent).flags).getD {}
  if flags.whitespaceSensitive then
    if flags.indentationSensitive then
      Build.splitLines (String.ofList value) (← Build.literalline)
    else
      let body := Text.dedent (Text.trimKeepingIndentation value)
      Build.splitLines (String.ofList body) (← Build.hardline)
  else
    let separator ← Build.line
    return (← (Text.words value).mapM fun word => Build.text (String.ofList word)).intersperse
      separator

/-- A text. -/
def printText (value : List Char) : Build Doc := do
  if (page.tree.parent? id).any fun parent => (page.tree.kind parent).isInterpolation then
    expressionText value
  else
    Build.fill (← wrapParts (← page.before id) (← page.after id) (← page.textParts id value))

/-- The body of a script or a style sheet, if the embedder lays it out. -/
def embeddedBody? (parent : NodeId) (value : String) : Printing (Option Doc) := do
  match (page.tree.kind parent).element?.bind elementLanguage? with
  | none => return none
  | some language =>
    match ← page.embed ⟨language, .element, prepareBody language value⟩ with
    | none => return none
    | some doc =>
      return some (← Build.seq [Build.breakParent, page.before id, return doc, page.after id])

/-- The expression of an interpolation, if the embedder lays it out. -/
def embeddedExpression? (parent : NodeId) (value : String) : Printing (Option Doc) := do
  match ← page.embed ⟨.expression, .interpolation, value⟩ with
  | none => return none
  | some doc =>
    let body ← Build.seq [Build.line, return doc]
    let lends := (page.tree.next? parent).any page.tree.borrowsPrevClosingEnd
    return some (← Build.seq [Build.indent body, if lends then Build.text " " else Build.line])

/-- Front matter, if the embedder lays it out or there is nothing to lay out. -/
def embeddedFrontMatter? (block : FrontMatter) : Printing (Option Doc) := do
  if block.language ≠ "yaml" then return none
  let value := Text.trim Text.isWhiteSpace block.value
  let doc ←
    if value = "" then some <$> (Build.empty : Printing Doc)
    else page.embed ⟨.yaml, .frontMatter, value⟩
  match doc with
  | none => return none
  | some doc =>
    let body ← Build.seq [Build.text block.startDelimiter, Build.text block.explicitLanguage,
      Build.hardline, return doc, if value = "" then Build.empty else Build.hardline,
      Build.text block.endDelimiter]
    return some (← Build.markAsRoot body)

/-- The node as the embedder lays it out. -/
def embedded? : Printing (Option Doc) := do
  match page.tree.kind id, page.tree.parent? id with
  | .text value, some parent =>
    let kind := page.tree.kind parent
    if Annotate.isScriptLike kind then page.embeddedBody? id parent value
    else if kind.isInterpolation then page.embeddedExpression? parent value
    else return none
  | .frontMatter block, _ => page.embeddedFrontMatter? block
  | _, _ => return none

end Page

/-! ### Declarations -/

/-- Whether a text begins with `html` in any case, as a word. -/
def startsHtml (value : List Char) : Bool :=
  (value.take 4).map Char.toLower = "html".toList &&
    !(value.drop 4).head?.any fun c => Text.alphanumeric.contains c || c = '_'

/-- `cs` with each run of white space as one space. `afterSpace` tells whether the run was begun
before `cs`. -/
def singleSpaces (afterSpace : Bool) : List Char → List Char
  | [] => []
  | c :: cs =>
    if Text.isWhiteSpace c then
      if afterSpace then singleSpaces true cs else ' ' :: singleSpaces true cs
    else c :: singleSpaces false cs

/-- What a declaration says, with single spaces and the name of ordinary pages in lower case. -/
def normalizeDoctype (value : List Char) : List Char :=
  singleSpaces false (if startsHtml value then "html".toList ++ value.drop 4 else value)

namespace Page

variable (page : Page) (id : NodeId)

/-- A declaration. -/
def printDoctype (value : String) : Build Doc := do
  let body ← Build.seq [page.openingStart id, Build.text " ",
    Build.text (String.ofList (normalizeDoctype value.toList))]
  Build.seq [Build.group body, page.closingEnd id]

/-- A comment as it is written. -/
def printComment : Build Doc :=
  Build.seq [page.before id, literalText (page.sourceText (page.tree.node id).span),
    page.after id]

end Page

end MarkupFormat.Print
