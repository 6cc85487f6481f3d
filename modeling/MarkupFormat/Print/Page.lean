import MarkupFormat.Embed.Request
import MarkupFormat.Format.FormatError
import MarkupFormat.Format.Options
import MarkupFormat.Layout.Strip
import MarkupFormat.Layout.Transform
import MarkupFormat.Markup.Tree

/-!
# Pages

What is printed and how, and the computations that print it. These keep the requests that were
made to the embedder.
-/

namespace MarkupFormat.Print

open Embed (Embedder Request)
open Format (FormatError)
open Layout (Build Doc Supply)

/-- What is printed, and how. -/
structure Page where
  /-- The tree, with display and sensitivity. -/
  tree : Markup.Tree
  options : Format.Options
  embedder : Embedder

/-- The source of the page. -/
def Page.source (page : Page) : List Char :=
  page.tree.source.toList

/-- Computations that print. They keep the requests to the embedder, the last one first. -/
abbrev Printing := StateT (List Request) (StateT Supply (Except FormatError))

/-- What builds nodes can be done while printing. -/
instance : MonadLift Build (StateT Supply (Except FormatError)) where
  monadLift build supply := (build supply).mapError .document

/-- Asks the embedder. A forced line at the end of its answer is not wanted. -/
def Page.embed (page : Page) (request : Request) : Printing (Option Doc) := do
  modify (request :: ·)
  match ← page.embedder request with
  | some doc => return some (← doc.stripFinalLine)
  | none => return none

/-- A text whose line feeds are kept as they are. -/
def literalText (content : String) : Build Doc := do
  let content ← Build.text content
  content.replaceLineEndings (← Build.literalline)

end MarkupFormat.Print
