import MarkupFormat.Annotate.Annotated
import MarkupFormat.Format.Pragma
import MarkupFormat.Layout.Render
import MarkupFormat.Print.Document

/-!
# Formatted sources

A source is read and annotated, its tree is printed as a document, and the document is rendered. A
source whose pragma says so is left as it is.
-/

namespace MarkupFormat.Format

open Embed (Embedder Request)
open Layout (Build Doc Supply)

/-- A formatted source. -/
structure Formatted where
  text : String
  /-- What the embedder was asked for, in order. -/
  requests : List Request := []
  deriving DecidableEq, Repr, Inhabited

/-- The document of a source and the requests made for it. An embedder may keep documents of its
own, which are built first. -/
def document (source : String) (options : Options) (embedder : Build Embedder) :
    Except FormatError (Doc × List Request) := do
  let annotated ← (Annotate.annotate source options).mapError .parse
  let build : StateT Supply (Except FormatError) (Doc × List Request) := do
    let page : Print.Page := ⟨annotated.tree, options, ← embedder⟩
    page.print.run []
  let (doc, requests) ← Build.run' build
  return (doc, requests.reverse)

/-- Whether the pragmas of a source ask for it to be left as it is. -/
def isSkipped (source : String) (options : Options) : Bool :=
  Pragma.ignore.isIn source || (options.requirePragma && !Pragma.format.isIn source)

/-- Formats a source and hands the parts in other languages to an embedder. -/
def formatWith (source : String) (options : Options) (embedder : Build Embedder) :
    Except FormatError Formatted := do
  if isSkipped source options then return { text := source }
  let (doc, requests) ← document source options embedder
  let lineEnding := options.config.lineEnding.resolve source
  let text := doc.render { options.config with lineEnding := lineEnding }
  if options.insertPragma && !Pragma.format.isIn source then
    return { text := Pragma.insert text, requests := requests }
  else return { text := text, requests := requests }

/-- Formats a source. -/
def format (source : String) (options : Options) : Except FormatError String :=
  (formatWith source options (return Embed.decline)).map (·.text)

/-- Formats a source, then what came of it, and so on, up to a failure. -/
def formatRepeatedly (source : String) (options : Options) :
    Nat → List (Except FormatError String)
  | 0 => []
  | times + 1 =>
    let result := format source options
    match result with
    | .ok text => result :: formatRepeatedly text options times
    | .error _ => [result]

end MarkupFormat.Format
