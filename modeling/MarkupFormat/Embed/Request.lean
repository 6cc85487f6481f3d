import MarkupFormat.Layout.Build

/-!
# Parts in other languages

The languages that parts of a source can be written in, and the names by which elements choose
them.

An embedder lays out the parts of a source that are written in another language. A part that it
declines is laid out as text.
-/

namespace MarkupFormat.Embed

open Layout (Build Doc)

/-! ### Languages -/

/-- A language that can stand inside markup. -/
inductive Language where
  | javaScript
  | typeScript
  | json
  | markdown
  | html
  | handlebars
  | css
  | scss
  | less
  | yaml
  | toml
  /-- An expression of a template language. -/
  | expression
  deriving DecidableEq, Repr, Inhabited

namespace Language

/-- What a language is called. -/
def name : Language → String
  | javaScript => "javascript"
  | typeScript => "typescript"
  | json => "json"
  | markdown => "markdown"
  | html => "html"
  | handlebars => "handlebars"
  | css => "css"
  | scss => "scss"
  | less => "less"
  | yaml => "yaml"
  | toml => "toml"
  | expression => "expression"

/-- The language with a lowercase name. -/
def ofLowercase? : String → Option Language
  | "js" | "javascript" | "jsx" | "mjs" | "cjs" | "babel" => some javaScript
  | "ts" | "typescript" | "tsx" | "mts" | "cts" => some typeScript
  | "json" | "json5" | "jsonc" => some json
  | "md" | "markdown" => some markdown
  | "html" | "htm" => some html
  | "hbs" | "handlebars" | "glimmer" => some handlebars
  | "css" | "postcss" => some css
  | "scss" => some scss
  | "less" => some less
  | "yaml" | "yml" => some yaml
  | "toml" => some toml
  | _ => none

/-- The language with a name. The case of its ASCII letters does not matter. -/
def ofName? (name : String) : Option Language :=
  ofLowercase? (name.map Char.toLower)

/-- Whether a type ends like the types of data. -/
def isDataType (type : String) : Bool :=
  "json".toList.isSuffixOf type.toList || "importmap".toList.isSuffixOf type.toList ||
    type = "speculationrules"

/-- The language of a script with a type. -/
def ofScriptType? : String → Option Language
  | "module" | "text/javascript" | "text/babel" | "text/jsx" | "application/javascript" =>
    some javaScript
  | "application/x-typescript" => some typeScript
  | "text/markdown" => some markdown
  | "text/html" => some html
  | "text/x-handlebars-template" => some handlebars
  | type => if isDataType type then some json else none

end Language

/-! ### Requests -/

/-- Where a part in another language stands. -/
inductive Context where
  /-- The body of a script or a style sheet. -/
  | element
  /-- An expression inside text. -/
  | interpolation
  /-- The value of an attribute that holds styles. -/
  | styleAttribute
  | frontMatter
  deriving DecidableEq, Repr, Inhabited

/-- A part of a source to lay out. -/
structure Request where
  language : Language
  context : Context
  text : String
  deriving DecidableEq, Repr, Inhabited

/-- Lays out the parts that it does not decline. -/
abbrev Embedder := Request → Build (Option Doc)

/-- Declines everything. -/
def decline : Embedder :=
  fun _ => return none

end MarkupFormat.Embed
