import MarkupFormat.Embed.Request
import MarkupFormat.Markup.Node
import MarkupFormat.Text.Lines

/-!
# Bodies of scripts and style sheets

The language that an element's body is written in, and the body as an embedder gets it.
-/

namespace MarkupFormat.Embed

open Markup (Element)

/-- The value of an attribute, unless that is empty. -/
def nonemptyValue? (element : Element) (name : String) : Option String :=
  (element.attributeValue? name).filter (· ≠ "")

/-- The language of a script. A script that is kept elsewhere has none. -/
def scriptLanguage? (element : Element) : Option Language :=
  if element.name ≠ "script" || element.hasAttribute "src" then none
  else
    match nonemptyValue? element "lang", nonemptyValue? element "type" with
    | none, none => some .javaScript
    | lang, type => (lang.bind Language.ofName?).or (type.bind Language.ofScriptType?)

/-- The language of a style sheet. -/
def styleLanguage? (element : Element) : Option Language :=
  if element.name ≠ "style" then none
  else
    match nonemptyValue? element "lang" with
    | some lang => Language.ofName? lang
    | none => some .css

/-- The language of an element's body. -/
def elementLanguage? (element : Element) : Option Language :=
  (scriptLanguage? element).or (styleLanguage? element)

/-- The body as an embedder gets it. White space at the start of a line means something in
Markdown, so the indentation of the whole body is taken away there. -/
def prepareBody (language : Language) (text : String) : String :=
  if language = .markdown then
    String.ofList (Text.dedent (Text.dropBlankFirstLine text.toList))
  else text

end MarkupFormat.Embed
