import MarkupFormat.Markup.ParseError

/-!
# Explanations of error codes

A page for each code: what goes wrong, an example and a way out.
-/

namespace MarkupFormat.Markup.ErrorCode

/-- Lines of a page, each of them ended. -/
def lines (content : List String) : String :=
  String.join (content.map (· ++ "\n"))

/-- The page that explains a code. -/
def explanation : ErrorCode → String
  | unmatchedEndTag => lines
    ["# E0001: Unexpected Closing Tag", "",
      "A closing tag was found that does not match any open element.", "", "## Example", "",
      "```html", "<div>", "  <span>text</div>", "</span>", "```", "",
      "Here `</div>` arrives while `<span>` is still open. `<span>` cannot be closed",
      "implicitly, so the parser stops.", "",
      "Elements such as `<p>` and `<li>` are closed implicitly by certain siblings,",
      "which can also make a later closing tag unexpected:", "", "```html",
      "<p><div>block</div></p>", "```", "",
      "The `<div>` closes the `<p>`, leaving `</p>` with nothing to close.", "", "## Solution",
      "", "Close elements in the reverse order they were opened, or remove the stray",
      "closing tag."]
  | voidEndTag => lines
    ["# E0002: Void Element End Tag", "", "Void elements have no content and no closing tag.", "",
      "## Example", "", "```html", "<br></br>", "<img src=\"a.png\"></img>", "```", "",
      "## Solution", "", "Remove the closing tag. `<br>` and `<br />` are both accepted.", "",
      "The void elements are: area, base, br, col, embed, hr, img, input, link,",
      "meta, param, source, track, wbr."]
  | openComment => lines
    ["# E0003: Unterminated Comment", "", "A comment was opened with `<!--` but never closed.",
      "", "## Example", "", "```html", "<!-- TODO: fix layout", "<div>...</div>", "```", "",
      "## Solution", "", "Close the comment with `-->`."]
  | openCdata => lines
    ["# E0004: Unterminated CDATA Section", "",
      "A `<![CDATA[` section was opened but never closed.", "", "## Example", "", "```html",
      "<svg><![CDATA[ x < y </svg>", "```", "", "## Solution", "",
      "Close the section with `]]>`."]
  | unexpectedCharacter => lines
    ["# E0005: Unexpected Character", "",
      "The input ended, or an unexpected character appeared, in the middle of a tag.",
      "The usual cause is a missing `>` or an attribute value whose quote is never", "closed.",
      "", "## Example", "", "```html", "<a href=\"/home>Home</a>", "```", "",
      "The value of `href` runs to the end of the file looking for `\"`.", "", "## Solution", "",
      "Close the attribute quote and the tag."]
  | openDeclaration => lines
    ["# E0006: Unterminated Declaration", "",
      "A doctype (`<!DOCTYPE ...`) or processing instruction (`<?xml ...`) has no",
      "closing `>`.", "", "## Example", "", "```html", "<!DOCTYPE html", "<html></html>", "```",
      "", "## Solution", "", "Close the declaration with `>`."]
  | internal => lines
    ["# E9001: Internal Error", "",
      "The formatter hit a condition it cannot handle, such as a source file larger",
      "than 4 GiB.", "", "## Solution", "",
      "Split the file. If the input is small, please report the problem with the",
      "input that triggers it."]

end MarkupFormat.Markup.ErrorCode
