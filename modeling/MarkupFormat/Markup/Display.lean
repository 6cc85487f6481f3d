/-!
# Display

How a node takes part in the layout of a page, by the keyword of its style.
-/

namespace MarkupFormat.Markup

/-- A keyword of display. Keywords without a meaning of their own are `other` and flow with the
text. -/
inductive Display where
  | inline
  | block
  | inlineBlock
  | listItem
  | table
  | tableCaption
  | tableColumnGroup
  | tableColumn
  | tableHeaderGroup
  | tableRowGroup
  | tableFooterGroup
  | tableRow
  | tableCell
  | none
  | ruby
  | rubyText
  | other
  deriving DecidableEq, Repr, Inhabited

namespace Display

/-- The keyword. -/
def keyword : Display → String
  | inline => "inline"
  | block => "block"
  | inlineBlock => "inline-block"
  | listItem => "list-item"
  | table => "table"
  | tableCaption => "table-caption"
  | tableColumnGroup => "table-column-group"
  | tableColumn => "table-column"
  | tableHeaderGroup => "table-header-group"
  | tableRowGroup => "table-row-group"
  | tableFooterGroup => "table-footer-group"
  | tableRow => "table-row"
  | tableCell => "table-cell"
  | none => "none"
  | ruby => "ruby"
  | rubyText => "ruby-text"
  | other => "other"

/-- What a keyword means. -/
def ofKeyword : String → Display
  | "inline" => inline
  | "block" => block
  | "inline-block" => inlineBlock
  | "list-item" => listItem
  | "table" => table
  | "table-caption" => tableCaption
  | "table-column-group" => tableColumnGroup
  | "table-column" => tableColumn
  | "table-header-group" => tableHeaderGroup
  | "table-row-group" => tableRowGroup
  | "table-footer-group" => tableFooterGroup
  | "table-row" => tableRow
  | "table-cell" => tableCell
  | "none" => none
  | "ruby" => ruby
  | "ruby-text" => rubyText
  | _ => other

/-- Whether the node belongs to a table. -/
def isTable : Display → Bool
  | table | tableCaption | tableColumnGroup | tableColumn | tableHeaderGroup | tableRowGroup
  | tableFooterGroup | tableRow | tableCell => true
  | _ => false

end Display

end MarkupFormat.Markup
