import MarkupFormat.Layout.Config
import MarkupFormat.Text.Blank

/-!
# Format options
-/

namespace MarkupFormat.Format

/-- How far the style of an element decides whether white space around it shows. -/
inductive Sensitivity where
  /-- By the default style of each element. -/
  | css
  /-- White space always shows. -/
  | strict
  /-- White space never shows. -/
  | ignore
  deriving DecidableEq, Repr, Inhabited

namespace Sensitivity

/-- The name under which it is chosen. -/
def name : Sensitivity → String
  | css => "css"
  | strict => "strict"
  | ignore => "ignore"

/-- The sensitivity with a name. -/
def ofName? : String → Option Sensitivity
  | "css" => some css
  | "strict" => some strict
  | "ignore" => some ignore
  | _ => none

end Sensitivity

/-- Everything that a formatted text depends on besides its source. -/
structure Options where
  config : Layout.Config := {}
  sensitivity : Sensitivity := .css
  /-- The bracket of a start tag on several lines stands at the end of the last one. -/
  bracketSameLine : Bool := false
  /-- Each of several attributes has a line of its own. -/
  singleAttributePerLine : Bool := false
  /-- Only sources that ask for it by a pragma are formatted. -/
  requirePragma : Bool := false
  /-- A pragma is put before a formatted text without one. -/
  insertPragma : Bool := false
  /-- Where the source is kept, if anywhere. -/
  filePath : Option String := none
  deriving Inhabited

/-- The last component of a path, unless that goes up. -/
def fileName? (path : String) : Option String :=
  match ((Text.pieces (· = '/') path).filter (· ≠ ".")).getLast? with
  | some ".." | none => none
  | some name => some name

/-- What follows the last dot of a file name, unless the name begins with it. -/
def extension? (path : String) : Option String := do
  let name ← fileName? path
  match (Text.splitOnChars (· = '.') name.toList).reverse with
  | last :: before :: rest =>
    if rest = [] ∧ before = [] then none else some (String.ofList last)
  | _ => none

/-- Whether the source is kept as a page. -/
def Options.isHtmlFile (options : Options) : Bool :=
  match options.filePath.bind extension? with
  | some extension => extension = "html" || extension = "htm"
  | none => false

end MarkupFormat.Format
