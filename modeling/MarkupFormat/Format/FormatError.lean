import MarkupFormat.Layout.Doc
import MarkupFormat.Markup.ParseError

/-!
# Format errors

Why a source cannot be formatted.
-/

namespace MarkupFormat.Format

open Layout (DocError)
open Markup (ParseError Span)

/-- Why a source cannot be formatted. -/
inductive FormatError where
  /-- The source cannot be read. -/
  | parse (error : ParseError)
  /-- There is no layout for a node of this kind. -/
  | unexpectedNode (kind : String) (span : Span)
  /-- A document was built wrongly. -/
  | document (error : DocError)
  deriving Inhabited

/-- What is told about the error. -/
def FormatError.message : FormatError → String
  | parse error => error.text
  | unexpectedNode kind span => "unexpected " ++ kind ++ " node at " ++ span.text
  | document error => error.message

end MarkupFormat.Format
