/-!
# Line endings

The styles in which a line can end, which one a text uses, and the reduction of every style to a
line feed.
-/

namespace MarkupFormat.Text

/-- How lines end. -/
inductive LineEnding where
  /-- A line feed. -/
  | lf
  /-- A carriage return and a line feed. -/
  | crlf
  /-- A carriage return. -/
  | cr
  /-- Whatever the input uses. -/
  | auto
  deriving DecidableEq, Repr, Inhabited

namespace LineEnding

/-- The name under which the style is chosen. -/
def name : LineEnding → String
  | lf => "lf"
  | crlf => "crlf"
  | cr => "cr"
  | auto => "auto"

/-- The style with the given name. -/
def ofName? : String → Option LineEnding
  | "lf" => some lf
  | "crlf" => some crlf
  | "cr" => some cr
  | "auto" => some auto
  | _ => none

/-- The characters that end a line. A style that was left to the input reads as a line feed until
it is resolved. -/
def text : LineEnding → String
  | lf | auto => "\n"
  | crlf => "\r\n"
  | cr => "\r"

/-- The style of a text, judged by its first carriage return. -/
def guessChars : List Char → LineEnding
  | [] => lf
  | '\r' :: '\n' :: _ => crlf
  | '\r' :: _ => cr
  | _ :: cs => guessChars cs

/-- The style that `s` uses. -/
def guess (s : String) : LineEnding :=
  guessChars s.toList

/-- The style itself, or the one that `s` uses if the choice was left to the input. -/
def resolve (ending : LineEnding) (s : String) : LineEnding :=
  match ending with
  | auto => guess s
  | _ => ending

end LineEnding

/-- Every line ending as a line feed. -/
def normalizeChars : List Char → List Char
  | [] => []
  | '\r' :: '\n' :: cs => '\n' :: normalizeChars cs
  | '\r' :: cs => '\n' :: normalizeChars cs
  | c :: cs => c :: normalizeChars cs

/-- `s` with every line ending as a line feed. -/
def normalizeLineEndings (s : String) : String :=
  String.ofList (normalizeChars s.toList)

/-- `s` with every line feed written in the given style. -/
def writeLineEndings (ending : LineEnding) (s : String) : String :=
  if ending.text = "\n" then s
  else String.ofList (s.toList.flatMap fun c => if c = '\n' then ending.text.toList else [c])

end MarkupFormat.Text
