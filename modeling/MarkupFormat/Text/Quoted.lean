import MarkupFormat.Text.EscapeData

/-!
# Quoted text

A text between double quotes in which every character that could be mistaken is escaped is how dumps
show the text they hold.

The value of an attribute stands between two quotes of one kind. A quote of that kind inside the
value is written as an entity.
-/

namespace MarkupFormat.Text

/-! ### Escapes -/

/-- The hexadecimal digits of `n`, lowercase and without padding. -/
def hexDigits (n : Nat) : List Char :=
  Nat.toDigits 16 n

/-- One character as it stands inside quotes. A single quote needs no escape there. -/
def escapeChar (c : Char) : List Char :=
  match c with
  | '\x00' => ['\\', '0']
  | '\t' => ['\\', 't']
  | '\r' => ['\\', 'r']
  | '\n' => ['\\', 'n']
  | '\\' => ['\\', '\\']
  | '"' => ['\\', '"']
  | c =>
    if 0x20 ≤ c.toNat && c.toNat < 0x7F then [c]
    else if joiningMarks.contains c || unprintable.contains c then
      ['\\', 'u', '\x7b'] ++ hexDigits c.toNat ++ ['\x7d']
    else [c]

/-- `s` between double quotes, with escapes. -/
def quoted (s : String) : String :=
  String.ofList ('"' :: s.toList.flatMap escapeChar ++ ['"'])

/-! ### Entities -/

/-- A text with the entities of quotes read as quotes. -/
def unescapeQuotes : List Char → List Char
  | '&' :: 'a' :: 'p' :: 'o' :: 's' :: ';' :: cs => '\'' :: unescapeQuotes cs
  | '&' :: 'q' :: 'u' :: 'o' :: 't' :: ';' :: cs => '"' :: unescapeQuotes cs
  | c :: cs => c :: unescapeQuotes cs
  | [] => []

/-- The quote that occurs less often in a text, and the double quote if both do alike. -/
def preferredQuote (cs : List Char) : Char :=
  if cs.count '\'' < cs.count '"' then '\'' else '"'

/-- The entity of a quote. -/
def quoteEntity (quote : Char) : List Char :=
  if quote = '"' then "&quot;".toList else "&apos;".toList

/-- A text with one kind of quote written as an entity. -/
def escapeQuote (quote : Char) (cs : List Char) : List Char :=
  cs.flatMap fun c => if c = quote then quoteEntity quote else [c]

end MarkupFormat.Text
