/-!
# White space

Two sets of white space: the five characters that markup collapses, and the larger set of
characters that text in general treats as blank. Trimming and splitting take the set as an
argument.
-/

namespace MarkupFormat.Text

/-- White space of markup: tab, line feed, form feed, carriage return and space. -/
def isMarkupSpace (c : Char) : Bool :=
  c = ' ' || c = '\t' || c = '\n' || c = '\x0c' || c = '\r'

/-- White space of any script. -/
def isWhiteSpace (c : Char) : Bool :=
  let code := c.toNat
  (0x09 ≤ code && code ≤ 0x0D) || code = 0x20 || code = 0x85 || code = 0xA0 || code = 0x1680 ||
    (0x2000 ≤ code && code ≤ 0x200A) || code = 0x2028 || code = 0x2029 || code = 0x202F ||
    code = 0x205F || code = 0x3000

/-- A space or a tab, the blanks within a line. -/
def isLineBlank (c : Char) : Bool :=
  c = ' ' || c = '\t'

/-- `cs` without the characters satisfying `p` at its end. -/
def dropEnd (p : Char → Bool) (cs : List Char) : List Char :=
  (cs.reverse.dropWhile p).reverse

/-- The characters satisfying `p` at the end of `cs`. -/
def takeEnd (p : Char → Bool) (cs : List Char) : List Char :=
  (cs.reverse.takeWhile p).reverse

/-- `cs` without the characters satisfying `p` at either end. -/
def dropEnds (p : Char → Bool) (cs : List Char) : List Char :=
  dropEnd p (cs.dropWhile p)

/-- `s` without the characters satisfying `p` at its start. -/
def trimStart (p : Char → Bool) (s : String) : String :=
  String.ofList (s.toList.dropWhile p)

/-- `s` without the characters satisfying `p` at its end. -/
def trimEnd (p : Char → Bool) (s : String) : String :=
  String.ofList (dropEnd p s.toList)

/-- `s` without the characters satisfying `p` at either end. -/
def trim (p : Char → Bool) (s : String) : String :=
  String.ofList (dropEnds p s.toList)

/-- The runs of characters of `cs` between those satisfying `p`, empty runs included. -/
def splitOnChars (p : Char → Bool) : List Char → List (List Char)
  | [] => [[]]
  | c :: cs =>
    if p c then [] :: splitOnChars p cs
    else
      match splitOnChars p cs with
      | [] => [[c]]
      | piece :: pieces => (c :: piece) :: pieces

/-- The pieces of `s` between its characters satisfying `p`, empty pieces included. -/
def splitOn (p : Char → Bool) (s : String) : List String :=
  (splitOnChars p s.toList).map String.ofList

/-- The pieces of `s` between its characters satisfying `p` that are not empty. -/
def pieces (p : Char → Bool) (s : String) : List String :=
  (splitOn p s).filter (· ≠ "")

end MarkupFormat.Text
