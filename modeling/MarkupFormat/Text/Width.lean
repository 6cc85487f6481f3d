import MarkupFormat.Text.WidthData

/-!
# Display width

How many columns a text takes on a line. A `Ruler` measures one character and `displayWidth` a text.
What is used of the widths of characters is that a printable one of ASCII takes one column and a
control character none; `CharWidths.unicode` are those of the character database.
-/

namespace MarkupFormat.Text

/-- Whether `c` is a control character, which has no width of its own. -/
def isControl (c : Char) : Bool :=
  c.toNat < 0x20 || (0x7F ≤ c.toNat && c.toNat < 0xA0)

/-- How many columns characters take, if they are known to take any. -/
structure CharWidths where
  width? : Char → Option Nat
  width?_of_printable : ∀ c : Char, 0x20 ≤ c.toNat → c.toNat < 0x7F → width? c = some 1
  width?_of_control : ∀ c : Char, isControl c = true → (width? c).getD 0 = 0

namespace CharWidths

/-- The columns that `c` takes by the character database. -/
def unicodeWidth? (c : Char) : Option Nat :=
  if isControl c then none
  else if c.toNat < 0x7F then some 1
  else if c.toNat = 0x17D8 then some 3
  else if doubleWidth.contains c then some 2
  else if zeroWidth.contains c then some 0
  else some 1

/-- The widths of the character database. -/
def unicode : CharWidths where
  width? := unicodeWidth?
  width?_of_printable c low high := by
    have visible : isControl c = false := by
      simp only [isControl, Bool.or_eq_false_iff, Bool.and_eq_false_iff, decide_eq_false_iff_not]
      omega
    simp [unicodeWidth?, visible, high]
  width?_of_control c control := by
    simp [unicodeWidth?, control]

instance : Inhabited CharWidths :=
  ⟨unicode⟩

end CharWidths

/-- What texts are measured with: the columns of a tab, and those of other characters. -/
structure Ruler where
  tab : Nat
  widths : CharWidths

/-- Where only the columns of a tab are given, other characters are as wide as the character database says. -/
instance : Coe Nat Ruler :=
  ⟨fun tab => ⟨tab, .unicode⟩⟩

/-- Whether `c` is an ASCII character other than a tab. -/
def isPlainAscii (c : Char) : Bool :=
  c.toNat < 0x80 && c != '\t'

/-- The columns that `c` takes. -/
def Ruler.columns (ruler : Ruler) (c : Char) : Nat :=
  if c = '\t' then ruler.tab else (ruler.widths.width? c).getD 0

/-- The columns that `s` takes. Text of plain ASCII takes one column for each of its characters,
controls included; any other text takes the sum over its characters. -/
def displayWidth (s : String) (ruler : Ruler) : Nat :=
  if s.toList.all isPlainAscii then s.toList.length
  else s.toList.foldr (fun c width => ruler.columns c + width) 0

end MarkupFormat.Text
