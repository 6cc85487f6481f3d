/-!
# Byte offsets

Offsets into a text count the bytes of its UTF-8 form, while the text itself is read as a list of
characters. An offset inside a character, or past the end, cuts nothing.
-/

namespace MarkupFormat.Text

/-- The bytes that `cs` takes. -/
def byteLength (cs : List Char) : Nat :=
  cs.foldr (fun c bytes => c.utf8Size + bytes) 0

@[simp]
theorem byteLength_nil : byteLength [] = 0 := rfl

@[simp]
theorem byteLength_cons (c : Char) (cs : List Char) :
    byteLength (c :: cs) = c.utf8Size + byteLength cs := rfl

@[simp]
theorem byteLength_append (cs ds : List Char) :
    byteLength (cs ++ ds) = byteLength cs + byteLength ds := by
  induction cs with
  | nil => simp
  | cons c cs ih => simp [ih, Nat.add_assoc]

/-- The first `count` bytes of a text and what follows them. -/
def splitBytes : Nat → List Char → Option (List Char × List Char)
  | 0, cs => some ([], cs)
  | _ + 1, [] => none
  | count + 1, c :: cs =>
    if c.utf8Size ≤ count + 1 then
      (splitBytes (count + 1 - c.utf8Size) cs).map fun (taken, rest) => (c :: taken, rest)
    else none

/-- The characters of `cs` between two offsets. -/
def sliceChars? (cs : List Char) (start stop : Nat) : Option (List Char) :=
  if start ≤ stop then do
    let (_, rest) ← splitBytes start cs
    let (taken, _) ← splitBytes (stop - start) rest
    return taken
  else none

/-- The text of `cs` between two offsets, empty if they do not cut `cs`. -/
def slice (cs : List Char) (start stop : Nat) : String :=
  String.ofList ((sliceChars? cs start stop).getD [])

end MarkupFormat.Text
