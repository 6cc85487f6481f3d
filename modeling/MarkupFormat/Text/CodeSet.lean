/-!
# Sets of characters

A set of characters is the increasing list of the code points at which membership flips, so a
look-up only counts how many of them were passed.
-/

namespace MarkupFormat.Text

/-- A set of characters, given by the code points where membership changes: the first begins the
first range, the second ends it, the third begins the second range, and so on. -/
structure CodeSet where
  bounds : List Nat

namespace CodeSet

/-- Walks the bounds up to `code`, flipping `inside` at each one passed. -/
def lookUp (code : Nat) (inside : Bool) : List Nat → Bool
  | [] => inside
  | bound :: rest => if code < bound then inside else lookUp code (!inside) rest

/-- Whether `c` belongs to the set. -/
def contains (set : CodeSet) (c : Char) : Bool :=
  lookUp c.toNat false set.bounds

end CodeSet

end MarkupFormat.Text
