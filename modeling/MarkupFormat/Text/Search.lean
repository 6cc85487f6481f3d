/-!
# Searching text

Where a given text first occurs in another.
-/

namespace MarkupFormat.Text

/-- `cs` without `needle` at its start. -/
def dropPrefix? (needle cs : List Char) : Option (List Char) :=
  if needle.isPrefixOf cs then some (cs.drop needle.length) else none

/-- What is before the first occurrence of `needle` in `cs` and what is after it. -/
def breakOn (needle : List Char) : List Char → Option (List Char × List Char)
  | [] => if needle = [] then some ([], []) else none
  | c :: cs =>
    if needle.isPrefixOf (c :: cs) then some ([], (c :: cs).drop needle.length)
    else (breakOn needle cs).map fun (before, after) => (c :: before, after)

theorem isPrefixOf_append_drop {needle cs : List Char} (h : needle.isPrefixOf cs) :
    cs = needle ++ cs.drop needle.length := by
  obtain ⟨rest, rfl⟩ := List.isPrefixOf_iff_prefix.mp h
  simp

/-- A break loses nothing. -/
theorem eq_of_breakOn {needle cs before after : List Char}
    (h : breakOn needle cs = some (before, after)) : cs = before ++ needle ++ after := by
  induction cs generalizing before after with
  | nil =>
    unfold breakOn at h
    split at h
    · cases h; simp_all
    · cases h
  | cons c cs ih =>
    unfold breakOn at h
    split at h
    · next found => cases h; simpa using isPrefixOf_append_drop found
    · obtain ⟨⟨before', after'⟩, found, same⟩ := Option.map_eq_some_iff.mp h
      cases same
      rw [ih found]
      simp

/-- Whether `needle` occurs in `cs`. -/
def occursIn (needle cs : List Char) : Bool :=
  (breakOn needle cs).isSome

end MarkupFormat.Text
