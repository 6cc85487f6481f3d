import MarkupFormat.Layout.Walk
import Std.Data.HashSet

/-!
# Forced breaks

Which groups must break because something inside them does. The answer is a set of marks beside
the document, found in one walk over it: a break-parent node breaks the innermost group around it,
and a group that breaks does the same to the group around itself when it is left.
-/

namespace MarkupFormat.Layout

/-- Marks of the groups that something inside them breaks. -/
structure BreakSet where
  marks : Std.HashSet Mark := {}

namespace BreakSet

/-- Whether the group with the given mark and information breaks whatever room there is. -/
def isBroken (breaks : BreakSet) (mark : Mark) (info : GroupInfo) : Bool :=
  info.mustBreak || breaks.marks.contains mark

/-- How many groups the set holds. -/
def size (breaks : BreakSet) : Nat :=
  breaks.marks.size

/-- Breaks the innermost of the open groups, unless it has alternatives, among which the renderer
chooses, or has to break anyway. -/
def breakInnermost (breaks : BreakSet) : List Doc → BreakSet
  | .group mark info _ :: _ =>
    if info.mustBreak then breaks else ⟨breaks.marks.insert mark⟩
  | _ => breaks

/-- What the walk for forced breaks carries. -/
structure Search where
  /-- Groups entered and not left, innermost first. -/
  opened : List Doc := []
  /-- Marks of the groups met so far. A group met again is not searched again. -/
  visited : Std.HashSet Mark := {}
  breaks : BreakSet := {}

namespace Search

/-- Enters a group. -/
def open' (search : Search) (group : Doc) : Visit × Search :=
  (if search.visited.contains group.mark then .skipChildren else .proceed,
    { search with
      opened := group :: search.opened
      visited := search.visited.insert group.mark })

/-- Leaves a group. -/
def close (search : Search) (mark : Mark) (info : GroupInfo) : Search :=
  let opened := search.opened.tail
  { search with
    opened := opened
    breaks :=
      if search.breaks.isBroken mark info then search.breaks.breakInnermost opened
      else search.breaks }

/-- The walk that finds forced breaks. -/
def visitor : Visitor Search where
  enter search doc :=
    match doc with
    | .group .. | .choice .. => search.open' doc
    | _ => (.proceed, search)
  leave search doc :=
    match doc with
    | .breakParent _ =>
      { search with breaks := search.breaks.breakInnermost search.opened }
    | .group mark info _ | .choice mark info _ _ _ => search.close mark info
    | _ => search

end Search

end BreakSet

/-- The groups of `doc` that must break. -/
def Doc.breaks (doc : Doc) : BreakSet :=
  (doc.walk BreakSet.Search.visitor true {}).2.breaks

end MarkupFormat.Layout
