import MarkupFormat.Print.Attributes
import MarkupFormat.Print.Marker

/-!
# Tags

The opening and the closing tag of a node, with the markers that the node borrows and without
those that it lends.
-/

namespace MarkupFormat.Print

open Layout (Build Doc)
open Markup (Marker NodeId OwnedMarker)

namespace Page

variable (page : Page) (id : NodeId)

/-- The text of a marker that may have been borrowed. -/
def borrowed (owned : Option OwnedMarker) : Build Doc :=
  Build.text ((owned.map page.markerText).getD "")

/-- The text of a marker of the node. -/
def own (marker : Marker) : Build Doc :=
  Build.text (page.markerText ⟨id, marker⟩)

/-- The marker borrowed before the node. -/
def before : Build Doc :=
  page.borrowed (page.tree.borrowedBefore? id)

/-- The marker borrowed after the node. -/
def after : Build Doc :=
  page.borrowed (page.tree.borrowedAfter? id)

def openingStart : Build Doc :=
  if page.tree.lendsOpeningStart id then Build.empty
  else Build.seq [page.before id, page.own id .openingStart]

def openingEnd : Build Doc :=
  if page.tree.lendsOpeningEnd id then Build.empty else page.own id .openingEnd

def closingStart : Build Doc :=
  if page.tree.lendsClosingStart id then Build.empty
  else Build.seq [page.borrowed (page.tree.borrowedInside? id), page.own id .closingStart]

def closingEnd : Build Doc :=
  if page.tree.lendsClosingEnd id then Build.empty
  else Build.seq [page.own id .closingEnd, page.after id]

/-- The opening tag. The tag of a node that has no other is ended by the closing tag. -/
def openingTag : Printing Doc := do
  let start ← page.openingStart id
  let attributes ← page.printAttributes id
  let stop ← if page.isSelfClosing id then Build.empty else page.openingEnd id
  Build.concat [start, attributes, stop]

def closingTag : Build Doc :=
  Build.seq [if page.isSelfClosing id then Build.empty else page.closingStart id,
    page.closingEnd id]

end Page

end MarkupFormat.Print
