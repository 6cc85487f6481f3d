import Mathlib.Data.List.Basic
import Mathlib.Data.List.Induction
import MarkupFormat.Proofs.Markup.Nesting

/-!
# End tags that are left out

Items end one another, so a list of them is read alike with their end tags and without. The start tag of a group ends
at most the item before it and not the group around that item. So groups without end tags are read inside of the
group or even the item before them, unless these groups are empty (`sameShapes_writeWithout`).
-/

namespace MarkupFormat.Markup

open Text (byteLength)

/-! ### Writing without end tags -/

namespace Html

mutual

/-- What is written of a node when the end tags of elements with some names are left out. -/
def writeWithout (implied : List String) : Html → List Char
  | element name attributes children =>
    if (Tag.ofName name).isVoid then startTag name attributes
    else startTag name attributes ++
      (writeAllWithout implied children ++ if name ∈ implied then [] else endTag name)
  | text value => value.toList
  | comment value => write (comment value)

def writeAllWithout (implied : List String) : List Html → List Char
  | [] => []
  | html :: rest => html.writeWithout implied ++ writeAllWithout implied rest

end

mutual

def shape : Html → Shape
  | element name _ children => .element name (if (Tag.ofName name).isVoid then [] else shapes children)
  | text value => .text value
  | comment _ => .other []

def shapes : List Html → List Shape
  | [] => []
  | html :: rest => html.shape :: shapes rest

end

theorem writeAllWithout_eq_flatMap (implied : List String) (htmls : List Html) :
    writeAllWithout implied htmls = htmls.flatMap (writeWithout implied) := by
  induction htmls with
  | nil => rfl
  | cons html rest ih => rw [writeAllWithout, ih, List.flatMap_cons]

theorem shapes_eq_map (htmls : List Html) : shapes htmls = htmls.map shape := by
  induction htmls with
  | nil => rfl
  | cons html rest ih => rw [shapes, ih, List.map_cons]

mutual

theorem byteLength_writeWithout_le (implied : List String) : ∀ html : Html,
    byteLength (html.writeWithout implied) ≤ byteLength html.write
  | element name attributes children => by
    have inside := byteLength_writeAllWithout_le implied children
    unfold writeWithout write
    split
    · exact Nat.le_refl _
    · have ending : byteLength (if name ∈ implied then [] else endTag name) ≤ byteLength (endTag name) := by
        split
        · exact Nat.zero_le _
        · exact Nat.le_refl _
      simp only [Text.byteLength_append]
      omega
  | text _ => Nat.le_refl _
  | comment _ => Nat.le_refl _

theorem byteLength_writeAllWithout_le (implied : List String) : ∀ htmls : List Html,
    byteLength (writeAllWithout implied htmls) ≤ byteLength (writeAll htmls)
  | [] => Nat.le_refl _
  | html :: rest => by
    have first := byteLength_writeWithout_le implied html
    have others := byteLength_writeAllWithout_le implied rest
    simp only [writeAllWithout, writeAll, Text.byteLength_append]
    omega

end

mutual

theorem shape_placed (pos : Nat) : ∀ html : Html, (html.placed pos).shape = html.shape
  | element name attributes children => by
    have inside := shapes_placedAll (pos + byteLength (startTag name attributes)) children
    unfold placed shape
    dsimp only
    split
    · rfl
    · rw [← inside]
      rfl
  | text _ => rfl
  | comment _ => rfl

theorem shapes_placedAll (pos : Nat) : ∀ htmls : List Html, Fragment.shapes (placedAll pos htmls) = shapes htmls
  | [] => rfl
  | html :: rest => by
    rw [placedAll, Fragment.shapes, shapes, shape_placed pos html, shapes_placedAll _ rest]

end

theorem validAll_of_forall {htmls : List Html} (valid : ∀ html ∈ htmls, html.Valid ∧ html.isText = false) :
    ValidAll htmls := by
  induction htmls with
  | nil => trivial
  | cons html rest ih =>
    obtain ⟨first, noText⟩ := valid html List.mem_cons_self
    refine ⟨first, fun isText => ?_, ih fun other member => valid other (List.mem_cons_of_mem _ member)⟩
    rw [noText] at isText
    cases isText

end Html

/-! ### Lists and groups -/

/-- An element that only holds a text. -/
structure Item where
  name : String
  value : String

namespace Item

def html (item : Item) : Html :=
  .element item.name [] [.text item.value]

def opening (item : Item) : Opening :=
  ⟨item.name, item.value⟩

def opened (item : Item) : OpenShape :=
  ⟨item.name, [.text item.value]⟩

/-- The item with more inside of it, after its text. -/
def shapeAround (item : Item) (inside : List Shape) : Shape :=
  .element item.name (.text item.value :: inside)

def shape (item : Item) : Shape :=
  item.shapeAround []

/-- An item with one of some names and a text in which nothing but text can begin. -/
structure IsOneOf (names : List String) (item : Item) : Prop where
  name : item.name ∈ names
  nonempty : item.value ≠ ""
  inert : Inert item.value.toList

end Item

def listing (name : String) (items : List Item) : Html :=
  .element name [] (items.map Item.html)

def groupedListing (outer group : String) (groups : List (List Item)) : Html :=
  .element outer [] (groups.map (listing group))

/-- An element holds others that end one another and may stay open. -/
structure Holds (parent : String) (names : List String) : Prop where
  container : Html.IsContainer parent
  containers : ∀ name ∈ names, Html.IsContainer name
  held : ∀ name ∈ names, name ∉ (Tag.ofName parent).closedByChildren
  closed : ∀ name ∈ names, ∀ next ∈ names, next ∈ (Tag.ofName name).closedByChildren
  mayStayOpen : ∀ name ∈ names, (Tag.ofName name).closedByParent = true

/-- Groups of items inside of an element. `ends` tells whether an item ends at the start tag of a group. -/
structure IsGrouping (outer group : String) (names : List String) (ends : Bool) : Prop where
  groups : Holds outer [group]
  items : Holds group names
  apart : ∀ name ∈ names, (Tag.ofName name).closedByChildren.contains group = ends
  other : outer ∉ group :: names

theorem Html.IsContainer.isClosedBy {name : String} (container : Html.IsContainer name) (child : String) :
    (Tag.ofName name).isClosedBy child = (Tag.ofName name).closedByChildren.contains child := by
  rw [Tag.isClosedBy, container.ended, Bool.false_or]

namespace Holds

variable {parent : String} {names : List String} {items : List Item}

theorem valid_item (holds : Holds parent names) {item : Item} (isOneOf : item.IsOneOf names) : item.html.Valid := by
  have container := holds.containers item.name isOneOf.name
  refine ⟨container.named, nofun, ?_⟩
  rw [if_neg (by rw [container.ended]; decide), if_pos container.markup]
  refine ⟨⟨⟨isOneOf.nonempty, templated_of_inert isOneOf.inert⟩, nofun, trivial⟩, fun child member => ?_⟩
  rw [List.mem_singleton.mp member]
  nofun

theorem valid_element (holds : Holds parent names) {children : List Html}
    (valid : ∀ child ∈ children, child.Valid ∧ ∃ name ∈ names, child.name? = some name) :
    (Html.element parent [] children).Valid := by
  refine ⟨holds.container.named, nofun, ?_⟩
  rw [if_neg (by rw [holds.container.ended]; decide), if_pos holds.container.markup]
  refine ⟨Html.validAll_of_forall fun child member => ?_, fun child member inner named => ?_⟩
  · obtain ⟨childValid, name, -, named⟩ := valid child member
    refine ⟨childValid, ?_⟩
    cases child with
    | element => rfl
    | text => cases named
    | comment => cases named
  · obtain ⟨-, name, known, same⟩ := valid child member
    cases same.symm.trans named
    exact holds.held inner known

theorem valid_listing (holds : Holds parent names) (valid : ∀ item ∈ items, item.IsOneOf names) :
    (listing parent items).Valid := by
  refine holds.valid_element fun child member => ?_
  obtain ⟨item, known, rfl⟩ := List.mem_map.mp member
  exact ⟨holds.valid_item (valid item known), item.name, (valid item known).name, rfl⟩

theorem valid_opening (holds : Holds parent names) {opening : Opening} (member : opening ∈ items.map Item.opening)
    (valid : ∀ item ∈ items, item.IsOneOf names) : opening.Valid := by
  obtain ⟨item, known, rfl⟩ := List.mem_map.mp member
  exact ⟨holds.containers item.name (valid item known).name, templated_of_inert (valid item known).inert⟩

end Holds

/-! ### Items without end tags -/

namespace Opening

theorem followAll_append (nesting : Nesting) (openings others : List Opening) :
    followAll nesting (openings ++ others) = followAll (followAll nesting openings) others :=
  List.foldl_append

theorem followAll_cons_empty (nesting : Nesting) (name : String) (openings : List Opening) :
    followAll nesting (⟨name, ""⟩ :: openings) = followAll ((nesting.endedBy name).push name []) openings := by
  have follows : follow nesting ⟨name, ""⟩ = (nesting.endedBy name).push name [] := by
    rw [follow, texts, if_pos rfl]
  rw [followAll, List.foldl_cons, follows]
  rfl

theorem follow_item (nesting : Nesting) {item : Item} (nonempty : item.value ≠ "") :
    follow nesting item.opening = (nesting.endedBy item.name).push item.name [.text item.value] := by
  rw [follow, texts, Item.opening, if_neg nonempty]

end Opening

namespace Nesting

variable {innermost : OpenShape} {outer : List OpenShape} {nodes : List Shape} {name : String}

theorem endedBy_of_closed (closed : (Tag.ofName innermost.name).isClosedBy name = true) :
    endedBy ⟨innermost :: outer, nodes⟩ name = close ⟨innermost :: outer, nodes⟩ :=
  if_pos closed

theorem endedBy_of_open (stays : (Tag.ofName innermost.name).isClosedBy name = false) :
    endedBy ⟨innermost :: outer, nodes⟩ name = ⟨innermost :: outer, nodes⟩ :=
  if_neg (by rw [stays]; decide)

end Nesting

namespace Holds

variable {parent : String} {names : List String} {base : OpenShape} {around : List OpenShape} {nodes : List Shape}

theorem endedBy_parent (holds : Holds parent names) (named : base.name = parent) {name : String}
    (member : name ∈ names) : Nesting.endedBy ⟨base :: around, nodes⟩ name = ⟨base :: around, nodes⟩ := by
  apply Nesting.endedBy_of_open
  rw [named, holds.container.isClosedBy]
  simpa using holds.held name member

theorem endedBy_sibling (holds : Holds parent names) {innermost : OpenShape} (known : innermost.name ∈ names)
    {name : String} (member : name ∈ names) :
    Nesting.endedBy ⟨innermost :: base :: around, nodes⟩ name =
      ⟨{ base with children := innermost.close :: base.children } :: around, nodes⟩ := by
  apply Nesting.endedBy_of_closed
  rw [(holds.containers _ known).isClosedBy]
  simpa using holds.closed _ known name member

theorem followAll_items (holds : Holds parent names) (named : base.name = parent) (init : List Item) {last : Item}
    (valid : ∀ item ∈ init ++ [last], item.IsOneOf names) :
    Opening.followAll ⟨base :: around, nodes⟩ ((init ++ [last]).map Item.opening) =
      ⟨last.opened :: { base with children := (init.map Item.shape).reverse ++ base.children } :: around, nodes⟩ := by
  induction init using List.reverseRecOn generalizing last with
  | nil =>
    obtain ⟨name, nonempty, -⟩ := valid last List.mem_cons_self
    show Opening.follow ⟨base :: around, nodes⟩ last.opening = _
    rw [Opening.follow_item _ nonempty, holds.endedBy_parent named name]
    rfl
  | append_singleton init item ih =>
    have earlier : ∀ other ∈ init ++ [item], other.IsOneOf names := fun other member =>
      valid other (List.mem_append_left _ member)
    obtain ⟨known, -, -⟩ := earlier item (List.mem_append_right _ List.mem_cons_self)
    obtain ⟨name, nonempty, -⟩ := valid last (List.mem_append_right _ List.mem_cons_self)
    rw [List.map_append, Opening.followAll_append, ih earlier]
    show Opening.follow _ last.opening = _
    rw [Opening.follow_item _ nonempty, holds.endedBy_sibling known name, List.map_append, List.reverse_append]
    rfl

theorem settles_items (holds : Holds parent names) (named : base.name = parent) {items : List Item}
    (valid : ∀ item ∈ items, item.IsOneOf names) {name : String} (other : name ∉ names) :
    (Opening.followAll ⟨base :: around, nodes⟩ (items.map Item.opening)).Settles name
      ⟨{ base with children := (items.map Item.shape).reverse ++ base.children } :: around, nodes⟩ := by
  rcases List.eq_nil_or_concat' items with rfl | ⟨init, last, rfl⟩
  · exact .refl _
  · have known := (valid last (List.mem_append_right _ List.mem_cons_self)).name
    rw [holds.followAll_items named init valid]
    refine .ends (holds.mayStayOpen _ known) (fun same => other (same ▸ known)) ?_
    rw [List.map_append, List.reverse_append]
    exact .refl _

end Holds

/-! ### Groups without end tags -/

/-- A group of items as it is read without end tags before others. If it is empty these come after it, and otherwise
inside of it, and even inside of its last item if this does not end. -/
def readGroup (ends : Bool) (group : String) (items : List Item) (others : List Shape) : List Shape :=
  match items.getLast? with
  | none => .element group [] :: others
  | some last =>
    [.element group (items.dropLast.map Item.shape ++
      if ends then last.shape :: others else [last.shapeAround others])]

def readGroups (ends : Bool) (group : String) (groups : List (List Item)) : List Shape :=
  groups.foldr (readGroup ends group) []

def groupOpenings (group : String) (items : List Item) : List Opening :=
  ⟨group, ""⟩ :: items.map Item.opening

theorem readGroup_append_singleton (ends : Bool) (group : String) (init : List Item) (last : Item)
    (others : List Shape) :
    readGroup ends group (init ++ [last]) others =
      [.element group (init.map Item.shape ++ if ends then last.shape :: others else [last.shapeAround others])] := by
  rw [readGroup, List.getLast?_append, List.dropLast_concat]
  rfl

theorem readGroup_nil (ends : Bool) (group : String) (items : List Item) :
    readGroup ends group items [] = [.element group (items.map Item.shape)] := by
  rcases List.eq_nil_or_concat' items with rfl | ⟨init, last, rfl⟩
  · rfl
  · rw [readGroup_append_singleton, List.map_append]
    cases ends <;> rfl

/-- Groups without end tags are read beside each other exactly if all but the last are empty. -/
theorem readGroups_eq_iff (ends : Bool) (group : String) (groups : List (List Item)) :
    readGroups ends group groups = groups.map (fun items => .element group (items.map Item.shape)) ↔
      ∀ items ∈ groups.dropLast, items = [] := by
  induction groups with
  | nil => exact iff_of_true rfl nofun
  | cons items groups ih =>
    cases groups with
    | nil => exact iff_of_true (readGroup_nil ends group items) nofun
    | cons next groups =>
      rw [List.dropLast_cons_cons, List.forall_mem_cons, ← ih, readGroups, List.foldr_cons]
      rcases List.eq_nil_or_concat' items with rfl | ⟨init, last, rfl⟩
      · exact ⟨fun same => ⟨rfl, (List.cons.inj same).2⟩, fun both => congrArg _ both.2⟩
      · rw [readGroup_append_singleton]
        refine iff_of_false (fun same => ?_) fun both => absurd both.1 (by simp)
        cases (List.cons.inj same).2

namespace IsGrouping

variable {outer group : String} {names : List String} {ends : Bool} {groups : List (List Item)}

/-- Followed without end tags, groups come down to what `readGroups` tells once the last ones end. It is an induction
on the groups, where the element that is to hold the next group differs. -/
theorem settles_groups (grouping : IsGrouping outer group names ends)
    (valid : ∀ items ∈ groups, ∀ item ∈ items, item.IsOneOf names) {nesting : Nesting} {base : OpenShape}
    {around : List OpenShape} {nodes : List Shape} (ready : nesting.endedBy group = ⟨base :: around, nodes⟩)
    (settles : nesting.Settles outer ⟨base :: around, nodes⟩) :
    (Opening.followAll nesting (groups.flatMap (groupOpenings group))).Settles outer
      ⟨{ base with children := (readGroups ends group groups).reverse ++ base.children } :: around, nodes⟩ := by
  have otherGroup : group ≠ outer := fun same => grouping.other (same ▸ List.mem_cons_self)
  have otherItem : ∀ name ∈ names, name ≠ outer := fun name member same =>
    grouping.other (List.mem_cons_of_mem _ (same ▸ member))
  have groupStays := grouping.groups.mayStayOpen group List.mem_cons_self
  induction groups generalizing nesting base around with
  | nil => exact settles
  | cons items groups ih =>
    have first := valid items List.mem_cons_self
    have others : ∀ items ∈ groups, ∀ item ∈ items, item.IsOneOf names := fun items member =>
      valid items (List.mem_cons_of_mem _ member)
    rw [List.flatMap_cons, groupOpenings, List.cons_append, Opening.followAll_cons_empty, ready,
      Opening.followAll_append]
    show (Opening.followAll (Opening.followAll ⟨⟨group, []⟩ :: base :: around, nodes⟩ _) _).Settles _ _
    rw [readGroups, List.foldr_cons, ← readGroups]
    rcases List.eq_nil_or_concat' items with rfl | ⟨init, last, rfl⟩
    · refine (ih others (grouping.groups.endedBy_sibling List.mem_cons_self List.mem_cons_self)
        (.ends groupStays otherGroup (.refl _))).trans ?_
      rw [readGroup, List.getLast?_nil, List.reverse_cons, List.append_assoc]
      exact .refl _
    · have known := (first last (List.mem_append_right _ List.mem_cons_self)).name
      have lastStays := grouping.items.mayStayOpen _ known
      have closed := (grouping.items.containers _ known).isClosedBy group
      rw [grouping.apart _ known] at closed
      rw [grouping.items.followAll_items rfl init first, readGroup_append_singleton]
      cases ends with
      | false =>
        -- The item stays open, and what follows goes inside of it.
        refine (ih others (Nesting.endedBy_of_open closed) (.refl _)).trans ?_
        refine .ends lastStays (otherItem _ known) (.ends groupStays otherGroup ?_)
        simp [Nesting.close, Nesting.add, OpenShape.close, Item.opened, Item.shapeAround, Nesting.Settles.refl]
      | true =>
        -- The item ends, and what follows goes inside of the group around it.
        refine (ih others (Nesting.endedBy_of_closed closed)
          (.ends lastStays (otherItem _ known) (.refl _))).trans (.ends groupStays otherGroup ?_)
        simp [Nesting.close, Nesting.add, OpenShape.close, Item.opened, Item.shape, Item.shapeAround,
          Nesting.Settles.refl]

end IsGrouping

/-! ### What is written -/

theorem Opening.writeAll_cons_empty (name : String) (openings : List Opening) :
    writeAll (⟨name, ""⟩ :: openings) = Html.startTag name [] ++ writeAll openings := by
  rw [writeAll, List.flatMap_cons, write]
  exact congrArg (· ++ writeAll openings) (List.append_nil _)

namespace Html.IsContainer

variable {name : String} (container : Html.IsContainer name)

include container

theorem writeWithout_element (implied : List String) (children : List Html) :
    (element name [] children).writeWithout implied =
      startTag name [] ++ (children.flatMap (writeWithout implied) ++ if name ∈ implied then [] else endTag name) := by
  rw [writeWithout, if_neg (by rw [container.ended]; decide), writeAllWithout_eq_flatMap]

theorem shape_element (attributes : List HtmlAttribute) (children : List Html) :
    (element name attributes children).shape = .element name (children.map Html.shape) := by
  rw [shape, if_neg (by rw [container.ended]; decide), shapes_eq_map]

end Html.IsContainer

namespace Holds

variable {parent : String} {names implied : List String} {items : List Item}

theorem shape_listing (holds : Holds parent names) (valid : ∀ item ∈ items, item.IsOneOf names) :
    (listing parent items).shape = .element parent (items.map Item.shape) := by
  rw [listing, holds.container.shape_element, List.map_map]
  refine congrArg _ (List.map_congr_left fun item member => ?_)
  exact (holds.containers _ (valid item member).name).shape_element [] _

theorem writeWithout_items (holds : Holds parent names) (known : names ⊆ implied)
    (valid : ∀ item ∈ items, item.IsOneOf names) :
    (items.map Item.html).flatMap (Html.writeWithout implied) = Opening.writeAll (items.map Item.opening) := by
  rw [Opening.writeAll, List.flatMap_map, List.flatMap_map]
  refine List.flatMap_congr fun item member => ?_
  have name := (valid item member).name
  rw [Item.html, (holds.containers _ name).writeWithout_element, if_pos (known name), List.append_nil,
    List.flatMap_singleton]
  rfl

end Holds

theorem IsGrouping.writeWithout_groups {outer group : String} {names : List String} {ends : Bool}
    (grouping : IsGrouping outer group names ends) {groups : List (List Item)}
    (valid : ∀ items ∈ groups, ∀ item ∈ items, item.IsOneOf names) :
    (groups.map (listing group)).flatMap (Html.writeWithout (group :: names)) =
      Opening.writeAll (groups.flatMap (groupOpenings group)) := by
  rw [Opening.writeAll, List.flatMap_map, List.flatMap_assoc]
  refine List.flatMap_congr fun items member => ?_
  rw [listing, grouping.items.container.writeWithout_element, if_pos List.mem_cons_self, List.append_nil,
    grouping.items.writeWithout_items (List.subset_cons_self _ _) (valid items member)]
  exact (Opening.writeAll_cons_empty group _).symm

/-! ### Reading -/

variable {options : ParseOptions}

/-- Two sources are read, and as the same nodes apart from where these are written. -/
def SameShapes (options : ParseOptions) (source other : List Char) : Prop :=
  ∃ content others, parse (String.ofList source) options = .ok content ∧
    parse (String.ofList other) options = .ok others ∧ Fragment.shapes content = Fragment.shapes others

theorem sameShapes_iff {source other : List Char} {content others : List Fragment}
    (shorter : byteLength source ≤ byteLength other) (read : readSource options source = .ok content)
    (readOther : readSource options other = .ok others) :
    SameShapes options source other ↔
      Fragment.shapes content = Fragment.shapes others ∧ byteLength other ≤ maxSourceBytes := by
  constructor
  · rintro ⟨_, _, parsed, parsedOther, same⟩
    obtain ⟨found, -⟩ := parse_eq_ok_iff.mp parsed
    obtain ⟨foundOther, small⟩ := parse_eq_ok_iff.mp parsedOther
    cases read.symm.trans found
    cases readOther.symm.trans foundOther
    exact ⟨same, small⟩
  · rintro ⟨same, small⟩
    exact ⟨content, others, parse_eq_ok_iff.mpr ⟨read, Nat.le_trans shorter small⟩,
      parse_eq_ok_iff.mpr ⟨readOther, small⟩, same⟩

/-- An element that is written with its end tags is read as it is. -/
theorem readSource_write {name : String} {children : List Html} (valid : (Html.element name [] children).Valid) :
    ∃ content, readSource options (Html.element name [] children).write = .ok content ∧
      Fragment.shapes content = [(Html.element name [] children).shape] := by
  have admits : OpenElements.Admits {} (.element name [] children) := fun _ _ _ innermost => by cases innermost
  have read : readContent options {} ⟨0, (Html.element name [] children).write ++ []⟩ = _ :=
    Html.readContent_write _ valid admits nofun
  rw [List.append_nil, readContent_end] at read
  have bracket : ∃ more, (Html.element name [] children).write = '<' :: more := by
    unfold Html.write
    split <;> exact ⟨_, rfl⟩
  obtain ⟨more, bracket⟩ := bracket
  rw [bracket] at read ⊢
  rw [readSource_of_bracket, read]
  refine ⟨_, rfl, ?_⟩
  rw [show OpenElements.add {} ((Html.element name [] children).placed 0) =
    { nodes := [(Html.element name [] children).placed 0] } from rfl, finish_of_nodes]
  exact congrArg (fun shape => [shape]) (Html.shape_placed 0 _)

/-- Without the end tags inside of it an element is read alike exactly if its start tags come down to the shapes of
its children. -/
theorem sameShapes_element {outer : String} {children : List Html} {implied : List String} {openings : List Opening}
    {found : List Shape} (container : Html.IsContainer outer) (other : outer ∉ implied)
    (valid : (Html.element outer [] children).Valid) (validOpenings : ∀ opening ∈ openings, opening.Valid)
    (written : children.flatMap (Html.writeWithout implied) = Opening.writeAll openings)
    (settles : (Opening.followAll ⟨[⟨outer, []⟩], []⟩ openings).Settles outer ⟨[⟨outer, found.reverse ++ []⟩], []⟩) :
    let whole := Html.element outer [] children
    SameShapes options (whole.writeWithout implied) whole.write ↔
      found = children.map Html.shape ∧ byteLength whole.write ≤ maxSourceBytes := by
  have whole : (Html.element outer [] children).writeWithout implied =
      Opening.writeAll (⟨outer, ""⟩ :: openings) ++ Html.endTag outer := by
    rw [container.writeWithout_element, if_neg other, written, Opening.writeAll_cons_empty, List.append_assoc]
  have outermost : Opening.Valid ⟨outer, ""⟩ := ⟨container, .nil⟩
  have follows : Opening.followAll ⟨[], []⟩ (⟨outer, ""⟩ :: openings) =
      Opening.followAll ⟨[⟨outer, []⟩], []⟩ openings := Opening.followAll_cons_empty _ outer openings
  rw [← follows] at settles
  obtain ⟨content, read, shapes⟩ := readSource_openings options
    (List.forall_mem_cons.mpr ⟨outermost, validOpenings⟩) ⟨outer, found.reverse ++ []⟩ container settles
  obtain ⟨others, readOthers, shapesOthers⟩ : ∃ content, readSource options _ = .ok content ∧ _ :=
    readSource_write valid
  rw [← whole] at read
  dsimp only
  rw [sameShapes_iff (Html.byteLength_writeWithout_le implied _) read readOthers, shapes, shapesOthers,
    container.shape_element, OpenShape.close, List.append_nil, List.reverse_reverse]
  simp only [List.cons.injEq, Shape.element.injEq, true_and, and_true]

theorem sameShapes_listing {parent : String} {names : List String} {items : List Item} (holds : Holds parent names)
    (other : parent ∉ names) (valid : ∀ item ∈ items, item.IsOneOf names) :
    SameShapes options ((listing parent items).writeWithout names) (listing parent items).write ↔
      byteLength (listing parent items).write ≤ maxSourceBytes := by
  have shapes := holds.shape_listing valid
  rw [listing, holds.container.shape_element] at shapes
  exact (sameShapes_element holds.container other (holds.valid_listing valid)
    (fun _ member => holds.valid_opening member valid) (holds.writeWithout_items (List.Subset.refl _) valid)
    (holds.settles_items rfl valid other)).trans (and_iff_right (Shape.element.inj shapes).2.symm)

/-- Groups of items are read alike without their end tags and those of the items exactly if all but the last are
empty. -/
theorem sameShapes_groupedListing {outer group : String} {names : List String} {ends : Bool}
    (grouping : IsGrouping outer group names ends) {groups : List (List Item)}
    (valid : ∀ items ∈ groups, ∀ item ∈ items, item.IsOneOf names) :
    let whole := groupedListing outer group groups
    SameShapes options (whole.writeWithout (group :: names)) whole.write ↔
      (∀ items ∈ groups.dropLast, items = []) ∧ byteLength whole.write ≤ maxSourceBytes := by
  have container := grouping.groups.container
  have validWhole : (groupedListing outer group groups).Valid := by
    refine grouping.groups.valid_element fun child member => ?_
    obtain ⟨items, known, rfl⟩ := List.mem_map.mp member
    exact ⟨grouping.items.valid_listing (valid items known), group, List.mem_cons_self, rfl⟩
  have validOpenings : ∀ opening ∈ groups.flatMap (groupOpenings group), opening.Valid := by
    intro opening member
    obtain ⟨items, known, member⟩ := List.mem_flatMap.mp member
    rcases List.mem_cons.mp member with rfl | member
    · exact ⟨grouping.items.container, .nil⟩
    · exact grouping.items.valid_opening member (valid items known)
  have shapes : (groups.map (listing group)).map Html.shape =
      groups.map fun items => .element group (items.map Item.shape) := by
    rw [List.map_map]
    exact List.map_congr_left fun items member => grouping.items.shape_listing (valid items member)
  have ready : Nesting.endedBy ⟨[⟨outer, []⟩], []⟩ group = ⟨[⟨outer, []⟩], []⟩ :=
    grouping.groups.endedBy_parent rfl List.mem_cons_self
  have settles := grouping.settles_groups valid ready (.refl _)
  rw [← readGroups_eq_iff ends group groups, ← shapes]
  exact sameShapes_element container grouping.other validWhole validOpenings (grouping.writeWithout_groups valid)
    settles

/-! ### Tables, selections and lists -/

theorem isContainer_of_mem {name : String}
    (member : name ∈ ["table", "tr", "td", "th", "select", "optgroup", "option", "ul", "li"]) :
    Html.IsContainer name := by
  simp only [List.mem_cons, List.not_mem_nil, or_false] at member
  rcases member with rfl | rfl | rfl | rfl | rfl | rfl | rfl | rfl | rfl <;>
    exact ⟨⟨⟨_, _, rfl, rfl⟩, List.all_eq_true.mp rfl, by decide⟩, rfl, rfl⟩

theorem holds_of_subset {parent : String} {names : List String}
    (known : parent :: names ⊆ ["table", "tr", "td", "th", "select", "optgroup", "option", "ul", "li"])
    (held : ∀ name ∈ names, name ∉ (Tag.ofName parent).closedByChildren)
    (closed : ∀ name ∈ names, ∀ next ∈ names, next ∈ (Tag.ofName name).closedByChildren)
    (mayStayOpen : ∀ name ∈ names, (Tag.ofName name).closedByParent = true) : Holds parent names where
  container := isContainer_of_mem (known List.mem_cons_self)
  containers := fun _ member => isContainer_of_mem (known (List.mem_cons_of_mem _ member))
  held := held
  closed := closed
  mayStayOpen := mayStayOpen

theorem holds_list : Holds "ul" ["li"] :=
  holds_of_subset (by decide) (by decide) (by decide) (by decide)

theorem isGrouping_table : IsGrouping "table" "tr" ["td", "th"] false where
  groups := holds_of_subset (by decide) (by decide) (by decide) (by decide)
  items := holds_of_subset (by decide) (by decide) (by decide) (by decide)
  apart := by decide
  other := by decide

/-- An option ends at the start tag of a group, but the group around it does not. -/
theorem isGrouping_select : IsGrouping "select" "optgroup" ["option"] true where
  groups := holds_of_subset (by decide) (by decide) (by decide) (by decide)
  items := holds_of_subset (by decide) (by decide) (by decide) (by decide)
  apart := by decide
  other := by decide

/-- A list is read alike without the end tags of its items. A table without the end tags of its rows and cells is only
read alike if all rows but the last are empty, and a selection without the end tags of its groups and options if all
groups but the last are. -/
theorem sameShapes_writeWithout (options : ParseOptions) :
    (∀ items : List Item, (∀ item ∈ items, item.IsOneOf ["li"]) →
      (SameShapes options ((listing "ul" items).writeWithout ["li"]) (listing "ul" items).write ↔
        byteLength (listing "ul" items).write ≤ maxSourceBytes)) ∧
    (∀ rows : List (List Item), (∀ cells ∈ rows, ∀ cell ∈ cells, cell.IsOneOf ["td", "th"]) →
      let table := groupedListing "table" "tr" rows
      (SameShapes options (table.writeWithout ["tr", "td", "th"]) table.write ↔
        (∀ cells ∈ rows.dropLast, cells = []) ∧ byteLength table.write ≤ maxSourceBytes)) ∧
    (∀ groups : List (List Item), (∀ group ∈ groups, ∀ item ∈ group, item.IsOneOf ["option"]) →
      let select := groupedListing "select" "optgroup" groups
      (SameShapes options (select.writeWithout ["optgroup", "option"]) select.write ↔
        (∀ group ∈ groups.dropLast, group = []) ∧ byteLength select.write ≤ maxSourceBytes)) :=
  ⟨fun _ valid => sameShapes_listing holds_list (by decide) valid,
    fun _ valid => sameShapes_groupedListing isGrouping_table valid,
    fun _ valid => sameShapes_groupedListing isGrouping_select valid⟩

/-- A list of two items is read alike, but not a table of two rows. -/
theorem sameShapes_writeWithout_twoRows :
    SameShapes {} "<ul><li>a<li>b</ul>".toList "<ul><li>a</li><li>b</li></ul>".toList ∧
      ¬ SameShapes {} "<table><tr><td>a<tr><td>b</table>".toList
        "<table><tr><td>a</td></tr><tr><td>b</td></tr></table>".toList := by
  obtain ⟨lists, tables, -⟩ := sameShapes_writeWithout {}
  have plain (names : List String) (name value : String) (member : name ∈ names) (nonempty : value ≠ "")
      (inert : (value.toList.all fun c => c != '<' && c != '\x7b') = true) : Item.IsOneOf names ⟨name, value⟩ :=
    ⟨member, nonempty, fun c inside => by simpa using List.all_eq_true.mp inert c inside⟩
  constructor
  · refine (lists [⟨"li", "a"⟩, ⟨"li", "b"⟩] fun item member => ?_).mpr (by decide)
    simp only [List.mem_cons, List.not_mem_nil, or_false] at member
    rcases member with rfl | rfl <;> exact plain _ _ _ (by decide) (by decide) rfl
  · refine fun same => absurd
      ((tables [[⟨"td", "a"⟩], [⟨"td", "b"⟩]] fun cells known cell member => ?_).mp same).1 (by decide)
    simp only [List.mem_cons, List.not_mem_nil, or_false] at known
    rcases known with rfl | rfl <;> rw [List.mem_singleton.mp member] <;>
      exact plain _ _ _ (by decide) (by decide) rfl

end MarkupFormat.Markup
