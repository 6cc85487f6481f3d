import MarkupFormat.Proofs.Markup.RoundTrip

/-!
# Nesting

A shape is what a node is apart from its place in the source. The shapes of the open elements follow from the names
of the start tags and the texts after them (`readContent_openings`), and an end tag ends the elements inside of the
one it names, if these may stay open (`endTag_of_settles`).
-/

namespace MarkupFormat.Markup

open Text (Templated byteLength)

/-! ### Shapes -/

/-- The names of elements, what is inside of them, and the values of texts. -/
inductive Shape where
  | element (name : String) (children : List Shape)
  | text (value : String)
  | other (children : List Shape)

namespace Fragment

mutual

def shape : Fragment → Shape
  | node info children =>
    match info.kind with
    | .element element => .element element.fullName (shapes children)
    | .text value => .text value
    | _ => .other (shapes children)

def shapes : List Fragment → List Shape
  | [] => []
  | fragment :: rest => fragment.shape :: shapes rest

end

theorem shapes_eq_map (fragments : List Fragment) : shapes fragments = fragments.map shape := by
  induction fragments with
  | nil => rfl
  | cons fragment rest ih => rw [shapes, ih, List.map_cons]

end Fragment

/-- An element that is not ended, with what is inside of it, the last one first. -/
structure OpenShape where
  name : String
  children : List Shape

def OpenShape.close (opened : OpenShape) : Shape :=
  .element opened.name opened.children.reverse

/-- The shapes of the open elements, the innermost first, and of the nodes outside of them, the last one first. -/
structure Nesting where
  stack : List OpenShape
  nodes : List Shape

/-- A start tag without attributes and the text after it. -/
structure Opening where
  name : String
  text : String

namespace Nesting

def add (nesting : Nesting) (shape : Shape) : Nesting :=
  match nesting.stack with
  | [] => { nesting with nodes := shape :: nesting.nodes }
  | innermost :: outer =>
    { nesting with stack := { innermost with children := shape :: innermost.children } :: outer }

def close (nesting : Nesting) : Nesting :=
  match nesting.stack with
  | [] => nesting
  | innermost :: outer => { nesting with stack := outer }.add innermost.close

/-- What is open once a start tag with a name has ended the element that cannot hold it. -/
def endedBy (nesting : Nesting) (name : String) : Nesting :=
  match nesting.stack with
  | [] => nesting
  | innermost :: _ => if (Tag.ofName innermost.name).isClosedBy name then nesting.close else nesting

def push (nesting : Nesting) (name : String) (children : List Shape) : Nesting :=
  { nesting with stack := ⟨name, children⟩ :: nesting.stack }

end Nesting

/-- The name of an element with an end tag whose content is markup. -/
structure Html.IsContainer (name : String) : Prop where
  named : IsElementName name
  ended : (Tag.ofName name).isVoid = false
  markup : (Tag.ofName name).content = .parsable

namespace Opening

def write (opening : Opening) : List Char :=
  Html.startTag opening.name [] ++ opening.text.toList

def writeAll (openings : List Opening) : List Char :=
  openings.flatMap write

/-- The element can hold the text, which is written as it is. -/
structure Valid (opening : Opening) : Prop where
  container : Html.IsContainer opening.name
  text : Templated (· != '<') opening.text.toList

def texts (opening : Opening) : List Shape :=
  if opening.text = "" then [] else [.text opening.text]

def follow (nesting : Nesting) (opening : Opening) : Nesting :=
  (nesting.endedBy opening.name).push opening.name opening.texts

def followAll (nesting : Nesting) (openings : List Opening) : Nesting :=
  openings.foldl follow nesting

end Opening

/-! ### Open elements -/

/-- The name alone says what the element is. -/
structure Element.Plain (element : Element) : Prop where
  ns : element.ns = none
  tag : element.tag = .ofName element.name

def OpenElement.shape (opened : OpenElement) : OpenShape :=
  ⟨opened.element.name, opened.children.map Fragment.shape⟩

theorem OpenElement.shape_close {opened : OpenElement} (plain : opened.element.Plain) (endSpan : Option Span) :
    (opened.close endSpan).shape = opened.shape.close := by
  have name : opened.element.fullName = opened.element.name := by
    rw [Element.fullName, plain.ns]
  show Shape.element opened.element.fullName (Fragment.shapes opened.children.reverse) = _
  rw [name, Fragment.shapes_eq_map, List.map_reverse]
  rfl

namespace OpenElements

def nesting (opened : OpenElements) : Nesting :=
  ⟨opened.stack.map OpenElement.shape, opened.nodes.map Fragment.shape⟩

def Plain (opened : OpenElements) : Prop :=
  ∀ inner ∈ opened.stack, inner.element.Plain

variable {opened : OpenElements} {name : String}

theorem nesting_add (opened : OpenElements) (node : Fragment) :
    (opened.add node).nesting = opened.nesting.add node.shape := by
  obtain ⟨stack, nodes⟩ := opened
  cases stack <;> rfl

theorem plain_add (plain : opened.Plain) (node : Fragment) : (opened.add node).Plain := by
  obtain ⟨stack, nodes⟩ := opened
  cases stack with
  | nil => exact plain
  | cons innermost outer =>
    intro inner member
    rcases List.mem_cons.mp member with rfl | member
    · exact plain innermost List.mem_cons_self
    · exact plain inner (List.mem_cons_of_mem _ member)

theorem nesting_close (plain : opened.Plain) (endSpan : Option Span) :
    (opened.close endSpan).nesting = opened.nesting.close := by
  obtain ⟨stack, nodes⟩ := opened
  cases stack with
  | nil => rfl
  | cons innermost outer =>
    have innermostPlain := plain innermost List.mem_cons_self
    show (OpenElements.add ⟨outer, nodes⟩ (innermost.close endSpan)).nesting = _
    rw [nesting_add, OpenElement.shape_close innermostPlain]
    rfl

theorem plain_close (plain : opened.Plain) (endSpan : Option Span) : (opened.close endSpan).Plain := by
  obtain ⟨stack, nodes⟩ := opened
  cases stack with
  | nil => exact plain
  | cons innermost outer =>
    have outside : OpenElements.Plain ⟨outer, nodes⟩ := fun inner member => plain inner (List.mem_cons_of_mem _ member)
    exact plain_add outside _

theorem plain_innermost (plain : opened.Plain) {parent : Element} (innermost : opened.innermost? = some parent) :
    parent.Plain := by
  obtain ⟨inner, first, rfl⟩ := Option.map_eq_some_iff.mp innermost
  exact plain inner (List.mem_of_mem_head? first)

theorem nesting_endedBy (plain : opened.Plain) (name : String) :
    (opened.endedBy name).nesting = opened.nesting.endedBy name ∧ (opened.endedBy name).Plain := by
  obtain ⟨stack, nodes⟩ := opened
  cases stack with
  | nil => exact ⟨rfl, plain⟩
  | cons innermost outer =>
    have tag := (plain innermost List.mem_cons_self).tag
    have closed := nesting_close plain none
    have closedPlain := plain_close plain none
    unfold endedBy Nesting.endedBy
    simp only [nesting, innermost?, OpenElement.shape, List.map_cons, List.head?_cons, Option.map_some, tag]
    split
    · exact ⟨closed, closedPlain⟩
    · exact ⟨rfl, plain⟩

/-! ### Start tags -/

theorem startTag_plain {opening : Opening} (valid : opening.Valid) (plain : opened.Plain) (pos : Nat) :
    opened.startTag (Html.placedTag pos opening.name []) =
      ((opened.endedBy opening.name).push (Html.placedElement pos opening.name [])
        ⟨pos, pos + byteLength (Html.startTag opening.name [])⟩, false) := by
  have element : (Html.placedTag pos opening.name []).elementIn opened.innermost? = _ :=
    elementIn_eq valid.container.named fun parent innermost => (plain_innermost plain innermost).ns
  have content : (Html.placedElement pos opening.name []).hasRawContent = false := by
    simp [Element.hasRawContent, Tag.contentType, Html.placedElement, valid.container.markup]
  rw [startTag_eq_startElement, element, startElement, if_neg (by simp [Html.placedTag, Html.placedElement,
    valid.container.ended]), content]
  rfl

theorem nesting_push (plain : opened.Plain) (pos : Nat) (name : String) (startSpan : Span) :
    (opened.push (Html.placedElement pos name []) startSpan).nesting = opened.nesting.push name [] ∧
      (opened.push (Html.placedElement pos name []) startSpan).Plain := by
  refine ⟨rfl, fun inner member => ?_⟩
  rcases List.mem_cons.mp member with rfl | member
  · exact ⟨rfl, rfl⟩
  · exact plain inner member

end OpenElements

/-! ### Reading -/

variable {options : ParseOptions} {opened : OpenElements}

namespace Opening

theorem endsText_writeAll {openings : List Opening} {rest : List Char} (valid : ∀ opening ∈ openings, opening.Valid)
    (ends : EndsText options rest) : EndsText options (writeAll openings ++ rest) := by
  cases openings with
  | nil => exact ends
  | cons opening openings =>
    rw [writeAll, List.flatMap_cons, write, List.append_assoc, List.append_assoc]
    exact Html.endsText_startTag (valid opening List.mem_cons_self).container.named [] _

theorem readContent_opening {opening : Opening} (valid : opening.Valid) (plain : opened.Plain) (pos : Nat)
    {rest : List Char} (ends : EndsText options rest) :
    ∃ after last, after.Plain ∧ after.nesting = follow opened.nesting opening ∧
      readContent options opened ⟨pos, opening.write ++ rest⟩ = readContent options after ⟨last, rest⟩ := by
  obtain ⟨ended, endedPlain⟩ := OpenElements.nesting_endedBy plain opening.name
  let inner := pos + byteLength (Html.startTag opening.name [])
  let around := (opened.endedBy opening.name).push (Html.placedElement pos opening.name []) ⟨pos, inner⟩
  obtain ⟨pushed, aroundPlain⟩ : around.nesting = _ ∧ around.Plain :=
    OpenElements.nesting_push endedPlain pos opening.name ⟨pos, inner⟩
  have nonempty (more : List Char) : Html.startTag opening.name [] ++ more ≠ [] := by
    simp [Html.startTag]
  have element (next : Cursor) :
      readElement opened (Html.placedTag pos opening.name []) next = .ok (around, next) := by
    unfold readElement
    rw [OpenElements.startTag_plain valid plain]
  have opens : readContent options opened ⟨pos, opening.write ++ rest⟩ =
      readContent options around ⟨inner, opening.text.toList ++ rest⟩ := by
    rw [write, List.append_assoc]
    exact Html.readContent_startTag (nonempty _) (Html.readLexeme_startTag valid.container.named nofun) (element _)
  rw [opens, follow, ← ended, texts]
  by_cases empty : opening.text = ""
  · rw [if_pos empty, ← pushed, empty]
    exact ⟨around, inner, aroundPlain, rfl, rfl⟩
  · have some : opening.text.toList ≠ [] := fun none => empty (String.toList_eq_nil_iff.mp none)
    have shown := OpenElements.nesting_add around
      (.leaf (.text opening.text) ⟨inner, inner + byteLength opening.text.toList⟩)
    rw [if_neg empty, readContent_text some valid.text ends, String.ofList_toList]
    exact ⟨_, _, OpenElements.plain_add aroundPlain _, by rw [shown, pushed]; rfl, rfl⟩

theorem readContent_openings {openings : List Opening} (valid : ∀ opening ∈ openings, opening.Valid)
    (plain : opened.Plain) (pos : Nat) {rest : List Char} (ends : EndsText options rest) :
    ∃ after last, after.Plain ∧ after.nesting = followAll opened.nesting openings ∧
      readContent options opened ⟨pos, writeAll openings ++ rest⟩ = readContent options after ⟨last, rest⟩ := by
  induction openings generalizing opened pos with
  | nil => exact ⟨opened, pos, plain, rfl, rfl⟩
  | cons opening openings ih =>
    have others : ∀ other ∈ openings, other.Valid := fun other member => valid other (List.mem_cons_of_mem _ member)
    obtain ⟨inner, next, innerPlain, one, read⟩ :=
      readContent_opening (valid opening List.mem_cons_self) plain pos (endsText_writeAll others ends)
    obtain ⟨after, last, afterPlain, all, readAll⟩ := ih others innerPlain next
    refine ⟨after, last, afterPlain, ?_, ?_⟩
    · rw [all, one]
      rfl
    · rw [← readAll, ← read, writeAll, List.flatMap_cons, List.append_assoc]
      rfl

end Opening

/-! ### End tags -/

/-- What is left once innermost elements have ended that may stay open and do not have the given name. -/
inductive Nesting.Settles (name : String) : Nesting → Nesting → Prop where
  | refl (nesting : Nesting) : Settles name nesting nesting
  | ends {innermost : OpenShape} {outer : List OpenShape} {nodes : List Shape} {settled : Nesting}
      (mayStayOpen : (Tag.ofName innermost.name).closedByParent = true) (other : innermost.name ≠ name)
      (settles : Settles name (Nesting.close ⟨innermost :: outer, nodes⟩) settled) :
      Settles name ⟨innermost :: outer, nodes⟩ settled

theorem Nesting.Settles.trans {name : String} {first second third : Nesting} (one : first.Settles name second)
    (two : second.Settles name third) : first.Settles name third := by
  induction one with
  | refl => exact two
  | ends mayStayOpen other _ ih => exact .ends mayStayOpen other (ih two)

/-- The element with a name is ended once those inside of it are, if they may stay open. -/
theorem closeNamed?_of_settles {base : OpenShape} {outer : List OpenShape} {nodes : List Shape} (span : Span)
    (plain : opened.Plain) (settles : opened.nesting.Settles base.name ⟨base :: outer, nodes⟩) :
    ∃ after, opened.closeNamed? base.name none span = some after ∧
      after.nesting = Nesting.close ⟨base :: outer, nodes⟩ := by
  -- Each step of the induction ends one element, and the open elements go with it.
  generalize shown : opened.nesting = start at settles
  generalize ended : (⟨base :: outer, nodes⟩ : Nesting) = last at settles
  induction settles generalizing opened with
  | refl =>
    obtain ⟨stack, outside⟩ := opened
    subst ended
    cases stack with
    | nil => cases shown
    | cons innermost around =>
      have name : innermost.element.name = base.name :=
        congrArg OpenShape.name (List.cons.inj (Nesting.mk.inj shown).1).1
      have ns := (plain innermost List.mem_cons_self).ns
      rw [OpenElements.closeNamed?]
      dsimp only
      rw [if_pos ⟨name, ns⟩, ← shown]
      exact ⟨_, rfl, OpenElements.nesting_close plain _⟩
  | ends mayStayOpen other _ ih =>
    obtain ⟨stack, outside⟩ := opened
    cases stack with
    | nil => cases shown
    | cons innermost around =>
      have name : innermost.element.name = _ := congrArg OpenShape.name (List.cons.inj (Nesting.mk.inj shown).1).1
      rw [← name] at mayStayOpen other
      have tag := (plain innermost List.mem_cons_self).tag
      rw [OpenElements.closeNamed?]
      dsimp only
      rw [if_neg (fun same => other same.1), tag, if_pos mayStayOpen]
      exact ih (OpenElements.plain_close plain _) ((OpenElements.nesting_close plain none).trans (by rw [shown])) ended

theorem endTag_of_settles {base : OpenShape} {outer : List OpenShape} {nodes : List Shape} (span : Span)
    (container : Html.IsContainer base.name) (plain : opened.Plain)
    (settles : opened.nesting.Settles base.name ⟨base :: outer, nodes⟩) :
    ∃ after, opened.endTag ⟨span, ⟨base.name, none, base.name⟩⟩ = .ok after ∧
      after.nesting = Nesting.close ⟨base :: outer, nodes⟩ := by
  obtain ⟨after, closed, shown⟩ := closeNamed?_of_settles span plain settles
  have ns : opened.namespaceOf ⟨base.name, none, base.name⟩ = (none, false) :=
    OpenElements.namespaceOf_eq_none container.named.noNamespace fun parent innermost =>
      (OpenElements.plain_innermost plain innermost).ns
  refine ⟨after, ?_, shown⟩
  unfold OpenElements.endTag
  simp only [container.ended, Bool.and_false, Bool.false_eq_true, if_false, ns, closed]

/-- A source is read that consists of start tags, texts after them and one end tag, if this ends all that is open. -/
theorem readSource_openings (options : ParseOptions) {openings : List Opening}
    (valid : ∀ opening ∈ openings, opening.Valid) (base : OpenShape) (container : Html.IsContainer base.name)
    (settles : (Opening.followAll ⟨[], []⟩ openings).Settles base.name ⟨[base], []⟩) :
    ∃ content, readSource options (Opening.writeAll openings ++ Html.endTag base.name) = .ok content ∧
      Fragment.shapes content = [base.close] := by
  have none : OpenElements.Plain {} := fun _ member => absurd member List.not_mem_nil
  have ends : EndsText options (Html.endTag base.name ++ []) := Html.endsText_endTag container.named []
  obtain ⟨inner, next, innerPlain, shown, read⟩ := Opening.readContent_openings valid none 0 ends
  rw [List.append_nil] at read
  have settles : inner.nesting.Settles base.name ⟨[base], []⟩ := by
    rw [shown]
    exact settles
  obtain ⟨after, closed, last⟩ :=
    endTag_of_settles ⟨next, next + byteLength (Html.endTag base.name)⟩ container innerPlain settles
  have lexed : readLexeme options ⟨next, Html.endTag base.name ++ []⟩ = _ := Html.readLexeme_endTag container.named
  rw [List.append_nil] at lexed
  have whole : readContent options {} ⟨0, Opening.writeAll openings ++ Html.endTag base.name⟩ = .ok after := by
    rw [read, readContent_follow (by simp [Html.endTag]) lexed nofun nofun closed, readContent_end]
  have bracket : ∃ more, Opening.writeAll openings ++ Html.endTag base.name = '<' :: more := by
    cases openings <;> exact ⟨_, rfl⟩
  obtain ⟨more, bracket⟩ := bracket
  rw [bracket] at whole ⊢
  rw [readSource_of_bracket, whole]
  refine ⟨after.finish, rfl, ?_⟩
  obtain ⟨stack, outside⟩ := after
  have empty : stack = [] := List.map_eq_nil_iff.mp (Nesting.mk.inj last).1
  subst empty
  rw [finish_of_nodes, Fragment.shapes_eq_map, List.map_reverse, (Nesting.mk.inj last).2]
  rfl

end MarkupFormat.Markup
