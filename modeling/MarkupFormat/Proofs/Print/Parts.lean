import MarkupFormat.Proofs.Layout.Inked
import MarkupFormat.Proofs.Print.Spelling

/-!
# Parts of a printed page

What is seen of the parts that nodes are printed from: lines between children, attributes and tags. No lemma
about whole nodes has to look at lines, groups or indentation again.
-/

namespace MarkupFormat.Print

open Layout (Build Doc GroupId)
open Layout.Build (Inks InksAll Yields inks_concat inks_empty inks_group inks_groupWith inks_hardline inks_indent
  inks_line inks_pair inks_seq inks_softline inks_text yields_bind yields_mapM yields_pure)
open Layout.Doc (Inked InkedAll inkedAll_append inkedAll_cons inkedAll_nil inkedAll_singleton)
open Markup (NodeId OwnedMarker Tree)
open Text (visible visible_append)

variable {α β : Type} {cs : List Char}

/-! ### Computations that print -/

namespace Printing

variable {printing : Printing α} {holds : α → Prop}

/-- Whatever a computation that prints results in has a property. -/
def Yields (printing : Printing α) (holds : α → Prop) : Prop :=
  ∀ requests, Build.Yields (printing.run requests) fun result => holds result.1

theorem yields_pure {value : α} (here : holds value) : Yields (pure value) holds :=
  fun _ => Build.yields_pure here

theorem yields_bind {next : α → Printing β} {after : β → Prop} (first : Yields printing holds)
    (then_ : ∀ value, holds value → Yields (next value) after) : Yields (printing >>= next) after := by
  intro requests
  rw [StateT.run_bind]
  exact Build.yields_bind (first requests) fun result here => then_ result.1 here result.2

theorem yields_true : Yields printing fun _ => True :=
  fun _ _ _ _ => trivial

theorem yields_forall {ι : Type} {each : ι → α → Prop} (all : ∀ i, Yields printing (each i)) :
    Yields printing fun value => ∀ i, each i value :=
  fun requests supply result ran i => all i requests supply result ran

theorem Yields.mono {after : α → Prop} (yields : Yields printing holds) (weaker : ∀ value, holds value → after value) :
    Yields printing after :=
  fun requests => (yields requests).mono fun result here => weaker result.1 here

theorem yields_map {change : α → β} {after : β → Prop} (first : Yields printing holds)
    (then_ : ∀ value, holds value → after (change value)) : Yields (change <$> printing) after := by
  rw [map_eq_pure_bind]
  exact yields_bind first fun value here => yields_pure (then_ value here)

theorem yields_lift {build : Build α} (yields : Build.Yields build holds) :
    Yields (liftM build) holds := by
  intro requests
  have lifted : Build.Yields (liftM build : StateT Layout.Supply (Except Format.FormatError) α) holds := by
    intro supply result ran
    change (build.run supply).mapError Format.FormatError.document = .ok result at ran
    cases done : build.run supply with
    | error failure =>
      rw [done] at ran
      cases ran
    | ok made =>
      rw [done] at ran
      cases ran
      exact yields supply _ done
  show Build.Yields (liftM build >>= fun value => pure (value, requests)) _
  exact Build.yields_bind lifted fun value here => Build.yields_pure here

theorem yields_mapM {values : List β} {make : β → Printing α} {holds : β → α → Prop}
    (each : ∀ value ∈ values, Yields (make value) (holds value)) :
    Yields (values.mapM make) (List.Forall₂ holds values) := by
  induction values with
  | nil => exact yields_pure .nil
  | cons value rest ih =>
    rw [List.mapM_cons]
    refine yields_bind (each value List.mem_cons_self) fun first here => ?_
    refine yields_bind (ih fun other member => each other (List.mem_cons_of_mem _ member)) fun others there => ?_
    exact yields_pure (.cons here there)

/-- What is printed writes exactly this ink. -/
abbrev Inks (printing : Printing Doc) (cs : List Char) : Prop :=
  Yields printing (Inked cs)

end Printing

/-! ### Texts -/

/-- A text that is a single node, so that a rule can be run over it. -/
theorem yields_text (content : String) :
    Build.Yields (Build.text content) fun doc => ∃ mark, doc = .text mark content :=
  yields_bind Layout.Build.yields_freshMark fun mark _ => yields_pure ⟨mark, rfl⟩

theorem inks_literalText (content : String) : Inks (literalText content) (visible content.toList) := by
  refine yields_bind (yields_text content) fun doc ⟨mark, same⟩ => ?_
  subst same
  exact yields_bind Layout.Build.inks_literalline fun _ blank =>
    Layout.Build.inks_replaceLineEndings blank

/-! ### Lines between children -/

theorem inks_separator (separator : Separator) : Inks separator.doc [] := by
  cases separator with
  | nothing => exact inks_empty
  | softline => exact inks_softline
  | line => exact inks_line
  | hardline => exact inks_hardline

theorem inksAll_emptyLine : InksAll emptyLine [] :=
  yields_bind inks_hardline fun _ first => yields_bind inks_hardline fun _ second =>
    yields_pure (inkedAll_cons first (inkedAll_singleton second))

variable {tree : Tree} {id : NodeId} {doc : Doc}

theorem inksAll_ownLine (inked : Inked cs doc) : InksAll (ownLine tree id doc) cs := by
  unfold ownLine
  split
  · exact yields_pure (inkedAll_singleton inked)
  · next prev separator _ =>
    refine yields_bind (inks_separator separator) fun between blank => ?_
    split
    · exact yields_bind inks_hardline fun _ empty =>
        yields_pure (inkedAll_cons blank (inkedAll_cons empty (inkedAll_singleton inked)))
    · exact yields_pure (inkedAll_cons blank (inkedAll_singleton inked))

theorem inksAll_flowingText (inked : Inked cs doc) : InksAll (flowingText tree id doc) cs := by
  unfold flowingText
  split
  · exact yields_pure (inkedAll_singleton inked)
  · next prev separator _ =>
    split
    · exact yields_pure (inkedAll_singleton inked)
    · split
      · exact yields_bind inksAll_emptyLine fun _ blank =>
          yields_pure (inkedAll_append blank (inkedAll_singleton inked))
      · exact yields_bind (inks_separator separator) fun _ blank =>
          yields_pure (inkedAll_cons blank (inkedAll_singleton inked))

theorem yields_precedingParts {prevGroup : Option GroupId} :
    Build.Yields (precedingParts tree id prevGroup) fun parts => InkedAll [] parts.1 ∧ InkedAll [] parts.2 := by
  unfold precedingParts
  split
  · exact yields_pure ⟨inkedAll_nil, inkedAll_nil⟩
  · next prev separator _ =>
    split
    · exact yields_bind inksAll_emptyLine fun _ blank => yields_pure ⟨blank, inkedAll_nil⟩
    · split
      · exact yields_bind inks_hardline fun _ blank => yields_pure ⟨inkedAll_singleton blank, inkedAll_nil⟩
      · split
        · exact yields_bind (inks_separator separator) fun _ blank =>
            yields_pure ⟨inkedAll_nil, inkedAll_singleton blank⟩
        · refine yields_bind inks_empty fun broken empty => yields_bind inks_softline fun line blank => ?_
          exact yields_bind (Layout.Build.inks_ifBreakFor empty blank prevGroup) fun _ either =>
            yields_pure ⟨inkedAll_nil, inkedAll_singleton either⟩

theorem yields_followingParts :
    Build.Yields (followingParts tree id) fun parts => InkedAll [] parts.1 ∧ InkedAll [] parts.2 := by
  unfold followingParts
  split
  · exact yields_pure ⟨inkedAll_nil, inkedAll_nil⟩
  · next next separator _ =>
    dsimp only
    split
    · split
      · exact yields_bind inksAll_emptyLine fun _ blank => yields_pure ⟨inkedAll_nil, blank⟩
      · exact yields_pure ⟨inkedAll_nil, inkedAll_nil⟩
    · split
      · split
        · exact yields_bind inks_hardline fun _ blank => yields_pure ⟨inkedAll_nil, inkedAll_singleton blank⟩
        · exact yields_pure ⟨inkedAll_nil, inkedAll_nil⟩
      · exact yields_bind (inks_separator separator) fun _ blank =>
          yields_pure ⟨inkedAll_singleton blank, inkedAll_nil⟩

theorem inksAll_flowing {group : GroupId} {prevGroup : Option GroupId} (inked : Inked cs doc) :
    InksAll (flowing tree id doc group prevGroup) cs := by
  unfold flowing
  split
  · exact inksAll_flowingText inked
  · refine yields_bind yields_precedingParts fun (outerBefore, innerBefore) ⟨outer, inner⟩ => ?_
    refine yields_bind yields_followingParts fun (innerAfter, outerAfter) ⟨innerLater, outerLater⟩ => ?_
    refine yields_bind (inks_concat (inkedAll_cons inked innerLater)) fun content inkedContent => ?_
    refine yields_bind (inks_groupWith inkedContent _ _) fun innerGroup inkedInner => ?_
    have around := inkedAll_append inner (inkedAll_singleton inkedInner)
    refine yields_bind (inks_concat around) fun whole inkedWhole => ?_
    refine yields_bind (inks_group inkedWhole) fun outerGroup inkedOuter => yields_pure ?_
    have all := inkedAll_append outer (inkedAll_cons inkedOuter outerLater)
    simpa using all

/-- The children of a node with what they write. -/
def Written (ink : NodeId → List Char) (children : List (NodeId × Doc)) : Prop :=
  ∀ pair ∈ children, Inked (ink pair.1) pair.2

variable {ink : NodeId → List Char} {children : List (NodeId × Doc)}

theorem inksAll_flowAll (written : Written ink children) (prevGroup : Option GroupId) :
    InksAll (flowAll tree prevGroup children) (children.flatMap fun pair => ink pair.1) := by
  induction children generalizing prevGroup with
  | nil => exact yields_pure inkedAll_nil
  | cons pair rest ih =>
    obtain ⟨id, doc⟩ := pair
    refine yields_bind Layout.Build.yields_freshGroup fun group _ => ?_
    refine yields_bind (inksAll_flowing (written (id, doc) List.mem_cons_self)) fun parts here => ?_
    refine yields_bind (ih (fun other member => written other (List.mem_cons_of_mem _ member)) (some group))
      fun others there => yields_pure ?_
    exact inkedAll_append here there

theorem inks_joinChildren (written : Written ink children) (parent : NodeId) :
    Inks (joinChildren tree parent children) (children.flatMap fun pair => ink pair.1) := by
  unfold joinChildren
  split
  · refine yields_bind Layout.Build.inks_breakParent fun first blank => ?_
    have lines : Build.Yields (children.mapM fun pair => ownLine tree pair.1 pair.2)
        (List.Forall₂ (fun pair => InkedAll (ink pair.1)) children) :=
      yields_mapM fun pair member => inksAll_ownLine (written pair member)
    refine yields_bind lines fun docs each => inks_concat ?_
    have all : InkedAll (children.flatMap fun pair => ink pair.1) docs.flatten := by
      clear written lines
      induction each with
      | nil => exact inkedAll_nil
      | cons here _ ih => exact inkedAll_append here ih
    exact inkedAll_cons blank all
  · exact yields_bind (inksAll_flowAll written none) fun parts all => inks_concat all

namespace Page

variable {page : Page} {id : NodeId}

theorem inks_borrowed (page : Page) (owned : Option OwnedMarker) :
    Inks (page.borrowed owned) (page.borrowedInk owned) := by
  unfold borrowed borrowedInk
  cases owned with
  | none => exact inks_empty
  | some owned => exact inks_text _

theorem inks_own (page : Page) (id : NodeId) (marker : Markup.Marker) :
    Inks (page.own id marker) (page.markerInk ⟨id, marker⟩) :=
  inks_text _

/-! ### Attributes -/

/-- The embedder lays out nothing. -/
def Declines (page : Page) : Prop :=
  page.embedder = Embed.decline

theorem yields_embed (declines : page.Declines) (request : Embed.Request) :
    Printing.Yields (page.embed request) fun answer => answer = none := by
  have kept : Printing.Yields (modify (request :: ·) : Printing Unit) fun _ => True :=
    fun _ _ _ _ => trivial
  have none : Build.Yields (page.embedder request) fun answer => answer = none := by
    rw [declines]
    exact yields_pure rfl
  refine Printing.yields_bind kept fun _ _ => Printing.yields_bind (Printing.yields_lift none) fun answer same => ?_
  subst same
  exact Printing.yields_pure rfl

theorem escapeQuote_of_not_mem {quote : Char} {value : List Char} (none : quote ∉ value) :
    Text.escapeQuote quote value = value := by
  unfold Text.escapeQuote
  induction value with
  | nil => rfl
  | cons c cs ih =>
    rw [List.mem_cons, not_or] at none
    rw [List.flatMap_cons, if_neg (Ne.symm none.1), ih none.2]
    rfl

theorem inks_escapeDoubleQuotes {mark : Layout.Mark} {content : String} :
    Inks (escapeDoubleQuotes (.text mark content)) (visible (Text.escapeQuote '"' content.toList)) := by
  unfold escapeDoubleQuotes
  refine yields_bind (Layout.Build.yields_transform_text ?_) fun result here => yields_pure here
  dsimp only
  split
  · have written := inks_text (String.ofList (Text.escapeQuote '"' content.toList))
    rwa [String.toList_ofList] at written
  · next none =>
    rw [escapeQuote_of_not_mem none]
    refine yields_pure (Layout.Doc.inked_of_children rfl (fun _ member => ?_) rfl)
    exact absurd member List.not_mem_nil

theorem inks_quotedAttribute {mark : Layout.Mark} {name content : String} :
    Inks (quotedAttribute name (.text mark content))
      (visible (name.toList ++ '=' :: '"' :: (Text.escapeQuote '"' content.toList ++ ['"']))) := by
  have value : Inks (do Build.group (← escapeDoubleQuotes (.text mark content)))
      (visible (Text.escapeQuote '"' content.toList)) :=
    yields_bind inks_escapeDoubleQuotes fun _ inked => inks_group inked
  have parts := inks_seq (.cons (inks_text name) (.cons (inks_text "=\"") (.cons value (.cons (inks_text "\"") .nil))))
  have same : [visible name.toList, visible "=\"".toList, visible (Text.escapeQuote '"' content.toList),
      visible "\"".toList].flatten =
      visible (name.toList ++ ("=\"".toList ++ (Text.escapeQuote '"' content.toList ++ "\"".toList))) := by
    simp only [visible_append, List.flatten_cons, List.flatten_nil, List.append_nil]
  rw [same] at parts
  exact parts

theorem inks_plainAttribute (name : String) (value : List Char) :
    Inks (plainAttribute name value)
      (visible (name.toList ++ '=' :: (Text.preferredQuote value ::
        (Text.escapeQuote (Text.preferredQuote value) value ++ [Text.preferredQuote value])))) := by
  unfold plainAttribute
  dsimp only
  generalize Text.preferredQuote value = quote
  have written := inks_literalText (String.ofList (Text.escapeQuote quote value))
  rw [String.toList_ofList] at written
  have mark : Inks (Build.text (String.singleton quote)) (visible [quote]) := by
    have text := inks_text (String.singleton quote)
    rwa [String.toList_singleton] at text
  have parts := inks_seq (.cons (inks_text name) (.cons (inks_text "=") (.cons mark (.cons written (.cons mark .nil)))))
  have same : [visible name.toList, visible "=".toList, visible [quote], visible (Text.escapeQuote quote value),
      visible [quote]].flatten =
      visible (name.toList ++ ("=".toList ++ ([quote] ++ (Text.escapeQuote quote value ++ [quote])))) := by
    simp only [visible_append, List.flatten_cons, List.flatten_nil, List.append_nil]
  rw [same] at parts
  exact parts

theorem yields_knownValue? (declines : page.Declines) (name : String) (value : List Char) :
    Printing.Yields (page.knownValue? name value) fun known =>
      (known = none ∧ ¬(name = "class" ∧ Text.collapse value ≠ [])) ∨
        (name = "class" ∧ Text.collapse value ≠ [] ∧
          ∃ mark, known = some (.text mark (String.ofList (Text.collapse value)))) := by
  unfold knownValue?
  split
  · refine Printing.yields_bind (yields_embed declines _) fun answer same => ?_
    subst same
    exact Printing.yields_pure (Or.inl ⟨rfl, fun both => absurd both.1 (by decide)⟩)
  · dsimp only
    split
    · next empty => exact Printing.yields_pure (Or.inl ⟨rfl, fun both => both.2 empty⟩)
    · next some =>
      refine Printing.yields_bind (Printing.yields_lift (yields_text _)) fun doc ⟨mark, same⟩ => ?_
      exact Printing.yields_pure (Or.inr ⟨rfl, some, mark, congrArg Option.some same⟩)
  · next noStyle noClass => exact Printing.yields_pure (Or.inl ⟨rfl, fun both => noClass both.1⟩)

theorem inks_printAttribute (declines : page.Declines) (attr : Markup.Attribute) :
    Printing.Inks (page.printAttribute attr)
      (visible (match attr.value with
        | none => attr.rawName.toList
        | some written => attr.rawName.toList ++ '=' :: valueText attr.rawName written)) := by
  unfold printAttribute
  generalize attr.value = value
  cases value with
  | none => exact Printing.yields_lift (inks_literalText _)
  | some written =>
    unfold valueText
    dsimp only
    generalize Text.unescapeQuotes written.toList = cs
    have quoted (mark : Layout.Mark) :
        Printing.Inks (liftM (quotedAttribute attr.rawName (.text mark (String.ofList (Text.collapse cs)))))
          (visible (attr.rawName.toList ++ '=' :: '"' :: (Text.escapeQuote '"' (Text.collapse cs) ++ ['"']))) := by
      have quoted : Inks (quotedAttribute attr.rawName (.text mark (String.ofList (Text.collapse cs)))) _ :=
        inks_quotedAttribute
      rw [String.toList_ofList] at quoted
      exact Printing.yields_lift quoted
    split
    · next plain =>
      have plain : ¬(attr.rawName = "class" ∧ written ≠ "" ∧ ¬Text.occursIn ['{', '{'] cs ∧
          Text.collapse cs ≠ []) := by
        intro classes
        rcases Bool.or_eq_true_iff.mp plain with empty | expression
        · exact classes.2.1 (of_decide_eq_true empty)
        · exact classes.2.2.1 expression
      rw [if_neg plain]
      exact Printing.yields_bind (Printing.yields_pure rfl) fun known none =>
        none ▸ Printing.yields_lift (inks_plainAttribute _ _)
    · next may =>
      rw [Bool.or_eq_true, not_or] at may
      refine Printing.yields_bind (yields_knownValue? declines attr.rawName cs) fun known either => ?_
      rcases either with ⟨rfl, other⟩ | ⟨isClass, some, mark, rfl⟩
      · rw [if_neg fun classes => other ⟨classes.1, classes.2.2.2⟩]
        exact Printing.yields_lift (inks_plainAttribute _ _)
      · rw [if_pos ⟨isClass, fun empty => may.1 (decide_eq_true empty), may.2, some⟩]
        exact quoted mark

theorem inks_printAttributes (declines : page.Declines) :
    Printing.Inks (page.printAttributes id) (visible (page.attributesText id)) := by
  unfold printAttributes attributesText
  dsimp only
  generalize ((page.tree.kind id).element?.map (·.attributes)).getD [] = attrs
  have each : Printing.Yields
      (attrs.mapM fun attr =>
        if (page.keptAttributes id).contains attr.rawName then
          (liftM (literalText (page.sourceText attr.span)) : Printing Doc)
        else page.printAttribute attr)
      (List.Forall₂ (fun attr => Inked (visible (page.attributeText id attr))) attrs) := by
    refine Printing.yields_mapM fun attr _ => ?_
    unfold attributeText
    split
    · exact Printing.yields_lift (inks_literalText _)
    · exact inks_printAttribute declines attr
  split
  · split
    · exact Printing.yields_lift (inks_text " ")
    · exact Printing.yields_lift inks_empty
  · next some =>
    refine Printing.yields_bind each fun docs written => ?_
    have all : InkedAll (visible (attrs.flatMap (page.attributeText id))) docs := by
      clear each some
      induction written with
      | nil => exact inkedAll_nil
      | cons here _ ih =>
        rw [List.flatMap_cons, visible_append]
        exact inkedAll_append (inkedAll_singleton here) ih
    have bracket (stays : Bool) : Printing.Inks (liftM (page.beforeBracket id stays)) [] := by
      refine Printing.yields_lift ?_
      unfold beforeBracket
      split
      · exact inks_text " "
      · exact inks_empty
      · exact inks_line
      · exact inks_softline
    have finish {between first : Doc} (blankBetween : Inked [] between) (blankFirst : Inked [] first) (stays : Bool) :
        Printing.Inks (do
          let list ← Build.concat [first, ← Build.concat (docs.intersperse between)]
          Build.concat [← Build.indent list, ← page.beforeBracket id stays])
          (visible (attrs.flatMap (page.attributeText id))) := by
      have spaced := Layout.Doc.inkedAll_intersperse all blankBetween
      refine Printing.yields_bind (Printing.yields_lift (inks_concat spaced)) fun list inkedList => ?_
      refine Printing.yields_bind (Printing.yields_lift
        (inks_concat (inkedAll_cons blankFirst (inkedAll_singleton inkedList)))) fun body inkedBody => ?_
      refine Printing.yields_bind (Printing.yields_lift (inks_indent inkedBody)) fun indented inkedIndent => ?_
      refine Printing.yields_bind (bracket stays) fun last blankLast => ?_
      have whole := inkedAll_append (inkedAll_singleton inkedIndent) (inkedAll_singleton blankLast)
      rw [List.append_nil] at whole
      exact Printing.yields_lift (inks_concat whole)
    split
    · refine Printing.yields_bind (Printing.yields_lift inks_hardline) fun between blankBetween => ?_
      split
      · exact Printing.yields_bind (Printing.yields_lift (inks_text " ")) fun _ blank => finish blankBetween blank _
      · exact Printing.yields_bind (Printing.yields_lift inks_line) fun _ blank => finish blankBetween blank _
    · refine Printing.yields_bind (Printing.yields_lift inks_line) fun between blankBetween => ?_
      split
      · exact Printing.yields_bind (Printing.yields_lift (inks_text " ")) fun _ blank => finish blankBetween blank _
      · exact Printing.yields_bind (Printing.yields_lift inks_line) fun _ blank => finish blankBetween blank _

/-! ### Tags -/

/-- Nothing asks to leave a node as it is, and its tags have these parts. -/
structure Prints (page : Page) (id : NodeId) (marker : Markup.Marker) : Prop where
  kept : page.tree.isIgnored id = false
  marked : page.tree.hasMarker ⟨id, marker⟩ = true

theorem spellOwn_of_prints {marker : Markup.Marker} (prints : page.Prints id marker) :
    page.spellOwn ⟨id, marker⟩ =
      if (page.tree.borrower? ⟨id, marker⟩).isSome then [] else page.markerInk ⟨id, marker⟩ := by
  unfold spellOwn
  rw [prints.marked, prints.kept]
  cases page.tree.borrower? ⟨id, marker⟩ <;> rfl

theorem spellOwn_of_noMarker {owned : OwnedMarker} (none : page.tree.hasMarker owned = false) :
    page.spellOwn owned = [] := by
  unfold spellOwn
  rw [none, Bool.and_false, Bool.false_and]
  rfl

theorem inks_openingStart (prints : page.Prints id .openingStart) :
    Inks (page.openingStart id)
      (page.borrowedInk (page.tree.borrowedBefore? id) ++ page.spellOwn ⟨id, .openingStart⟩) := by
  unfold openingStart
  rw [spellOwn_of_prints prints, Tree.isSome_borrower?_openingStart]
  split
  · next lends =>
    rw [Tree.borrowedBefore?_eq_none lends]
    exact inks_empty
  · exact inks_pair (inks_borrowed page _) (inks_own page id .openingStart)

theorem inks_openingEnd (prints : page.Prints id .openingEnd) :
    Inks (page.openingEnd id) (page.spellOwn ⟨id, .openingEnd⟩) := by
  unfold openingEnd
  rw [spellOwn_of_prints prints, Tree.isSome_borrower?_openingEnd]
  split
  · exact inks_empty
  · exact inks_own page id .openingEnd

theorem inks_closingStart (prints : page.Prints id .closingStart) :
    Inks (page.closingStart id) (page.spellInside id ++ page.spellOwn ⟨id, .closingStart⟩) := by
  unfold closingStart spellInside
  rw [spellOwn_of_prints prints, Tree.isSome_borrower?_closingStart]
  split
  · exact inks_empty
  · exact inks_pair (inks_borrowed page _) (inks_own page id .closingStart)

/-- The place of a node among the children of its parent. -/
structure Placed (tree : Tree) (id : NodeId) : Prop where
  numbered : tree.Numbered
  child : ∃ parent before after, tree.children parent = before ++ id :: after

theorem inks_closingEnd (prints : page.Prints id .closingEnd) (placed : Placed page.tree id) :
    Inks (page.closingEnd id)
      (page.spellOwn ⟨id, .closingEnd⟩ ++ page.borrowedInk (page.tree.borrowedAfter? id)) := by
  unfold closingEnd
  rw [spellOwn_of_prints prints, Tree.isSome_borrower?_closingEnd]
  split
  · next lends =>
    obtain ⟨parent, before, after, split⟩ := placed.child
    rw [Tree.borrowedAfter?_eq_none placed.numbered split lends]
    exact inks_empty
  · exact inks_pair (inks_own page id .closingEnd) (inks_borrowed page _)

/-- A node with an opening and a closing tag. -/
def IsTagged (page : Page) (id : NodeId) : Prop :=
  (∃ element, page.tree.kind id = .element element) ∨
    ∃ condition complete, page.tree.kind id = .conditional condition complete

theorem IsTagged.marked (tagged : page.IsTagged id) :
    page.tree.hasMarker ⟨id, .openingStart⟩ = true ∧ page.tree.hasMarker ⟨id, .closingEnd⟩ = true ∧
      page.tree.hasMarker ⟨id, .openingEnd⟩ = !page.isSelfClosing id ∧
      page.tree.hasMarker ⟨id, .closingStart⟩ = !page.isSelfClosing id := by
  unfold Tree.hasMarker isSelfClosing
  rcases tagged with ⟨element, same⟩ | ⟨condition, complete, same⟩ <;>
    simp only [same] <;> exact ⟨trivial, trivial, trivial, trivial⟩

theorem IsTagged.isMute (tagged : page.IsTagged id) : page.tree.isMute id = false := by
  unfold Tree.isMute
  rcases tagged with ⟨element, same⟩ | ⟨condition, complete, same⟩ <;> rw [same]

variable (declines : page.Declines) (tagged : page.IsTagged id) (kept : page.tree.isIgnored id = false)

include declines tagged kept in
theorem inks_openingTag :
    Printing.Inks (page.openingTag id)
      (page.borrowedInk (page.tree.borrowedBefore? id) ++ page.spellOwn ⟨id, .openingStart⟩ ++
        visible (page.attributesText id) ++ page.spellOwn ⟨id, .openingEnd⟩) := by
  obtain ⟨start, _, stop, _⟩ := tagged.marked
  unfold openingTag
  refine Printing.yields_bind (Printing.yields_lift (inks_openingStart ⟨kept, start⟩)) fun start inkedStart => ?_
  refine Printing.yields_bind (inks_printAttributes declines) fun attributes inkedAttributes => ?_
  have finish {cs : List Char} {last : Doc} (inkedLast : Inked cs last) :
      Printing.Inks (liftM (Build.concat [start, attributes, last])) _ :=
    Printing.yields_lift
      (inks_concat (inkedAll_cons inkedStart (inkedAll_cons inkedAttributes (inkedAll_singleton inkedLast))))
  rw [List.append_assoc]
  split
  · next closed =>
    rw [spellOwn_of_noMarker (stop.trans (by rw [closed]; rfl))]
    exact Printing.yields_bind (Printing.yields_lift inks_empty) fun _ inked => finish inked
  · next opened =>
    have opened : page.isSelfClosing id = false := by simpa using opened
    have prints : page.Prints id .openingEnd := ⟨kept, stop.trans (by rw [opened]; rfl)⟩
    exact Printing.yields_bind (Printing.yields_lift (inks_openingEnd prints)) fun _ inked => finish inked

/-- The markers before the end of a closing tag. -/
def closingInk (page : Page) (id : NodeId) : List Char :=
  (if page.isSelfClosing id then [] else page.spellInside id) ++ page.spellOwn ⟨id, .closingStart⟩

include tagged kept in
theorem inks_closingTag (placed : Placed page.tree id) :
    Inks (page.closingTag id)
      (page.closingInk id ++
        (page.spellOwn ⟨id, .closingEnd⟩ ++ page.borrowedInk (page.tree.borrowedAfter? id))) := by
  obtain ⟨_, stop, _, start⟩ := tagged.marked
  unfold closingTag closingInk
  refine inks_pair ?_ (inks_closingEnd ⟨kept, stop⟩ placed)
  split
  · next closed =>
    rw [spellOwn_of_noMarker (start.trans (by rw [closed]; rfl))]
    exact inks_empty
  · next opened =>
    have opened : page.isSelfClosing id = false := by simpa using opened
    exact inks_closingStart ⟨kept, start.trans (by rw [opened]; rfl)⟩

end Page

end MarkupFormat.Print
