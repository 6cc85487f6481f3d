import MarkupFormat.Print.Document
import MarkupFormat.Proofs.Layout.Built
import MarkupFormat.Proofs.Markup.TextsRead
import MarkupFormat.Proofs.Print.Doctype

/-!
# Legible pages

A page is legible if it holds no character data and its embedder answers. Its parts can be printed then: tags,
attributes, and what is between children. `Printing.Makes` says so of a computation, and that the texts which it
prints are made up of some characters, if those of the page are.
-/

namespace MarkupFormat.Print

open Layout (Build Doc GroupId)
open Layout.Build (Makes Spells SpellsAll makes_bind makes_freshGroup makes_mapM makes_pure separates_hardline
  separates_line separates_literalline spells_breakParent spells_concat spells_empty spells_group spells_groupWith
  spells_ifBreakFor spells_indent spells_pair spells_seq spells_softline spells_text)
open Layout.Doc (AllTextsIn TextsIn allTextsIn_append)
open Markup (Attribute Element NodeId NodeKind OwnedMarker Tree)
open Text (Admits Within)

variable {α β : Type} {p : Char → Prop}

/-! ### Computations that print -/

namespace Printing

variable {printing : Printing α} {holds : α → Prop}

/-- A computation that prints succeeds, and its result has a property. -/
def Makes (printing : Printing α) (holds : α → Prop) : Prop :=
  ∀ requests, Build.Makes (printing.run requests) fun result => holds result.1

theorem makes_pure {value : α} (here : holds value) : Makes (pure value) holds :=
  fun _ => Build.makes_pure here

theorem makes_bind {next : α → Printing β} {after : β → Prop} (first : Makes printing holds)
    (then_ : ∀ value, holds value → Makes (next value) after) : Makes (printing >>= next) after := by
  intro requests
  rw [StateT.run_bind]
  exact Build.makes_bind (first requests) fun result here => then_ result.1 here result.2

theorem Makes.mono {weaker : α → Prop} (makes : Makes printing holds) (weaken : ∀ value, holds value → weaker value) :
    Makes printing weaker :=
  fun requests => Build.Makes.mono (makes requests) fun result => weaken result.1

/-- What builds nodes succeeds as well where other failures are possible. -/
theorem makes_build {build : Build α} (makes : Build.Makes build holds) :
    Build.Makes (liftM build : StateT Layout.Supply (Except Format.FormatError) α) holds := by
  intro supply
  obtain ⟨result, ran, here⟩ := makes supply
  refine ⟨result, ?_, here⟩
  show (build.run supply).mapError Format.FormatError.document = .ok result
  rw [ran]
  rfl

theorem makes_lift {build : Build α} (makes : Build.Makes build holds) : Makes (liftM build) holds := by
  intro requests
  show Build.Makes (liftM build >>= fun value => pure (value, requests)) _
  exact Build.makes_bind (makes_build makes) fun value here => Build.makes_pure here

theorem makes_mapM {values : List β} {make : β → Printing α} {holds : α → Prop}
    (each : ∀ value ∈ values, Makes (make value) holds) :
    Makes (values.mapM make) fun results => ∀ result ∈ results, holds result := by
  induction values with
  | nil => exact makes_pure fun _ member => absurd member List.not_mem_nil
  | cons value rest ih =>
    rw [List.mapM_cons]
    refine makes_bind (each value List.mem_cons_self) fun first here => ?_
    refine makes_bind (ih fun other member => each other (List.mem_cons_of_mem _ member)) fun others there => ?_
    exact makes_pure (List.forall_mem_cons.mpr ⟨here, there⟩)

/-- A document is printed whose texts are made up of some characters. -/
abbrev Spells (p : Char → Prop) (printing : Printing Doc) : Prop :=
  Makes printing (TextsIn p)

end Printing

/-! ### Lines between children -/

theorem spells_literalText {content : String} (within : Within p content.toList) : Spells p (literalText content) :=
  makes_bind (spells_text within) fun _ texts => makes_bind separates_literalline fun _ line =>
    Layout.Build.spells_replaceLineEndings texts line.1 line.2

theorem spells_separator (separator : Separator) : Spells p separator.doc := by
  cases separator with
  | nothing => exact spells_empty
  | softline => exact spells_softline
  | line => exact separates_line.spells
  | hardline => exact separates_hardline.spells

theorem spellsAll_emptyLine : SpellsAll p emptyLine :=
  makes_bind separates_hardline fun _ first => makes_bind separates_hardline fun _ second =>
    makes_pure ⟨first.2, second.2, trivial⟩

variable {tree : Tree} {id : NodeId} {doc : Doc}

theorem spellsAll_ownLine (texts : doc.TextsIn p) : SpellsAll p (ownLine tree id doc) := by
  unfold ownLine
  split
  · exact makes_pure ⟨texts, trivial⟩
  · next prev separator _ =>
    have lines : Spells p separator.doc := spells_separator separator
    refine makes_bind lines fun between line => ?_
    split
    · exact makes_bind separates_hardline fun _ empty => makes_pure ⟨line, empty.2, texts, trivial⟩
    · exact makes_pure ⟨line, texts, trivial⟩

theorem spellsAll_flowingText (texts : doc.TextsIn p) : SpellsAll p (flowingText tree id doc) := by
  unfold flowingText
  split
  · exact makes_pure ⟨texts, trivial⟩
  · next prev separator _ =>
    split
    · exact makes_pure ⟨texts, trivial⟩
    · split
      · exact makes_bind spellsAll_emptyLine fun _ lines => makes_pure (allTextsIn_append lines ⟨texts, trivial⟩)
      · exact makes_bind (spells_separator separator) fun _ line => makes_pure ⟨line, texts, trivial⟩

theorem makes_precedingParts {prevGroup : Option GroupId} :
    Makes (precedingParts tree id prevGroup) fun parts => AllTextsIn p parts.1 ∧ AllTextsIn p parts.2 := by
  unfold precedingParts
  split
  · exact makes_pure ⟨trivial, trivial⟩
  · next prev separator _ =>
    split
    · exact makes_bind spellsAll_emptyLine fun _ lines => makes_pure ⟨lines, trivial⟩
    · split
      · exact makes_bind separates_hardline fun _ line => makes_pure ⟨⟨line.2, trivial⟩, trivial⟩
      · split
        · exact makes_bind (spells_separator separator) fun _ line => makes_pure ⟨trivial, line, trivial⟩
        · exact makes_bind spells_empty fun _ empty => makes_bind spells_softline fun _ line =>
            makes_bind (spells_ifBreakFor prevGroup empty line) fun _ either => makes_pure ⟨trivial, either, trivial⟩

theorem makes_followingParts :
    Makes (followingParts tree id) fun parts => AllTextsIn p parts.1 ∧ AllTextsIn p parts.2 := by
  unfold followingParts
  split
  · exact makes_pure ⟨trivial, trivial⟩
  · next next separator _ =>
    dsimp only
    split
    · split
      · exact makes_bind spellsAll_emptyLine fun _ lines => makes_pure ⟨trivial, lines⟩
      · exact makes_pure ⟨trivial, trivial⟩
    · split
      · split
        · exact makes_bind separates_hardline fun _ line => makes_pure ⟨trivial, line.2, trivial⟩
        · exact makes_pure ⟨trivial, trivial⟩
      · exact makes_bind (spells_separator separator) fun _ line => makes_pure ⟨⟨line, trivial⟩, trivial⟩

theorem spellsAll_flowing {group : GroupId} {prevGroup : Option GroupId} (texts : doc.TextsIn p) :
    SpellsAll p (flowing tree id doc group prevGroup) := by
  unfold flowing
  split
  · exact spellsAll_flowingText texts
  · have preceding : Makes (precedingParts tree id prevGroup) fun parts =>
        AllTextsIn p parts.1 ∧ AllTextsIn p parts.2 := makes_precedingParts
    have following : Makes (followingParts tree id) fun parts =>
        AllTextsIn p parts.1 ∧ AllTextsIn p parts.2 := makes_followingParts
    refine makes_bind preceding fun (outerBefore, innerBefore) ⟨outer, inner⟩ => ?_
    refine makes_bind following fun (innerAfter, outerAfter) ⟨innerLater, outerLater⟩ => ?_
    have content : AllTextsIn p (doc :: innerAfter) := ⟨texts, innerLater⟩
    refine makes_bind (spells_concat content) fun _ whole => ?_
    refine makes_bind (spells_groupWith (some group) false whole) fun innerGroup inside => ?_
    refine makes_bind (spells_concat (allTextsIn_append inner ⟨inside, trivial⟩)) fun _ around => ?_
    exact makes_bind (spells_group around) fun _ here => makes_pure (allTextsIn_append outer ⟨here, outerLater⟩)

/-- The children of a node, each as it is printed. -/
abbrev AllPrinted (p : Char → Prop) (children : List (NodeId × Doc)) : Prop :=
  ∀ pair ∈ children, pair.2.TextsIn p

variable {children : List (NodeId × Doc)}

theorem spellsAll_flowAll (printed : AllPrinted p children) (prevGroup : Option GroupId) :
    SpellsAll p (flowAll tree prevGroup children) := by
  induction children generalizing prevGroup with
  | nil => exact makes_pure trivial
  | cons pair rest ih =>
    obtain ⟨id, doc⟩ := pair
    obtain ⟨texts, others⟩ := List.forall_mem_cons.mp printed
    refine makes_bind makes_freshGroup fun group _ => ?_
    refine makes_bind (spellsAll_flowing texts) fun parts here => ?_
    exact makes_bind (ih others (some group)) fun _ later => makes_pure (allTextsIn_append here later)

theorem spells_joinChildren (printed : AllPrinted p children) (parent : NodeId) :
    Spells p (joinChildren tree parent children) := by
  unfold joinChildren
  split
  · have breaks : Spells p Build.breakParent := spells_breakParent
    refine makes_bind breaks fun first line => ?_
    have lines : Makes (children.mapM fun pair => ownLine tree pair.1 pair.2)
        (List.Forall₂ (fun _ => AllTextsIn p) children) :=
      makes_mapM fun pair member => spellsAll_ownLine (printed pair member)
    refine makes_bind lines fun parts each => spells_concat ⟨line, ?_⟩
    clear printed lines breaks
    induction each with
    | nil => exact trivial
    | cons here _ ih => exact allTextsIn_append here ih
  · exact makes_bind (spellsAll_flowAll printed none) fun _ all => spells_concat all

/-! ### What embedders answer -/

/-- The texts of an answer, if there is one, are made up of some characters. -/
abbrev AnswerIn (p : Char → Prop) (answer : Option Doc) : Prop :=
  ∀ doc, answer = some doc → doc.TextsIn p

theorem answerIn_none : AnswerIn p none :=
  nofun

theorem answerIn_some (texts : doc.TextsIn p) : AnswerIn p (some doc) := by
  rintro _ ⟨⟩
  exact texts

theorem Printing.makes_answered {answer : Option Doc} {declined : Printing α} {given : Doc → Printing α}
    {holds : α → Prop} (without : Makes declined holds)
    (each : ∀ doc : Doc, doc.TextsIn p → Makes (given doc) holds) :
    AnswerIn p answer → Makes (match answer with
      | some doc => given doc
      | none => declined) holds := by
  intro texts
  cases answer with
  | none => exact without
  | some doc => exact each doc (texts doc rfl)

namespace Page

/-- Every node of a page can be printed, with texts that are made up of some characters. -/
structure Legible (p : Char → Prop) (page : Page) : Prop where
  admits : Admits p
  source : Within p page.source
  texts : ∀ id, (page.tree.kind id).TextsIn p
  noCdata : ∀ id value, page.tree.kind id ≠ .cdata value
  answers : ∀ request, Build.Makes (page.embedder request) (AnswerIn p)

variable {page : Page} (legible : page.Legible p)

include legible

theorem within_constant {constant : List Char} (clean : '\r' ∉ constant) : Within p constant :=
  Text.within_of_clean legible.admits clean

theorem makes_embed (request : Embed.Request) : Printing.Makes (page.embed request) (AnswerIn p) := by
  have kept : Printing.Makes (modify (request :: ·) : Printing Unit) fun _ => True :=
    fun _ => Build.makes_pure trivial
  refine Printing.makes_bind kept fun _ _ => ?_
  refine Printing.makes_bind (Printing.makes_lift (legible.answers request)) fun answer texts => ?_
  cases answer with
  | none => exact Printing.makes_pure answerIn_none
  | some doc =>
    refine Printing.makes_bind (Printing.makes_lift (Build.spells_stripFinalLine doc (texts doc rfl))) fun _ here => ?_
    exact Printing.makes_pure (answerIn_some here)

/-! ### Markers -/

theorem within_sourceText (span : Markup.Span) : Within p (page.sourceText span).toList :=
  legible.source.subset (Text.slice_subset page.source span.start span.stop)

theorem within_elementStart {element : Element} (texts : element.TextsIn p) :
    Within p (elementStart element).toList := by
  have name := Element.within_rawName legible.admits texts
  unfold elementStart
  split
  · next condition same =>
    have inside := (Element.textsIn_iff.mp texts).2.2.1 condition same
    refine Text.within_string_append (Text.within_string_append (Text.within_string_append ?_ inside) ?_) name
    · exact within_constant legible (by decide)
    · exact within_constant legible (by decide)
  · exact Text.within_string_append (within_constant legible (by decide)) name

theorem within_declarationStart (value : String) (span : Markup.Span) :
    Within p (page.declarationStart value span).toList := by
  unfold declarationStart
  split
  · exact within_constant legible (by decide)
  · have written := within_sourceText legible span
    dsimp only
    split
    · next start rest cut =>
      rw [(Text.eq_of_splitBytes cut).1] at written
      exact Text.within_ofList (List.forall_mem_append.mp written).1
    · exact written

theorem texts_of_kind {kind : NodeKind} {id : NodeId} (same : page.tree.kind id = kind) : kind.TextsIn p :=
  same ▸ legible.texts id

theorem within_openingStartText (id : NodeId) : Within p (page.openingStartText id).toList := by
  unfold openingStartText
  dsimp only
  split
  · next condition complete same =>
    have texts := texts_of_kind legible same
    exact Text.within_string_append (within_constant legible (by decide)) (texts condition List.mem_cons_self)
  · next condition same =>
    have texts := texts_of_kind legible same
    exact Text.within_string_append (within_constant legible (by decide)) (texts condition List.mem_cons_self)
  · exact within_constant legible (by decide)
  · exact within_constant legible (by decide)
  · exact within_declarationStart legible _ _
  · next element same => exact within_elementStart legible (texts_of_kind legible same)
  · exact within_constant legible (by decide)

theorem within_openingEndText (id : NodeId) : Within p (page.openingEndText id).toList := by
  unfold openingEndText
  split
  · exact within_constant legible (by decide)
  · split <;> exact within_constant legible (by decide)
  · exact within_constant legible (by decide)

theorem within_closingStartText (id : NodeId) : Within p (page.closingStartText id).toList := by
  unfold closingStartText
  split
  · exact within_constant legible (by decide)
  · split
    · exact within_constant legible (by decide)
    · next element same =>
      split
      · exact within_constant legible (by decide)
      · have name := Element.within_rawName legible.admits (texts_of_kind legible same)
        exact Text.within_string_append (within_constant legible (by decide)) name
    · exact within_constant legible (by decide)

theorem within_closingEndText (id : NodeId) : Within p (page.closingEndText id).toList := by
  unfold closingEndText
  split
  · exact within_constant legible (by decide)
  · split
    · exact within_constant legible (by decide)
    · exact within_constant legible (by decide)
    · exact within_constant legible (by decide)
    · exact within_constant legible (by decide)
    · split <;> exact within_constant legible (by decide)
    · exact within_constant legible (by decide)

theorem within_markerText (owned : OwnedMarker) : Within p (page.markerText owned).toList := by
  unfold markerText
  split
  · exact within_openingStartText legible _
  · exact within_openingEndText legible _
  · exact within_closingStartText legible _
  · exact within_closingEndText legible _

theorem spells_borrowed (owned : Option OwnedMarker) : Spells p (page.borrowed owned) := by
  refine spells_text ?_
  cases owned with
  | none => exact fun _ member => absurd member List.not_mem_nil
  | some owned => exact within_markerText legible owned

theorem spells_own (id : NodeId) (marker : Markup.Marker) : Spells p (page.own id marker) :=
  spells_text (within_markerText legible ⟨id, marker⟩)

theorem spells_openingStart (id : NodeId) : Spells p (page.openingStart id) := by
  unfold openingStart
  split
  · exact spells_empty
  · exact spells_pair (spells_borrowed legible _) (spells_own legible id .openingStart)

theorem spells_openingEnd (id : NodeId) : Spells p (page.openingEnd id) := by
  unfold openingEnd
  split
  · exact spells_empty
  · exact spells_own legible id .openingEnd

theorem spells_closingStart (id : NodeId) : Spells p (page.closingStart id) := by
  unfold closingStart
  split
  · exact spells_empty
  · exact spells_pair (spells_borrowed legible _) (spells_own legible id .closingStart)

theorem spells_closingEnd (id : NodeId) : Spells p (page.closingEnd id) := by
  unfold closingEnd
  split
  · exact spells_empty
  · exact spells_pair (spells_own legible id .closingEnd) (spells_borrowed legible _)

theorem spells_closingTag (id : NodeId) : Spells p (page.closingTag id) := by
  unfold closingTag
  refine spells_pair ?_ (spells_closingEnd legible id)
  split
  · exact spells_empty
  · exact spells_closingStart legible id

/-! ### Attributes -/

theorem spells_escapeDoubleQuotes (texts : doc.TextsIn p) : Spells p (escapeDoubleQuotes doc) := by
  refine makes_bind (Layout.Build.makes_transform ?_ texts) fun result here => makes_pure here
  intro node inside
  cases node with
  | text mark content =>
    dsimp only
    split
    · exact spells_text (Text.within_ofList (Text.within_escapeQuote legible.admits '"' inside))
    · exact makes_pure inside
  | _ => exact makes_pure inside

theorem spells_quotedAttribute {name : String} (within : Within p name.toList) (texts : doc.TextsIn p) :
    Spells p (quotedAttribute name doc) := by
  have value : Spells p (do Build.group (← escapeDoubleQuotes doc)) :=
    makes_bind (spells_escapeDoubleQuotes legible texts) fun _ here => spells_group here
  refine spells_seq (List.forall_mem_cons.mpr ⟨spells_text within, ?_⟩)
  exact List.forall_mem_cons.mpr ⟨spells_text (within_constant legible (by decide)),
    List.forall_mem_cons.mpr ⟨value, List.forall_mem_singleton.mpr (spells_text (within_constant legible (by decide)))⟩⟩

theorem spells_plainAttribute {name : String} {value : List Char} (within : Within p name.toList)
    (inside : Within p value) : Spells p (plainAttribute name value) := by
  have quote : Spells p (Build.text (String.singleton (Text.preferredQuote value))) := by
    refine spells_text ?_
    unfold Text.preferredQuote
    split <;> exact within_constant legible (by decide)
  have written := spells_literalText (Text.within_ofList
    (Text.within_escapeQuote legible.admits (Text.preferredQuote value) inside))
  unfold plainAttribute
  refine spells_seq (List.forall_mem_cons.mpr ⟨spells_text within, ?_⟩)
  refine List.forall_mem_cons.mpr ⟨spells_text (within_constant legible (by decide)), ?_⟩
  exact List.forall_mem_cons.mpr ⟨quote, List.forall_mem_cons.mpr ⟨written, List.forall_mem_singleton.mpr quote⟩⟩

theorem makes_knownValue? (name : String) {value : List Char} (within : Within p value) :
    Printing.Makes (page.knownValue? name value) (AnswerIn p) := by
  unfold knownValue?
  split
  · refine Printing.makes_bind (makes_embed legible _) fun answer texts => ?_
    cases answer with
    | none => exact Printing.makes_pure answerIn_none
    | some doc =>
      have body := spells_pair spells_softline (makes_pure (texts doc rfl))
      refine Printing.makes_bind (Printing.makes_lift body) fun _ inside => ?_
      have indented := spells_pair (spells_indent inside) spells_softline
      exact Printing.makes_bind (Printing.makes_lift indented) fun _ here => Printing.makes_pure (answerIn_some here)
  · dsimp only
    split
    · exact Printing.makes_pure answerIn_none
    · have classes := Text.within_collapse (legible.admits _ (by decide)) within
      exact Printing.makes_bind (Printing.makes_lift (spells_text (Text.within_ofList classes))) fun _ here =>
        Printing.makes_pure (answerIn_some here)
  · exact Printing.makes_pure answerIn_none

theorem spells_printAttribute {attr : Attribute} (texts : attr.TextsIn p) :
    Printing.Spells p (page.printAttribute attr) := by
  obtain ⟨name, ofValue⟩ := Attribute.textsIn_iff.mp texts
  unfold printAttribute
  split
  · exact Printing.makes_lift (spells_literalText name)
  · next written same =>
    have value := Text.within_unescapeQuotes legible.admits (ofValue written same)
    dsimp only
    generalize Text.unescapeQuotes written.toList = cs at value ⊢
    have plain := Printing.makes_lift (spells_plainAttribute legible name value)
    have quoted (doc : Doc) (here : doc.TextsIn p) := Printing.makes_lift (spells_quotedAttribute legible name here)
    split
    · exact Printing.makes_bind (Printing.makes_pure answerIn_none) fun _ => Printing.makes_answered plain quoted
    · exact Printing.makes_bind (makes_knownValue? legible attr.rawName value) fun _ =>
        Printing.makes_answered plain quoted

theorem spells_beforeBracket (id : NodeId) (stays : Bool) : Spells p (page.beforeBracket id stays) := by
  unfold beforeBracket
  split
  · exact spells_text (within_constant legible (by decide))
  · exact spells_empty
  · exact separates_line.spells
  · exact spells_softline

theorem spells_printAttributes (id : NodeId) : Printing.Spells p (page.printAttributes id) := by
  have all : ∀ attr ∈ ((page.tree.kind id).element?.map (·.attributes)).getD [], attr.TextsIn p := by
    have texts := legible.texts id
    cases kind : page.tree.kind id with
    | element element =>
      rw [kind] at texts
      exact (Element.textsIn_iff.mp texts).2.2.2
    | _ => exact fun _ member => absurd member List.not_mem_nil
  unfold printAttributes
  dsimp only
  generalize ((page.tree.kind id).element?.map (·.attributes)).getD [] = attrs at all ⊢
  have each : Printing.Makes
      (attrs.mapM fun attr =>
        if (page.keptAttributes id).contains attr.rawName then
          (liftM (literalText (page.sourceText attr.span)) : Printing Doc)
        else page.printAttribute attr) fun docs => ∀ doc ∈ docs, doc.TextsIn p := by
    refine Printing.makes_mapM fun attr member => ?_
    split
    · exact Printing.makes_lift (spells_literalText (within_sourceText legible attr.span))
    · exact spells_printAttribute legible (all attr member)
  have space : Printing.Spells p (liftM (Build.text " ")) :=
    Printing.makes_lift (spells_text (within_constant legible (by decide)))
  split
  · split
    · exact space
    · exact Printing.makes_lift spells_empty
  · refine Printing.makes_bind each fun docs printed => ?_
    have finish {between first : Doc} (line : between.TextsIn p) (start : first.TextsIn p) (stays : Bool) :
        Printing.Spells p (do
          let list ← Build.concat [first, ← Build.concat (docs.intersperse between)]
          Build.concat [← Build.indent list, ← page.beforeBracket id stays]) := by
      have spaced := Layout.Doc.allTextsIn_intersperse (Layout.Doc.allTextsIn_iff.mpr printed) line
      refine Printing.makes_bind (Printing.makes_lift (spells_concat spaced)) fun _ list => ?_
      refine Printing.makes_bind (Printing.makes_lift (spells_concat ⟨start, list, trivial⟩)) fun _ body => ?_
      refine Printing.makes_bind (Printing.makes_lift (spells_indent body)) fun _ indented => ?_
      refine Printing.makes_bind (Printing.makes_lift (spells_beforeBracket legible id stays)) fun _ last => ?_
      exact Printing.makes_lift (spells_concat ⟨indented, last, trivial⟩)
    have begin {between : Doc} (line : between.TextsIn p) (oneLine stays : Bool) :
        Printing.Spells p (do
          let first ← if oneLine then (liftM (Build.text " ") : Printing Doc) else liftM Build.line
          let list ← Build.concat [first, ← Build.concat (docs.intersperse between)]
          Build.concat [← Build.indent list, ← page.beforeBracket id stays]) := by
      cases oneLine with
      | true => exact Printing.makes_bind space fun _ start => finish line start stays
      | false =>
        exact Printing.makes_bind (Printing.makes_lift separates_line.spells) fun _ start => finish line start stays
    split
    · exact Printing.makes_bind (Printing.makes_lift separates_hardline.spells) fun _ line => begin line _ _
    · exact Printing.makes_bind (Printing.makes_lift separates_line.spells) fun _ line => begin line _ _

theorem spells_openingTag (id : NodeId) : Printing.Spells p (page.openingTag id) := by
  unfold openingTag
  refine Printing.makes_bind (Printing.makes_lift (spells_openingStart legible id)) fun start first => ?_
  refine Printing.makes_bind (spells_printAttributes legible id) fun attributes inside => ?_
  have finish {stop : Doc} (last : stop.TextsIn p) :
      Printing.Spells p (liftM (Build.concat [start, attributes, stop])) :=
    Printing.makes_lift (spells_concat ⟨first, inside, last, trivial⟩)
  split
  · exact Printing.makes_bind (Printing.makes_lift spells_empty) fun _ => finish
  · exact Printing.makes_bind (Printing.makes_lift (spells_openingEnd legible id)) fun _ => finish

end Page

end MarkupFormat.Print
