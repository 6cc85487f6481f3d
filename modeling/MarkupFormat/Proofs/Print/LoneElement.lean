import MarkupFormat.Proofs.Annotate.LoneElement
import MarkupFormat.Proofs.Layout.Enclosed
import MarkupFormat.Proofs.Print.Nodes

/-!
# Printing an element with a text

The page of an element without attributes that holds one text is printed as a fill between two tags
(`IsLonePage.yields_print`). The fill is made up of the words of the text or, in a script or a style sheet, of its lines.
-/

namespace MarkupFormat.Layout.Build

variable {ε : Type}

/-! ### Trees of what is built -/

/-- What is built unfolds to a tree. -/
abbrev Draws (build : StateT Supply (Except ε) Doc) (tree : Doc) : Prop :=
  Yields build fun doc => doc.unfolded = tree

theorem unfoldedAll_eq_map (docs : List Doc) : Doc.unfoldedAll docs = docs.map Doc.unfolded := by
  induction docs with
  | nil => rfl
  | cons doc docs ih => rw [Doc.unfoldedAll, ih, List.map_cons]

theorem draws_text (content : String) : Draws (text content) (.text 0 content) :=
  yields_bind yields_freshMark fun _ _ => yields_pure rfl

theorem draws_concat {docs trees : List Doc} (same : docs.map Doc.unfolded = trees) :
    Draws (concat docs) (.concat 0 trees) :=
  yields_bind yields_freshMark fun _ _ => yields_pure (congrArg (Doc.concat 0) ((unfoldedAll_eq_map docs).trans same))

theorem draws_mapM {α : Type} {make : α → Build Doc} {tree : α → Doc} {values : List α}
    (each : ∀ value ∈ values, Draws (make value) (tree value)) :
    Yields (values.mapM make) fun docs => docs.map Doc.unfolded = values.map tree := by
  induction values with
  | nil => exact yields_pure rfl
  | cons value values ih =>
    obtain ⟨here, behind⟩ := List.forall_mem_cons.mp each
    rw [List.mapM_cons]
    refine yields_bind here fun doc same => yields_bind (ih behind) fun docs others => yields_pure ?_
    rw [List.map_cons, same, others, List.map_cons]

theorem map_intersperse {α β : Type} (f : α → β) (separator : α) (values : List α) :
    (values.intersperse separator).map f = (values.map f).intersperse (f separator) := by
  induction values with
  | nil => rfl
  | cons value values ih =>
    cases values with
    | nil => rfl
    | cons next values => simpa using ih

theorem draws_seq {builds : List (Build Doc)} {trees : List Doc} (each : List.Forall₂ Draws builds trees) :
    Draws (seq builds) (.concat 0 trees) := by
  have parts : Yields (builds.mapM id) fun docs => docs.map Doc.unfolded = trees := by
    induction each with
    | nil => exact yields_pure rfl
    | cons here _ ih =>
      rw [List.mapM_cons]
      refine yields_bind here fun doc same => yields_bind ih fun docs others => yields_pure ?_
      rw [List.map_cons, same, others]
  exact yields_bind parts fun docs same => draws_concat same

theorem draws_fill {parts trees : List Doc} (same : parts.map Doc.unfolded = trees) :
    Draws (fill parts) (.fill 0 trees) := by
  unfold fill
  split
  · exact yields_throw
  · exact yields_bind yields_freshMark fun _ _ =>
      yields_pure (congrArg (Doc.fill 0) ((unfoldedAll_eq_map parts).trans same))

theorem draws_groupWith {doc tree : Doc} (same : doc.unfolded = tree) (id : Option GroupId) (mustBreak : Bool) :
    Draws (groupWith doc id mustBreak) (.group 0 ⟨id, mustBreak⟩ tree) :=
  yields_bind yields_freshMark fun _ _ => yields_pure (congrArg (Doc.group 0 ⟨id, mustBreak⟩) same)

theorem draws_indent {doc tree : Doc} (same : doc.unfolded = tree) : Draws (indent doc) (.indent 0 tree) :=
  yields_bind yields_freshMark fun _ _ => yields_pure (congrArg (Doc.indent 0) same)

theorem draws_bareLine (kind : LineKind) : Draws (bareLine kind) (.line 0 kind) :=
  yields_bind yields_freshMark fun _ _ => yields_pure rfl

theorem draws_breakParent : Draws breakParent (.breakParent 0) :=
  yields_bind yields_freshMark fun _ _ => yields_pure rfl

theorem draws_hardline : Draws hardline Doc.forcedBreak :=
  yields_bind (draws_bareLine .hard) fun line isLine => yields_bind draws_breakParent fun after isBreak =>
    draws_concat (by rw [List.map_cons, List.map_cons, isLine, isBreak, List.map_nil])

end MarkupFormat.Layout.Build

namespace MarkupFormat.Print

open Annotate (IsSettled isPreLike isScriptLike loneTree)
open Layout (Alternate Build Doc FillWord GroupId Parting)
open Layout.Build (Draws Yields draws_bareLine draws_breakParent draws_concat draws_fill draws_groupWith draws_hardline
  draws_indent draws_seq draws_text draws_mapM map_intersperse yields_bind
  yields_freshGroup yields_pure)
open Layout.Doc (IsEnclosed IsTag Wraps enclosed forcedBreak)
open Markup (Element NodeId NodeInfo NodeKind Outline Tree)
open Text (Ordinary Ruler Within)

/-! ### Parts of the fill -/

variable {ruler : Ruler} {forced : Bool} {separator last first : Doc}

/-- A word of a fill is still written as the word when nothing is joined to it. -/
theorem spells_concat {word : FillWord} {doc : Doc} (spells : doc.Spells ruler word) :
    (Doc.concat 0 [.text 0 "", doc]).Spells ruler word ∧ (Doc.concat 0 [doc, .text 0 ""]).Spells ruler word := by
  obtain ⟨texts, content, width⟩ := spells
  have nothing : Text.displayWidth "" ruler = 0 := rfl
  constructor
  · exact ⟨by simp [Doc.isTexts, Doc.areTexts, texts], by simp [Doc.content, Doc.contents, content],
      by simp [Doc.levelWidth, Doc.levelWidths, width, nothing]⟩
  · exact ⟨by simp [Doc.isTexts, Doc.areTexts, texts], by simp [Doc.content, Doc.contents, content],
      by simp [Doc.levelWidth, Doc.levelWidths, width, nothing]⟩

/-- The words of a fill that all have the same line before them. -/
def fillWords (forced : Bool) (texts : List (List Char)) : List FillWord :=
  texts.map (⟨forced, String.ofList ·⟩)

/-- Texts with a line between each two of them. -/
def textTrees (separator : Doc) (texts : List (List Char)) : List Doc :=
  (texts.map fun text => .text 0 (String.ofList text)).intersperse separator

theorem yields_joinLast (parting : Parting forced separator) (nothing : last.unfolded = .text 0 "")
    (texts : List (List Char)) {word : List Char} {part : Doc} {docs : List Doc}
    (spells : part.unfolded.Spells ruler ⟨forced, String.ofList word⟩)
    (same : Doc.text 0 (String.ofList word) :: docs.map Doc.unfolded = textTrees separator (word :: texts)) :
    Yields (joinLast last part docs) fun parts =>
      Alternate ruler (fillWords forced (word :: texts)) (parts.map Doc.unfolded) := by
  induction texts generalizing word part docs with
  | nil =>
    obtain rfl : docs = [] := by simpa [textTrees] using same
    refine yields_bind (draws_concat rfl) fun whole isWhole => yields_pure ?_
    rw [List.map_singleton, isWhole, List.map_cons, List.map_singleton, nothing]
    exact .single (spells_concat spells).2
  | cons text texts ih =>
    have behind : docs.map Doc.unfolded = separator :: textTrees separator (text :: texts) := by
      simpa [textTrees] using same
    obtain ⟨next, hasNext⟩ : ∃ next, textTrees separator (text :: texts) = .text 0 (String.ofList text) :: next := by
      cases texts <;> exact ⟨_, rfl⟩
    obtain ⟨between, docs, rfl, isSeparator, others⟩ := List.map_eq_cons_iff.mp behind
    obtain ⟨doc, docs, rfl, isText, later⟩ := List.map_eq_cons_iff.mp (others.trans hasNext)
    rw [joinLast, joinLast, bind_assoc]
    refine yields_bind (@ih text doc docs ?_ ?_) fun joined alternate => ?_
    · rw [isText]
      exact ⟨rfl, rfl, rfl⟩
    · rw [later, hasNext]
    · rw [pure_bind]
      refine yields_pure ?_
      -- The words behind are not gone, so the separator still stands between two of them.
      obtain ⟨other, others, shape⟩ := alternate.exists_cons
      rw [shape] at alternate
      rw [List.map_cons, List.map_cons, isSeparator, shape]
      exact .cons spells parting alternate

theorem yields_wrapParts (parting : Parting forced separator) (before : first.unfolded = .text 0 "")
    (after : last.unfolded = .text 0 "") {text : List Char} {texts : List (List Char)}
    {docs : List Doc} (same : docs.map Doc.unfolded = textTrees separator (text :: texts)) :
    Yields (wrapParts first last docs) fun parts =>
      Alternate ruler (fillWords forced (text :: texts)) (parts.map Doc.unfolded) := by
  obtain ⟨next, hasNext⟩ : ∃ next, textTrees separator (text :: texts) = .text 0 (String.ofList text) :: next := by
    cases texts <;> exact ⟨_, rfl⟩
  obtain ⟨doc, docs, rfl, isText, later⟩ := List.map_eq_cons_iff.mp (same.trans hasNext)
  refine yields_bind (draws_concat rfl) fun whole isWhole => yields_joinLast parting after texts ?_ ?_
  · rw [isWhole, List.map_cons, List.map_singleton, before, isText]
    exact (spells_concat ⟨rfl, rfl, rfl⟩).1
  · rw [later, hasNext]

/-! ### Pages with one element -/

/-- A page whose only element has no attributes and one text. White space does not show in it, or its lines are kept. -/
structure IsLonePage (page : Page) (source : String) (root element text : NodeInfo) (named : Element)
    (value : String) : Prop where
  tree : page.tree = loneTree source root element text
  settled : IsSettled root element text named value
  declines : page.Declines
  bare : named.attributes = []
  free : named.condition = none
  closes : ∃ span, element.endSpan = some span ∧ page.sourceText span ≠ "<//>"
  flows : ["html", "head", "ul", "ol", "select"].contains named.name = false
  noPre : isPreLike (.element named) = false

/-- The words of the text of an element, or its lines if they are kept. -/
def printedPieces (named : Element) (value : List Char) : List (List Char) :=
  if isScriptLike (.element named) then Text.linesOf (Text.dedent (Text.trimKeepingIndentation value))
  else Text.words value

/-- Whether the tags of an element with a text always have lines of their own. -/
def breaksText (named : Element) : Bool :=
  ["body", "script", "style"].contains named.name

theorem draws_own {page : Page} {id : NodeId} {marker : Markup.Marker} {content : String}
    (same : page.markerText ⟨id, marker⟩ = content) : Draws (page.own id marker) (.text 0 content) := by
  unfold Page.own
  rw [same]
  exact draws_text content

def openingTree (named : Element) : Doc :=
  .concat 0 [.concat 0 [.text 0 "", .text 0 ("<" ++ named.name)], .text 0 "", .text 0 ">"]

def closingTree (named : Element) : Doc :=
  .concat 0 [.concat 0 [.text 0 "", .text 0 ("</" ++ named.name)], .concat 0 [.text 0 ">", .text 0 ""]]

theorem isTag_openingTree {named : Element} (ordinary : Within Ordinary named.name.toList) :
    IsTag ("<" ++ named.name ++ ">").toList (openingTree named) := by
  have edges : (∀ c ∈ "<".toList, Ordinary c) ∧ ∀ c ∈ ">".toList, Ordinary c := by
    simp [Ordinary, Text.isControl]
  refine ⟨rfl, by simp [openingTree, Doc.content, Doc.contents], ?_, '>', ?_, rfl⟩
  · exact Text.within_string_append (Text.within_string_append edges.1 ordinary) edges.2
  · rw [String.toList_append]
    exact List.getLast?_concat

theorem isTag_closingTree {named : Element} (ordinary : Within Ordinary named.name.toList) :
    IsTag ("</" ++ named.name ++ ">").toList (closingTree named) := by
  have edges : (∀ c ∈ "</".toList, Ordinary c) ∧ ∀ c ∈ ">".toList, Ordinary c := by
    simp [Ordinary, Text.isControl]
  refine ⟨rfl, by simp [closingTree, Doc.content, Doc.contents], ?_, '>', ?_, rfl⟩
  · exact Text.within_string_append (Text.within_string_append edges.1 ordinary) edges.2
  · rw [String.toList_append]
    exact List.getLast?_concat

namespace IsLonePage

variable {page : Page} {source : String} {root element text : NodeInfo} {named : Element} {value : String}
  (isLone : IsLonePage page source root element text named value)

include isLone

theorem glues : page.tree.isGluedBefore 1 = false ∧ page.tree.isGluedAfter 1 = false ∧
    page.tree.isGluedBefore 2 = false ∧ page.tree.isGluedAfter 2 = false := by
  rw [isLone.tree]
  unfold Tree.isGluedBefore Tree.isGluedAfter
  refine ⟨?_, ?_, ?_, ?_⟩
  · exact congrArg (· && _) isLone.settled.calmElement.1
  · exact congrArg (· && _) isLone.settled.calmElement.2
  · exact congrArg (· && _) isLone.settled.calmText.1
  · exact congrArg (· && _) isLone.settled.calmText.2

theorem siblings : page.tree.prev? 1 = none ∧ page.tree.next? 1 = none ∧ page.tree.prev? 2 = none ∧
    page.tree.next? 2 = none := by
  rw [isLone.tree]
  exact ⟨rfl, rfl, rfl, rfl⟩

theorem parents : page.tree.parent? 1 = some 0 ∧ page.tree.parent? 2 = some 1 := by
  rw [isLone.tree]
  exact ⟨rfl, rfl⟩

theorem children : page.tree.children 0 = [1] ∧ page.tree.children 1 = [2] ∧ page.tree.children 2 = [] := by
  rw [isLone.tree]
  exact ⟨rfl, rfl, rfl⟩

theorem kinds : page.tree.kind 0 = .root ∧ page.tree.kind 1 = .element named ∧ page.tree.kind 2 = .text value := by
  rw [isLone.tree]
  exact ⟨isLone.settled.rootKind, isLone.settled.elementKind, isLone.settled.textKind⟩

theorem borrows : page.tree.borrowedBefore? 1 = none ∧ page.tree.borrowedAfter? 1 = none ∧
    page.tree.borrowedInside? 1 = none ∧ page.tree.borrowedBefore? 2 = none ∧ page.tree.borrowedAfter? 2 = none := by
  obtain ⟨before1, after1, before2, after2⟩ := isLone.glues
  obtain ⟨prev1, next1, prev2, next2⟩ := isLone.siblings
  obtain ⟨-, children1, -⟩ := isLone.children
  simp [Tree.borrowedBefore?, Tree.borrowedAfter?, Tree.borrowedInside?, Tree.borrowsParentOpeningEnd,
    Tree.borrowsParentClosingStart, Tree.borrowsLastChildClosingEnd, Tree.lastChild?, *]

theorem lends : page.tree.lendsOpeningStart 1 = false ∧ page.tree.lendsOpeningEnd 1 = false ∧
    page.tree.lendsClosingStart 1 = false ∧ page.tree.lendsClosingEnd 1 = false := by
  obtain ⟨before1, after1, before2, after2⟩ := isLone.glues
  obtain ⟨prev1, next1, prev2, next2⟩ := isLone.siblings
  obtain ⟨parent1, -⟩ := isLone.parents
  obtain ⟨children0, children1, -⟩ := isLone.children
  simp [Tree.lendsOpeningStart, Tree.lendsOpeningEnd, Tree.lendsClosingStart, Tree.lendsClosingEnd,
    Tree.borrowsParentOpeningEnd, Tree.borrowsParentClosingStart, Tree.borrowsLastChildClosingEnd, Tree.lastChild?,
    Tree.firstChild?, *]

/-! ### Tags -/

theorem isSelfClosing : page.isSelfClosing 1 = false := by
  unfold Page.isSelfClosing
  rw [isLone.tree]
  exact isLone.settled.opens

theorem rawName : named.rawName = named.name := by
  unfold Element.rawName Element.fullName
  rw [isLone.settled.plain]
  split <;> rfl

theorem markers : page.markerText ⟨1, .openingStart⟩ = "<" ++ named.name ∧ page.markerText ⟨1, .openingEnd⟩ = ">" ∧
    page.markerText ⟨1, .closingStart⟩ = "</" ++ named.name ∧ page.markerText ⟨1, .closingEnd⟩ = ">" := by
  obtain ⟨-, kind, -⟩ := isLone.kinds
  obtain ⟨span, ends, isNamed⟩ := isLone.closes
  have endSpan : (page.tree.node 1).endSpan = some span := by
    rw [isLone.tree]
    exact ends
  have kindOf : (page.tree.node 1).kind = .element named := kind
  have omits : page.omitsClosingTag 1 = false := by
    simp [Page.omitsClosingTag, endSpan]
  have nameless : page.hasNamelessEndTag 1 = false := by
    simp [Page.hasNamelessEndTag, endSpan, isNamed]
  refine ⟨?_, ?_, ?_, ?_⟩
  · simp [Page.markerText, Page.openingStartText, kindOf, Page.elementStart, isLone.free, isLone.rawName]
  · simp [Page.markerText, Page.openingEndText, kind, isLone.free]
  · simp [Page.markerText, Page.closingStartText, kind, omits, nameless, isLone.rawName]
  · simp [Page.markerText, Page.closingEndText, kind, omits, isLone.isSelfClosing]

theorem yields_openingTag : Printing.Yields (page.openingTag 1) fun doc => doc.unfolded = openingTree named := by
  obtain ⟨openingStart, openingEnd, -, -⟩ := isLone.markers
  obtain ⟨noStart, noEnd, -, -⟩ := isLone.lends
  have start : Draws (page.openingStart 1) (.concat 0 [.text 0 "", .text 0 ("<" ++ named.name)]) := by
    unfold Page.openingStart Page.before Page.borrowed
    rw [noStart, if_neg Bool.false_ne_true, isLone.borrows.1]
    exact draws_seq (.cons (draws_text "") (.cons (draws_own openingStart) .nil))
  have attributes : Printing.Yields (page.printAttributes 1) fun doc => doc.unfolded = .text 0 "" := by
    unfold Page.printAttributes
    rw [isLone.kinds.2.1]
    dsimp only [NodeKind.element?, Option.map_some, Option.getD_some]
    rw [isLone.bare]
    dsimp only
    rw [isLone.isSelfClosing, if_neg Bool.false_ne_true]
    exact Printing.yields_lift (draws_text "")
  have stop : Draws (page.openingEnd 1) (.text 0 ">") := by
    unfold Page.openingEnd
    rw [noEnd, if_neg Bool.false_ne_true]
    exact draws_own openingEnd
  unfold Page.openingTag
  refine Printing.yields_bind (Printing.yields_lift start) fun startDoc isStart => ?_
  refine Printing.yields_bind attributes fun attributesDoc isEmpty => ?_
  rw [isLone.isSelfClosing, if_neg Bool.false_ne_true]
  refine Printing.yields_bind (Printing.yields_lift stop) fun stopDoc isStop => ?_
  exact Printing.yields_lift (draws_concat (by rw [List.map_cons, List.map_cons, List.map_singleton, isStart, isEmpty,
    isStop]))

theorem draws_closingTag : Draws (page.closingTag 1) (closingTree named) := by
  obtain ⟨-, -, closingStart, closingEnd⟩ := isLone.markers
  obtain ⟨-, -, noStart, noEnd⟩ := isLone.lends
  obtain ⟨-, after, inside, -, -⟩ := isLone.borrows
  have start : Draws (page.closingStart 1) (.concat 0 [.text 0 "", .text 0 ("</" ++ named.name)]) := by
    unfold Page.closingStart Page.borrowed
    rw [noStart, if_neg Bool.false_ne_true, inside]
    exact draws_seq (.cons (draws_text "") (.cons (draws_own closingStart) .nil))
  have stop : Draws (page.closingEnd 1) (.concat 0 [.text 0 ">", .text 0 ""]) := by
    unfold Page.closingEnd Page.after Page.borrowed
    rw [noEnd, if_neg Bool.false_ne_true, after]
    exact draws_seq (.cons (draws_own closingEnd) (.cons (draws_text "") .nil))
  unfold Page.closingTag
  rw [isLone.isSelfClosing, if_neg Bool.false_ne_true]
  exact draws_seq (.cons start (.cons stop .nil))

/-! ### The text -/

theorem flags : (page.tree.node 1).flags.whitespaceSensitive = isScriptLike (.element named) ∧
    (page.tree.node 1).flags.indentationSensitive = false := by
  rw [isLone.tree]
  exact ⟨isLone.settled.kept, isLone.settled.reindented⟩

theorem yields_textParts : ∃ separator, Parting (isScriptLike (.element named)) separator ∧
    Yields (page.textParts 2 value.toList) fun docs =>
      docs.map Doc.unfolded = textTrees separator (printedPieces named value.toList) := by
  obtain ⟨sensitive, indented⟩ := isLone.flags
  have texts (pieces : List (List Char)) :
      Yields (pieces.mapM fun piece => Build.text (String.ofList piece)) fun docs =>
        docs.map Doc.unfolded = pieces.map fun piece => .text 0 (String.ofList piece) :=
    draws_mapM fun piece _ => draws_text (String.ofList piece)
  unfold Page.textParts printedPieces
  rw [isLone.parents.2]
  dsimp only [Option.map_some, Option.getD_some]
  rw [sensitive, indented, if_neg Bool.false_ne_true]
  cases isScriptLike (.element named) with
  | true =>
    refine ⟨forcedBreak, .hardline 0 0 0, yields_bind draws_hardline fun line isLine => ?_⟩
    unfold Build.splitLines Text.splitOn
    rw [String.toList_ofList, List.mapM_map]
    refine yields_bind (texts _) fun docs same => yields_pure ?_
    rw [map_intersperse, same, isLine]
    rfl
  | false =>
    refine ⟨.line 0 .plain, .line 0, yields_bind (draws_bareLine .plain) fun line isLine => ?_⟩
    refine yields_bind (texts _) fun docs same => yields_pure ?_
    rw [map_intersperse, same, isLine]
    rfl

theorem yields_printText (ruler : Ruler) {first : List Char} {others : List (List Char)}
    (pieces : printedPieces named value.toList = first :: others) :
    Yields (page.printText 2 value.toList) fun doc => ∃ parts, doc.unfolded = .fill 0 parts ∧
      Alternate ruler (fillWords (isScriptLike (.element named)) (first :: others)) parts := by
  obtain ⟨-, -, -, before, after⟩ := isLone.borrows
  obtain ⟨separator, parting, parts⟩ := isLone.yields_textParts
  have noInterpolation : (page.tree.parent? 2).any (fun parent => (page.tree.kind parent).isInterpolation) = false := by
    rw [isLone.parents.2, Option.any_some, isLone.kinds.2.1]
    rfl
  unfold Page.printText Page.before Page.after Page.borrowed
  rw [noInterpolation, if_neg Bool.false_ne_true, before, after]
  refine yields_bind (draws_text "") fun front isFront => yields_bind (draws_text "") fun back isBack => ?_
  refine yields_bind parts fun docs same => ?_
  rw [pieces] at same
  refine yields_bind (@yields_wrapParts ruler _ _ _ _ parting isFront isBack _ _ _ same) fun wrapped alternate => ?_
  exact (draws_fill rfl).mono fun doc isFill => ⟨_, isFill, alternate⟩

/-! ### The element -/

theorem breaksChildren : page.tree.breaksChildren 0 = false ∧ page.tree.breaksChildren 1 = false := by
  obtain ⟨root, element, -⟩ := isLone.kinds
  have display : (page.tree.node 1).display.isTable = false := by
    rw [isLone.tree]
    exact isLone.settled.noTable
  unfold Tree.kind at root element
  unfold Tree.breaksChildren
  dsimp only
  rw [root, element]
  dsimp only
  rw [isLone.flows, display, Bool.false_and, Bool.or_false, Bool.and_false]
  exact ⟨rfl, rfl⟩

theorem separates : separatorBefore? page.tree 1 = none ∧ separatorAfter? page.tree 1 = none ∧
    separatorBefore? page.tree 2 = none := by
  obtain ⟨prev1, next1, prev2, -⟩ := isLone.siblings
  simp [separatorBefore?, separatorAfter?, *]

theorem isTextLikeNode : page.tree.isTextLikeNode 1 = false ∧ page.tree.isTextLikeNode 2 = true := by
  obtain ⟨-, element, text⟩ := isLone.kinds
  unfold Tree.isTextLikeNode
  rw [element, text]
  exact ⟨rfl, rfl⟩

theorem draws_joinChildren_text {doc : Doc} {tree : Doc} (same : doc.unfolded = tree) :
    Draws (joinChildren page.tree 1 [(2, doc)]) (.concat 0 [tree]) := by
  have flows (group : GroupId) : flowing page.tree 2 doc group none = pure [doc] := by
    unfold flowing flowingText
    rw [isLone.isTextLikeNode.2, if_pos rfl, isLone.separates.2.2]
  have flowing : Yields (flowAll page.tree none [(2, doc)]) fun docs => docs = [doc] := by
    unfold flowAll
    refine yields_bind yields_freshGroup fun group _ => ?_
    rw [flows, pure_bind]
    exact yields_pure rfl
  unfold joinChildren
  rw [isLone.breaksChildren.2, if_neg Bool.false_ne_true]
  refine yields_bind flowing fun docs only => draws_concat ?_
  rw [only, List.map_singleton, same]

theorem yields_joinChildren_element {doc inner tree : Doc} (same : doc.unfolded = tree)
    (wraps : Wraps false inner tree) :
    Yields (joinChildren page.tree 0 [(1, doc)]) fun joined => Wraps false inner joined.unfolded := by
  have flows (group : GroupId) : Yields (flowing page.tree 1 doc group none) fun docs =>
      ∃ outer, docs = [outer] ∧ Wraps false inner outer.unfolded := by
    unfold flowing precedingParts followingParts
    rw [isLone.isTextLikeNode.1, if_neg Bool.false_ne_true, isLone.separates.1, isLone.separates.2.1]
    dsimp only
    rw [pure_bind, pure_bind]
    refine yields_bind (draws_concat rfl) fun content isContent => ?_
    refine yields_bind (draws_groupWith isContent (some group) false) fun inside isInside => ?_
    refine yields_bind (draws_concat rfl) fun around isAround => ?_
    refine yields_bind (draws_groupWith isAround none false) fun outer isOuter => yields_pure ⟨outer, rfl, ?_⟩
    rw [isOuter]
    simp only [List.nil_append, List.map_singleton, isInside, same]
    exact .group none (.concat (.group (some group) (.concat wraps)))
  have flowing : Yields (flowAll page.tree none [(1, doc)]) fun docs =>
      ∃ outer, docs = [outer] ∧ Wraps false inner outer.unfolded := by
    unfold flowAll
    refine yields_bind yields_freshGroup fun group _ => yields_bind (flows group) fun docs only => ?_
    exact yields_bind (yields_pure rfl) fun none isNone => yields_pure (isNone ▸ (List.append_nil docs).symm ▸ only)
  unfold joinChildren
  rw [isLone.breaksChildren.1, if_neg Bool.false_ne_true]
  refine yields_bind flowing fun docs only => ?_
  obtain ⟨outer, rfl, wrapped⟩ := only
  refine (draws_concat rfl).mono fun joined isJoined => ?_
  rw [isJoined]
  exact .concat wrapped

theorem breaksContent : page.tree.breaksContent 1 = breaksText named := by
  obtain ⟨-, element, text⟩ := isLone.kinds
  obtain ⟨-, children1, children2⟩ := isLone.children
  unfold Tree.breaksContent breaksText
  rw [isLone.breaksChildren.2, element, children1]
  simp [Tree.hasNonTextChild, children2, text, NodeKind.isText]

theorem hugsContent : page.hugsContent 1 = false := by
  unfold Page.hugsContent
  rw [isLone.children.2.1]
  dsimp only
  rw [isLone.kinds.2.2]
  rfl

theorem draws_body {tags : GroupId} {doc : Doc} {parts : List Doc} (isFill : doc.unfolded = .fill 0 parts) :
    Draws (page.body 1 [(2, doc)] tags) (.concat 0 [Doc.breakIf (breaksText named),
      .indent 0 (.concat 0 [.line 0 .soft, .concat 0 [.fill 0 parts]]), .line 0 .soft]) := by
  obtain ⟨before2, after2⟩ : (page.tree.node 2).flags.leadingSensitive = false ∧
      (page.tree.node 2).flags.trailingSensitive = false := by
    rw [isLone.tree]
    exact isLone.settled.calmText
  have notKept (child : Markup.Node) : keepsIndentation (page.tree.node 1) child = false := by
    unfold keepsIndentation
    rw [isLone.flags.2, Bool.and_false]
  have before : Draws (page.lineBefore 1 (page.tree.node 2) tags) (.line 0 .soft) := by
    unfold Page.lineBefore hasSensitiveSpaceBefore
    rw [isLone.hugsContent, if_neg Bool.false_ne_true, before2, Bool.and_false, if_neg Bool.false_ne_true, notKept,
      if_neg Bool.false_ne_true]
    exact draws_bareLine .soft
  have stays : page.endsAtClosingTag 1 (page.tree.node 2) = false := by
    have text : (page.tree.node 2).kind = .text value := isLone.kinds.2.2
    unfold Page.endsAtClosingTag
    dsimp only
    rw [text]
    dsimp only
    rw [notKept, Bool.false_and]
  have after : Draws (page.lineAfter 1 (page.tree.node 2) tags) (.line 0 .soft) := by
    unfold Page.lineAfter hasSensitiveSpaceAfter
    rw [isLone.lends.2.2.2, if_neg Bool.false_ne_true, isLone.hugsContent, if_neg Bool.false_ne_true, after2,
      Bool.and_false, if_neg Bool.false_ne_true, stays, if_neg Bool.false_ne_true]
    exact draws_bareLine .soft
  have breaks : Draws (if page.tree.breaksContent 1 = true then Build.breakParent else Build.empty)
      (Doc.breakIf (breaksText named)) := by
    rw [isLone.breaksContent]
    cases breaksText named with
    | true => exact draws_breakParent
    | false => exact draws_text ""
  unfold Page.body Tree.firstChild? Tree.lastChild?
  rw [isLone.children.2.1]
  dsimp only [List.head?_cons, List.getLast?_singleton]
  refine yields_bind before fun line isLine => ?_
  refine yields_bind (isLone.draws_joinChildren_text isFill) fun joined isJoined => ?_
  refine yields_bind (draws_concat rfl) fun content isContent => ?_
  rw [List.map_cons, List.map_singleton, isLine, isJoined] at isContent
  rw [isLone.hugsContent, if_neg Bool.false_ne_true]
  refine yields_bind (draws_indent isContent) fun indented isIndented => ?_
  exact draws_seq (.cons breaks (.cons (yields_pure isIndented) (.cons after .nil)))

theorem yields_printElement {doc : Doc} {parts : List Doc} (isFill : doc.unfolded = .fill 0 parts) :
    Printing.Yields (page.printElement 1 [(2, doc)]) fun printed => ∃ tags, printed.unfolded =
      .group 0 ⟨none, false⟩ (enclosed tags (openingTree named) (breaksText named) parts (closingTree named)) := by
  unfold Page.printElement
  refine Printing.yields_bind (Printing.yields_lift yields_freshGroup) fun tags _ => ?_
  refine Printing.yields_bind (Printing.yields_lift (isLone.draws_body isFill)) fun body isBody => ?_
  refine Printing.yields_bind isLone.yields_openingTag fun tag isTag => ?_
  refine Printing.yields_bind (Printing.yields_lift (draws_groupWith isTag (some tags) false))
    fun opening isOpening => ?_
  refine Printing.yields_bind (Printing.yields_lift isLone.draws_closingTag) fun closing isClosing => ?_
  refine Printing.yields_bind (Printing.yields_lift (draws_concat rfl)) fun whole isWhole => ?_
  rw [List.map_cons, List.map_cons, List.map_singleton, isOpening, isBody, isClosing] at isWhole
  exact Printing.yields_lift ((draws_groupWith isWhole none false).mono fun printed same => ⟨tags, same⟩)

/-! ### The page -/

theorem isIgnored : page.tree.isIgnored 1 = false ∧ page.tree.isIgnored 2 = false := by
  obtain ⟨prev1, -, prev2, -⟩ := isLone.siblings
  unfold Tree.isIgnored
  rw [prev1, prev2]
  exact ⟨rfl, rfl⟩

theorem preservesContent : page.tree.preservesContent 0 = false ∧ page.tree.preservesContent 1 = false ∧
    page.tree.preservesContent 2 = false := by
  obtain ⟨root, element, text⟩ := isLone.kinds
  unfold Tree.kind at root element text
  have still : isPreLike .root = false ∧ isPreLike (.text value) = false := by
    show "pre".toList.isPrefixOf "normal".toList = false ∧ "pre".toList.isPrefixOf "normal".toList = false
    decide
  unfold Tree.preservesContent
  dsimp only
  rw [root, element, text, isLone.noPre, still.1, still.2]
  exact ⟨rfl, rfl, rfl⟩

theorem yields_embedded? (id : NodeId) (member : id ∈ [0, 1, 2]) :
    Printing.Yields (page.embedded? id) fun answer => answer = none := by
  refine fun requests => (Page.yields_embedded? isLone.declines requests).mono fun ⟨answer, _⟩ said => ?_
  cases answer with
  | none => rfl
  | some doc =>
    obtain ⟨block, kind, -⟩ := said
    obtain ⟨root, element, text⟩ := isLone.kinds
    simp only [List.mem_cons, List.not_mem_nil, or_false] at member
    rcases member with rfl | rfl | rfl
    · rw [root] at kind
      cases kind
    · rw [element] at kind
      cases kind
    · rw [text] at kind
      cases kind

theorem yields_printNode {id : NodeId} (member : id ∈ [0, 1, 2]) {inner : List Outline}
    {below : List (NodeId × Doc) → Prop} {holds : Doc → Prop} (children : Printing.Yields (page.printNodes inner) below)
    (assembled : ∀ docs, below docs → Printing.Yields (page.assemble id docs) holds) :
    Printing.Yields (page.printNode (.node id inner)) holds := by
  have copied : page.tree.preservesContent id = false := by
    obtain ⟨copied0, copied1, copied2⟩ := isLone.preservesContent
    simp only [List.mem_cons, List.not_mem_nil, or_false] at member
    rcases member with rfl | rfl | rfl
    · exact copied0
    · exact copied1
    · exact copied2
  rw [Page.printNode]
  refine Printing.yields_bind (isLone.yields_embedded? id member) fun answer none => ?_
  subst none
  dsimp only
  rw [copied, if_neg Bool.false_ne_true]
  exact Printing.yields_bind children assembled

theorem yields_printNodes {id : NodeId} (member : id ∈ [1, 2]) {inner : List Outline} {holds : Doc → Prop}
    (printed : Printing.Yields (page.printNode (.node id inner)) holds) :
    Printing.Yields (page.printNodes [.node id inner]) fun docs => ∃ doc, docs = [(id, doc)] ∧ holds doc := by
  have kept : page.tree.isIgnored id = false := by
    simp only [List.mem_cons, List.not_mem_nil, or_false] at member
    rcases member with rfl | rfl
    · exact isLone.isIgnored.1
    · exact isLone.isIgnored.2
  rw [Page.printNodes, kept, if_neg Bool.false_ne_true]
  refine Printing.yields_bind printed fun doc here => ?_
  exact Printing.yields_bind (Printing.yields_pure rfl) fun docs none =>
    Printing.yields_pure ⟨doc, by rw [none], here⟩

theorem outline : page.tree.outline Tree.rootId = .node 0 [.node 1 [.node 2 []]] := by
  rw [isLone.tree]
  rfl

/-- The page is printed as the pieces of its text between two tags. -/
theorem yields_print (ruler : Ruler) (ordinary : Within Ordinary named.name.toList) {first : List Char}
    {others : List (List Char)} (pieces : printedPieces named value.toList = first :: others) :
    Printing.Yields page.print fun doc => IsEnclosed ruler ("<" ++ named.name ++ ">").toList (breaksText named)
      (fillWords (isScriptLike (.element named)) (first :: others)) ("</" ++ named.name ++ ">").toList
      doc.unfolded := by
  obtain ⟨root, element, text⟩ := isLone.kinds
  have textPrinted : Printing.Yields (page.printNode (.node 2 [])) fun doc => ∃ parts, doc.unfolded = .fill 0 parts ∧
      Alternate ruler (fillWords (isScriptLike (.element named)) (first :: others)) parts := by
    refine isLone.yields_printNode (by simp) Printing.yields_true fun docs _ => ?_
    unfold Page.assemble
    rw [text]
    exact Printing.yields_lift (isLone.yields_printText ruler pieces)
  have elementPrinted : Printing.Yields (page.printNode (.node 1 [.node 2 []])) fun doc => ∃ tags parts,
      Alternate ruler (fillWords (isScriptLike (.element named)) (first :: others)) parts ∧ doc.unfolded =
        .group 0 ⟨none, false⟩ (enclosed tags (openingTree named) (breaksText named) parts (closingTree named)) := by
    refine isLone.yields_printNode (by simp) (isLone.yields_printNodes (by simp) textPrinted) fun docs printed => ?_
    obtain ⟨doc, rfl, parts, isFill, alternate⟩ := printed
    unfold Page.assemble
    rw [element]
    intro requests
    refine (isLone.yields_printElement isFill requests).mono fun result same => ?_
    obtain ⟨tags, same⟩ := same
    exact ⟨tags, parts, alternate, same⟩
  unfold Page.print
  rw [isLone.outline]
  refine isLone.yields_printNode (by simp) (isLone.yields_printNodes (by simp) elementPrinted) fun docs printed => ?_
  obtain ⟨doc, rfl, tags, parts, alternate, same⟩ := printed
  unfold Page.assemble
  rw [root]
  dsimp only
  refine Printing.yields_bind (Printing.yields_lift (isLone.yields_joinChildren_element same (.group none .here)))
    fun joined wraps => ?_
  refine Printing.yields_bind (Printing.yields_lift (draws_groupWith rfl none false)) fun grouped isGroup => ?_
  refine Printing.yields_bind (Printing.yields_lift draws_hardline) fun line isLine => ?_
  refine Printing.yields_lift ((draws_concat rfl).mono fun doc whole => ?_)
  rw [whole, List.map_cons, List.map_singleton, isGroup, isLine]
  exact .mk wraps (isTag_openingTree ordinary) alternate (isTag_closingTree ordinary)

end IsLonePage

end MarkupFormat.Print
