import MarkupFormat.Proofs.Annotate.Declaration
import MarkupFormat.Proofs.Markup.HtmlFragment

/-!
# Annotating an element with a text

An element that holds one text keeps it through all passes (`exists_ofContent_lone`): the text loses the white space
around it, unless the lines of the element are kept, and white space after the element is dropped.
-/

namespace MarkupFormat.Annotate

open Markup (Element Fragment Inert NodeInfo NodeKind Tree spaceNodes)
open Text (byteLength isMarkupSpace)

/-! ### Trees of three nodes -/

/-- The tree of a root with one element in it, which has one text. -/
def loneTree (source : String) (root element text : NodeInfo) : Tree :=
  { nodes := #[{ toNodeInfo := root, children := [1] },
      { toNodeInfo := element, parent := some 0, children := [2] }, { toNodeInfo := text, parent := some 1 }]
    source := source
    lines := .build source.toList }

variable {source : String} {root element text : NodeInfo} {named : Element} {value : String}

theorem ofRoot_lone (source : String) (root element text : NodeInfo) :
    Tree.ofRoot source (.node root [.node element [.node text []]]) = loneTree source root element text := by
  simp [Tree.ofRoot, Tree.relink, Tree.nodesOf, Tree.nodesOfAll, Tree.numbers, Tree.unlinked, Tree.ids,
    Tree.size, Tree.children, Markup.Tree.node, Tree.linkChildren, List.range, List.range.loop, Tree.rootId,
    Array.modify, Array.modifyM, loneTree]

theorem mapNodes_lone (source : String) (root element text : NodeInfo)
    (change : Markup.NodeId → Markup.Node → Markup.Node) :
    (loneTree source root element text).mapNodes change =
      { loneTree source root element text with
        nodes := #[change 0 { toNodeInfo := root, children := [1] },
          change 1 { toNodeInfo := element, parent := some 0, children := [2] },
          change 2 { toNodeInfo := text, parent := some 1 }] } := by
  simp [Tree.mapNodes, loneTree]

theorem toFragment_lone (source : String) (root element text : NodeInfo) :
    (loneTree source root element text).toFragment = .node root [.node element [.node text []]] :=
  rfl

/-! ### Display and sensitivity -/

/-- The display of an element without a namespace. -/
def loneDisplay (element : Element) : Format.Sensitivity → Markup.Display
  | .css => (defaultDisplay? element.name).getD .inline
  | .strict => .inline
  | .ignore => .block

/-- A root, an element with its own end tag and a text. -/
structure IsLone (root element text : NodeInfo) (named : Element) (value : String) : Prop where
  rootKind : root.kind = .root
  elementKind : element.kind = .element named
  textKind : text.kind = .text value
  plain : named.ns = none

theorem resolveDisplays_lone (sensitivity : Format.Sensitivity) (lone : IsLone root element text named value) :
    (loneTree source root element text).resolveDisplays sensitivity =
      loneTree source { root with display := plainDisplay sensitivity }
        { element with display := loneDisplay named sensitivity }
        { text with display := plainDisplay sensitivity } := by
  obtain ⟨rootKind, elementKind, textKind, plain⟩ := lone
  have first : (loneTree source root element text).displayOf 0 sensitivity = plainDisplay sensitivity := by
    unfold Tree.displayOf
    rw [show (loneTree source root element text).kind 0 = root.kind from rfl, rootKind]
    cases sensitivity <;> rfl
  have second : (loneTree source root element text).displayOf 1 sensitivity = loneDisplay named sensitivity := by
    unfold Tree.displayOf
    rw [show (loneTree source root element text).kind 1 = element.kind from rfl, elementKind,
      show (loneTree source root element text).prev? 1 = none from rfl]
    have noDrawing : ((NodeKind.element named).element?.bind (·.ns)) = none := plain
    dsimp only [Option.bind_none]
    rw [noDrawing]
    cases sensitivity with
    | css => simp [Tree.styledDisplay, plain, loneDisplay]
    | strict => simp [loneDisplay]
    | ignore => simp [loneDisplay]
  have third : (loneTree source root element text).displayOf 2 sensitivity = plainDisplay sensitivity := by
    unfold Tree.displayOf
    rw [show (loneTree source root element text).kind 2 = text.kind from rfl, textKind]
    cases sensitivity <;> rfl
  unfold Tree.resolveDisplays
  rw [mapNodes_lone, first, second, third]
  rfl

theorem markSelfClosing_lone (lone : IsLone root element text named value)
    (opens : Tree.isSelfClosing element = false) :
    (loneTree source root element text).markSelfClosing =
      loneTree source { root with flags := { root.flags with selfClosing := false } }
        { element with flags := { element.flags with selfClosing := false } }
        { text with flags := { text.flags with selfClosing := true } } := by
  have first : Tree.isSelfClosing root = false := by
    unfold Tree.isSelfClosing
    rw [lone.rootKind]
    rfl
  have third : Tree.isSelfClosing text = true := by
    unfold Tree.isSelfClosing
    rw [lone.textKind]
    rfl
  unfold Tree.markSelfClosing
  rw [mapNodes_lone]
  dsimp only
  rw [first, opens, third]
  rfl

/-- The node without anything that shows. -/
def NodeInfo.calm (info : NodeInfo) : NodeInfo :=
  { info with
    flags := { info.flags with leadingSensitive := false, trailingSensitive := false, danglingSensitive := false } }

theorem markSensitivity_lone (lone : IsLone root element text named value)
    (edges : isScriptLike (.element named) = true ∨ isEdgeSensitive element.display = false)
    (notPre : isPreLike (.element named) = false) :
    (loneTree source root element text).markSensitivity =
      loneTree source (NodeInfo.calm root) (NodeInfo.calm element) (NodeInfo.calm text) := by
  have still : (loneTree source root element text).isSensitiveTowards 1 none = false := by
    have kind : (loneTree source root element text).kind 1 = .element named := lone.elementKind
    have above : (loneTree source root element text).kind 0 = .root := lone.rootKind
    have parent : (loneTree source root element text).parent? 1 = some 0 := rfl
    have noPre : isPreLike .root = false := by decide
    unfold Tree.isSensitiveTowards Tree.isFrontMatter Tree.isRoot
    simp [kind, above, parent, noPre]
  have inside : (loneTree source root element text).isSensitiveTowards 2 none = false := by
    have kind : (loneTree source root element text).kind 2 = .text value := lone.textKind
    have above : (loneTree source root element text).kind 1 = .element named := lone.elementKind
    have parent : (loneTree source root element text).parent? 2 = some 1 := rfl
    have shown : ((loneTree source root element text).node 1).display = element.display := rfl
    unfold Tree.isSensitiveTowards Tree.isFrontMatter Tree.isRoot
    rcases edges with scriptLike | hidden
    · simp [kind, above, parent, notPre, scriptLike]
    · simp [kind, above, parent, notPre, shown, hidden]
  have leading (id : Markup.NodeId)
      (insensitive : (loneTree source root element text).isSensitiveTowards id none = false)
      (first : (loneTree source root element text).prev? id = none) :
      (loneTree source root element text).agreesLeading id = false := by
    unfold Tree.agreesLeading Tree.isLeadingSensitive
    rw [first, insensitive]
    rfl
  have trailing (id : Markup.NodeId)
      (insensitive : (loneTree source root element text).isSensitiveTowards id none = false)
      (last : (loneTree source root element text).next? id = none) :
      (loneTree source root element text).agreesTrailing id = false := by
    unfold Tree.agreesTrailing Tree.isTrailingSensitive
    rw [last, insensitive]
    rfl
  have leaf : text.kind.canHaveChildren = false := by
    rw [lone.textKind]
    rfl
  unfold Tree.markSensitivity
  rw [mapNodes_lone]
  unfold Tree.sensitivityFlags
  rw [leading 1 still rfl, leading 2 inside rfl, trailing 1 still rfl, trailing 2 inside rfl]
  dsimp only
  rw [leaf]
  simp [loneTree, NodeInfo.calm]

/-! ### Passes -/

section

variable {start : Nat} {after : List Char}

/-- An element that holds one text, and white space after it. -/
def loneContent (element text : NodeInfo) (start : Nat) (after : List Char) : List Fragment :=
  .node element [.node text []] :: spaceNodes start after

theorem mapChildren_lone {change : NodeInfo → List Fragment → List Fragment} (blank : after.all isMarkupSpace = true)
    (empty : ∀ info, change info [] = []) (inside : change element [.node text []] = [.node text []])
    (outside : change root (loneContent element text start after) = loneContent element text start after) :
    (Fragment.node root (loneContent element text start after)).mapChildren change =
      .node root (loneContent element text start after) := by
  have leaves : ∀ node ∈ spaceNodes start after, IsPlainNode node := isPlainNode_spaceNodes blank
  have flat := @bottomUpAll_flat change _ (fun node member => (leaves node member).1) fun node _ => empty node.info
  unfold Fragment.mapChildren loneContent
  simp only [Fragment.bottomUp, Fragment.bottomUpAll, empty, inside, flat]
  exact congrArg (Fragment.node root) outside

theorem dropFirstLineFeeds_lone (lone : IsLone root element text named value) (blank : after.all isMarkupSpace = true)
    (keeps : named.tag.ignoresFirstLineFeed = false) :
    dropFirstLineFeeds (.node root (loneContent element text start after)) =
      .node root (loneContent element text start after) := by
  refine mapChildren_lone blank (fun info => by split <;> rfl) ?_ ?_
  · rw [lone.elementKind]
    simp [ignoresFirstLineFeed, keeps]
  · rw [lone.rootKind]
    rfl

theorem foldConditions_lone (lone : IsLone root element text named value) (blank : after.all isMarkupSpace = true) :
    foldConditions (.node root (loneContent element text start after)) =
      .node root (loneContent element text start after) := by
  refine mapChildren_lone blank (fun _ => rfl) rfl ?_
  have leaves : ∀ node ∈ spaceNodes start after, IsPlainNode node := isPlainNode_spaceNodes blank
  have later := joinConditions_plain leaves
  unfold loneContent
  generalize spaceNodes start after = spaces at later
  cases spaces with
  | nil => rfl
  | cons node rest =>
    have apart : withCondition? (.node element [.node text []]) node = none := by
      unfold withCondition?
      rw [show Fragment.kind (.node element [.node text []]) = .element named from lone.elementKind]
    rw [joinConditions, apart, later]

theorem mergeCdata_lone (lone : IsLone root element text named value) (blank : after.all isMarkupSpace = true) :
    mergeCdata (.node root (loneContent element text start after)) =
      .node root (loneContent element text start after) := by
  have noCdata : isCdata (.node text []) = false ∧ isCdata (.node element [.node text []]) = false := by
    unfold isCdata
    rw [show Fragment.kind (.node text []) = _ from lone.textKind,
      show Fragment.kind (.node element [.node text []]) = _ from lone.elementKind]
    exact ⟨rfl, rfl⟩
  refine mapChildren_lone blank (fun _ => rfl) ?_ ?_
  · rw [List.any_cons, noCdata.1]
    rfl
  · have none : (loneContent element text start after).any isCdata = false := by
      unfold loneContent spaceNodes
      rw [List.any_cons, noCdata.2]
      split <;> rfl
    rw [none]
    rfl

/-- There are no expressions in the text of a script, nor in a text that is inert. -/
theorem splitInterpolations_lone (lone : IsLone root element text named value) (blank : after.all isMarkupSpace = true)
    (inert : isScriptLike (.element named) = true ∨ Inert value.toList) :
    splitInterpolations (.node root (loneContent element text start after)) =
      .node root (loneContent element text start after) := by
  refine mapChildren_lone blank (fun _ => by simp [splits]) ?_ ?_
  · have stays : splits element [.node text []] = false := by
      unfold splits
      rw [lone.elementKind]
      rcases inert with scriptLike | inert
      · rw [scriptLike]
        rfl
      · have none : hasExpression (.node text []) = false := by
          unfold hasExpression
          rw [show Fragment.kind (.node text []) = _ from lone.textKind]
          exact hasExpression_textPieces inert
        rw [List.any_cons, none, List.any_nil, Bool.or_false, Bool.and_false]
    rw [stays]
    rfl
  · have none : (loneContent element text start after).any hasExpression = false := by
      have noText : hasExpression (.node element [.node text []]) = false := by
        unfold hasExpression
        rw [show Fragment.kind (.node element [.node text []]) = _ from lone.elementKind]
      unfold loneContent
      rw [List.any_cons, noText, Bool.false_or, List.any_eq_false]
      intro node member
      unfold spaceNodes at member
      split at member
      · cases member
      · rw [List.mem_singleton.mp member]
        unfold hasExpression
        show ¬(textPieces (String.ofList after).toList).any TextPiece.isExpression = true
        rw [String.toList_ofList, hasExpression_textPieces (Markup.inert_of_isMarkupSpace blank)]
        exact Bool.false_ne_true
    unfold splits
    rw [none, Bool.and_false]
    rfl

/-! ### Trimming -/

/-- What trimming makes of the text of an element. -/
def loneText (named : Element) (text : NodeInfo) (value : String) : NodeInfo :=
  if isScriptLike (.element named) then text
  else (trimmedText text value.toList []).info

/-- What trimming makes of the element. -/
def loneElement (named : Element) (element : NodeInfo) (after : List Char) : NodeInfo :=
  { element with
    flags :=
      { element.flags with
        trailingSpaces := element.flags.trailingSpaces || after ≠ []
        whitespaceSensitive := isScriptLike (.element named)
        indentationSensitive := false } }

theorem trimNode_text (lone : IsLone root element text named value) : trimNode text [] = .node text [] := by
  unfold trimNode
  rw [lone.textKind]
  rfl

theorem trimNode_element (lone : IsLone root element text named value)
    (said : value.toList.all isMarkupSpace = false) (noPre : isPreLike (.element named) = false) :
    trimNode element [.node text []] = .node (loneElement named element []) [.node (loneText named text value) []] := by
  have solid : isBlankContent [.node text []] = false := by
    unfold isBlankContent
    dsimp only
    rw [show Fragment.kind (.node text []) = _ from lone.textKind]
    exact said
  have sensitive : isWhitespaceSensitive element.kind = isScriptLike (.element named) := by
    unfold isWhitespaceSensitive
    rw [lone.elementKind, noPre, Bool.or_false]
    exact Bool.or_false _
  have indented : isIndentationSensitive element.kind = false := by
    unfold isIndentationSensitive
    rw [lone.elementKind, noPre]
  have hasChildren : element.kind.canHaveChildren = true := by
    rw [lone.elementKind]
    rfl
  have trimmed : trimTexts [] [.node text []] = [trimmedText text value.toList []] := by
    rw [trimTexts, lone.textKind]
    dsimp only
    rw [said, if_neg Bool.false_ne_true]
    simp [flagFirst, trimTexts]
  unfold trimNode
  rw [hasChildren, solid, sensitive, indented, trimmed]
  unfold loneText loneElement
  cases isScriptLike (.element named) with
  | true => simp
  | false => simp [trimmedText, Fragment.info]

theorem trimText_lone (lone : IsLone root element text named value) (blank : after.all isMarkupSpace = true)
    (said : value.toList.all isMarkupSpace = false) (noPre : isPreLike (.element named) = false) :
    ∃ info : NodeInfo, info.kind = .root ∧ trimText (.node root (loneContent element text start after)) =
      .node info [.node (loneElement named element after) [.node (loneText named text value) []]] := by
  have plain : ∀ node ∈ spaceNodes start after, IsPlainNode node := isPlainNode_spaceNodes blank
  have leaves := bottomUpAll_trimNode_plain plain
  have kind : (loneElement named element []).kind = .element named := lone.elementKind
  have solid : isBlankContent (.node (loneElement named element []) [.node (loneText named text value) []] ::
      spaceNodes start after) = false := by
    unfold spaceNodes
    split
    · unfold isBlankContent
      dsimp only
      rw [show Fragment.kind (.node (loneElement named element []) _) = _ from kind]
    · rfl
  have trimmed : trimTexts [] (.node (loneElement named element []) [.node (loneText named text value) []] ::
      spaceNodes start after) = [.node (loneElement named element after) [.node (loneText named text value) []]] := by
    rw [trimTexts, kind]
    dsimp only
    unfold spaceNodes
    by_cases none : after = []
    · simp [none, trimTexts]
    · simp [none, trimTexts, Fragment.leaf, blank, flagFirst, withFlag, Markup.Flags.add, loneElement]
  refine ⟨{ root with flags := { root.flags with whitespaceSensitive := false, indentationSensitive := false } },
    lone.rootKind, ?_⟩
  unfold trimText loneContent
  rw [Fragment.bottomUp, Fragment.bottomUpAll, leaves]
  simp only [Fragment.bottomUp, Fragment.bottomUpAll, trimNode_text lone, trimNode_element lone said noPre]
  have calm : isWhitespaceSensitive NodeKind.root = false := by decide
  have steady : isIndentationSensitive NodeKind.root = false := by decide
  have hasChildren : NodeKind.canHaveChildren .root = true := rfl
  unfold trimNode
  rw [lone.rootKind, calm, steady, hasChildren, solid, trimmed]
  simp

/-! ### The annotated tree -/

/-- The text of an element without the white space around it, unless the lines of the element are kept. -/
def loneValue (named : Element) (value : String) : String :=
  if isScriptLike (.element named) then value else String.ofList (Text.dropEnds isMarkupSpace value.toList)

/-- The nodes of an annotated tree, in which no white space shows. -/
structure IsSettled (root element text : NodeInfo) (named : Element) (value : String) : Prop extends
    IsLone root element text named value where
  opens : element.flags.selfClosing = false
  calmElement : element.flags.leadingSensitive = false ∧ element.flags.trailingSensitive = false
  calmText : text.flags.leadingSensitive = false ∧ text.flags.trailingSensitive = false
  noTable : element.display.isTable = false
  kept : element.flags.whitespaceSensitive = isScriptLike (.element named)
  reindented : element.flags.indentationSensitive = false

theorem mergeSimpleElements_lone (source : List Char) (root element text : NodeInfo) :
    mergeSimpleElements source (.node root [.node element [.node text []]]) =
      .node root [.node element [.node text []]] := by
  simp [mergeSimpleElements, Fragment.mapChildren, Fragment.bottomUp, Fragment.bottomUpAll, mergeSimple]

/-- The node with its display and its flags, where no white space shows. -/
def settledInfo (info : NodeInfo) (display : Markup.Display) (selfClosing : Bool) : NodeInfo :=
  NodeInfo.calm { info with display := display, flags := { info.flags with selfClosing := selfClosing } }

theorem classify_lone (options : Format.Options) (lone : IsLone root element text named value)
    (opens : Tree.isSelfClosing element = false)
    (edges : isScriptLike (.element named) = true ∨ isEdgeSensitive (loneDisplay named options.sensitivity) = false)
    (noPre : isPreLike (.element named) = false) :
    classify source options (.node root [.node element [.node text []]]) =
      loneTree source (settledInfo root (plainDisplay options.sensitivity) false)
        (settledInfo element (loneDisplay named options.sensitivity) false)
        (settledInfo text (plainDisplay options.sensitivity) true) := by
  have displayed : IsLone { root with display := plainDisplay options.sensitivity }
      { element with display := loneDisplay named options.sensitivity }
      { text with display := plainDisplay options.sensitivity } named value :=
    ⟨lone.rootKind, lone.elementKind, lone.textKind, lone.plain⟩
  unfold classify
  rw [ofRoot_lone, resolveDisplays_lone options.sensitivity lone, markSelfClosing_lone displayed opens]
  exact markSensitivity_lone ⟨lone.rootKind, lone.elementKind, lone.textKind, lone.plain⟩ edges noPre

/-- An element that holds one text, with white space after it, is annotated as the element with its text alone. -/
theorem exists_ofContent_lone (source : String) (options : Format.Options) (lone : IsLone root element text named value)
    (blank : after.all isMarkupSpace = true) (said : value.toList.all isMarkupSpace = false)
    (keeps : named.tag.ignoresFirstLineFeed = false) (noPre : isPreLike (.element named) = false)
    (inert : isScriptLike (.element named) = true ∨ Inert value.toList) (opens : Tree.isSelfClosing element = false)
    (edges : isScriptLike (.element named) = true ∨ isEdgeSensitive (loneDisplay named options.sensitivity) = false)
    (noTable : (loneDisplay named options.sensitivity).isTable = false) :
    ∃ root' element' text', (ofContent source options (loneContent element text start after)).tree =
        loneTree source root' element' text' ∧
      IsSettled root' element' text' named (loneValue named value) ∧ element'.endSpan = element.endSpan := by
  have isRoot : IsLone (rootInfo source) element text named value := ⟨rfl, lone.elementKind, lone.textKind, lone.plain⟩
  obtain ⟨info, rootKind, trimmed⟩ := @trimText_lone _ _ _ _ _ start _ isRoot blank said noPre
  have normal : normalize (.node (rootInfo source) (loneContent element text start after)) =
      .node info [.node (loneElement named element after) [.node (loneText named text value) []]] := by
    unfold normalize
    rw [dropFirstLineFeeds_lone isRoot blank keeps, foldConditions_lone isRoot blank, mergeCdata_lone isRoot blank,
      splitInterpolations_lone isRoot blank inert, trimmed]
  have textKind : (loneText named text value).kind = .text (loneValue named value) := by
    unfold loneText loneValue
    split
    · exact lone.textKind
    · rfl
  have shown : IsLone info (loneElement named element after) (loneText named text value) named
      (loneValue named value) :=
    ⟨rootKind, lone.elementKind, textKind, lone.plain⟩
  have classified := @classify_lone source _ _ _ _ _ options shown opens edges noPre
  refine ⟨settledInfo info (plainDisplay options.sensitivity) false,
    settledInfo (loneElement named element after) (loneDisplay named options.sensitivity) false,
    settledInfo (loneText named text value) (plainDisplay options.sensitivity) true, ?_, ?_, rfl⟩
  · unfold ofContent
    dsimp only
    have whole : ({ kind := .root, span := ⟨0, byteLength source.toList⟩ } : NodeInfo) = rootInfo source := rfl
    rw [whole, normal, classified, toFragment_lone,
      mergeSimpleElements_lone, ofRoot_lone]
  · exact ⟨⟨rootKind, lone.elementKind, textKind, lone.plain⟩, rfl, ⟨rfl, rfl⟩, ⟨rfl, rfl⟩, noTable, rfl, rfl⟩

end

end MarkupFormat.Annotate
