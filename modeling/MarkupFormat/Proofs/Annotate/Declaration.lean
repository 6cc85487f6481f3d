import MarkupFormat.Annotate.Annotated
import MarkupFormat.Proofs.Markup.Declaration

/-!
# Annotating a declaration

The passes over a tree leave a declaration alone and drop the white space around it, which its flags
remember. `ofContent_declaration` gives the tree that is printed.
-/

namespace MarkupFormat.Annotate

open Markup (Fragment Inert NodeInfo NodeKind Tree declarationNodes declarationText doctypeValue spaceNodes)
open Text (byteLength isMarkupSpace)

/-! ### Flat trees -/

theorem bottomUpAll_flat {change : NodeInfo → List Fragment → List Fragment} {children : List Fragment}
    (leaves : ∀ child ∈ children, child.children = []) (fixes : ∀ child ∈ children, change child.info [] = []) :
    Fragment.bottomUpAll (fun info children => .node info (change info children)) children = children := by
  induction children with
  | nil => rfl
  | cons child rest ih =>
    obtain ⟨info, inner⟩ := child
    have empty : inner = [] := leaves _ List.mem_cons_self
    have fixed : change info [] = [] := fixes _ List.mem_cons_self
    subst empty
    rw [Fragment.bottomUpAll, Fragment.bottomUp, Fragment.bottomUpAll, fixed,
      ih (fun other member => leaves other (List.mem_cons_of_mem _ member))
        fun other member => fixes other (List.mem_cons_of_mem _ member)]

theorem mapChildren_flat {change : NodeInfo → List Fragment → List Fragment} {info : NodeInfo}
    {children : List Fragment} (leaves : ∀ child ∈ children, child.children = [])
    (fixes : ∀ child ∈ children, change child.info [] = []) :
    (Fragment.node info children).mapChildren change = .node info (change info children) := by
  unfold Fragment.mapChildren
  rw [Fragment.bottomUp, bottomUpAll_flat leaves fixes]

/-- The root of a source. -/
def rootInfo (source : String) : NodeInfo :=
  { kind := .root, span := ⟨0, byteLength source.toList⟩ }

/-- The kinds of the nodes of a declaration between white space. -/
def IsPlainNode (node : Fragment) : Prop :=
  node.children = [] ∧
    ((∃ value, node.kind = .doctype value) ∨ ∃ cs, node.kind = .text (String.ofList cs) ∧ Inert cs)

theorem isPlainNode_spaceNodes {start : Nat} {cs : List Char} (blank : cs.all isMarkupSpace = true) :
    ∀ node ∈ spaceNodes start cs, IsPlainNode node := by
  intro node member
  unfold spaceNodes at member
  split at member
  · cases member
  · rw [List.mem_singleton.mp member]
    exact ⟨rfl, Or.inr ⟨cs, rfl, Markup.inert_of_isMarkupSpace blank⟩⟩

/-! ### Passes -/

variable {info : NodeInfo} {children : List Fragment}

theorem ignoresFirstLineFeed_plain {node : Fragment} (plain : IsPlainNode node) :
    ignoresFirstLineFeed node.info.kind = false := by
  obtain ⟨_, ⟨value, kind⟩ | ⟨cs, kind, _⟩⟩ := plain
  · show ignoresFirstLineFeed node.kind = false
    rw [kind]
    rfl
  · show ignoresFirstLineFeed node.kind = false
    rw [kind]
    rfl

theorem dropFirstLineFeeds_plain (root : info.kind = .root) (plain : ∀ node ∈ children, IsPlainNode node) :
    dropFirstLineFeeds (.node info children) = .node info children := by
  unfold dropFirstLineFeeds
  rw [mapChildren_flat (fun node member => (plain node member).1)]
  · rw [root]
    rfl
  · intro node member
    rw [ignoresFirstLineFeed_plain (plain node member)]
    rfl

theorem joinConditions_plain (plain : ∀ node ∈ children, IsPlainNode node) :
    joinConditions children = children := by
  induction children with
  | nil => rfl
  | cons node rest ih =>
    have later := ih fun other member => plain other (List.mem_cons_of_mem _ member)
    cases rest with
    | nil => rfl
    | cons next rest =>
      have apart : withCondition? node next = none := by
        obtain ⟨_, ⟨value, kind⟩ | ⟨cs, kind, _⟩⟩ := plain node List.mem_cons_self
        · unfold withCondition?
          rw [kind]
        · unfold withCondition?
          rw [kind]
      rw [joinConditions, apart, later]

theorem foldConditions_plain (plain : ∀ node ∈ children, IsPlainNode node) :
    foldConditions (.node info children) = .node info children := by
  unfold foldConditions
  rw [mapChildren_flat (fun node member => (plain node member).1), joinConditions_plain plain]
  intro _ _
  rfl

theorem mergeCdata_plain (plain : ∀ node ∈ children, IsPlainNode node) :
    mergeCdata (.node info children) = .node info children := by
  have none : children.any isCdata = false := by
    rw [List.any_eq_false]
    intro node member
    obtain ⟨_, ⟨value, kind⟩ | ⟨cs, kind, _⟩⟩ := plain node member
    · unfold isCdata
      rw [kind]
      nofun
    · unfold isCdata
      rw [kind]
      nofun
  unfold mergeCdata
  rw [mapChildren_flat (fun node member => (plain node member).1), none]
  · rfl
  · intro _ _
    rfl

/-- Text without brackets and braces is one piece, unless there is none. -/
theorem textPieces_of_inert {cs : List Char} (inert : Inert cs) :
    textPieces cs = if cs = [] then [] else [.text cs] := by
  induction cs with
  | nil => rw [textPieces, if_pos rfl]
  | cons c cs ih =>
    rw [textPieces, if_neg (List.cons_ne_nil c cs)]
    split
    · next found =>
      unfold expression? at found
      split at found
      · next same => exact absurd (List.cons.inj same).1 (inert c List.mem_cons_self).2
      · cases found
    · rw [ih fun d member => inert d (List.mem_cons_of_mem c member)]
      split
      · next empty =>
        rw [empty]
        rfl
      · rfl

theorem hasExpression_textPieces {cs : List Char} (inert : Inert cs) :
    (textPieces cs).any TextPiece.isExpression = false := by
  rw [textPieces_of_inert inert]
  split <;> rfl

theorem splitInterpolations_plain (plain : ∀ node ∈ children, IsPlainNode node) :
    splitInterpolations (.node info children) = .node info children := by
  have none : children.any hasExpression = false := by
    rw [List.any_eq_false]
    intro node member
    obtain ⟨_, ⟨value, kind⟩ | ⟨cs, kind, inert⟩⟩ := plain node member
    · unfold hasExpression
      rw [kind]
      exact Bool.false_ne_true
    · unfold hasExpression
      rw [kind]
      dsimp only
      rw [String.toList_ofList, hasExpression_textPieces inert]
      exact Bool.false_ne_true
  unfold splitInterpolations
  rw [mapChildren_flat (fun node member => (plain node member).1)]
  · unfold splits
    rw [none, Bool.and_false]
    rfl
  · intro _ _
    unfold splits
    simp

/-! ### Trimming -/

/-- The declaration of a source with white space around it, which only its flags tell of. -/
def declarationInfo (before content after : List Char) : NodeInfo :=
  let start := byteLength before
  { kind := .doctype (String.ofList (doctypeValue content))
    span := ⟨start, start + byteLength (declarationText content)⟩
    flags := { leadingSpaces := before ≠ [], trailingSpaces := after ≠ [] } }

theorem isPlainNode_declarationNodes {before content after : List Char}
    (blankBefore : before.all isMarkupSpace = true) (blankAfter : after.all isMarkupSpace = true) :
    ∀ node ∈ declarationNodes before content after, IsPlainNode node := by
  intro node member
  unfold declarationNodes at member
  rcases List.mem_append.mp member with member | member
  · rcases List.mem_append.mp member with member | member
    · exact isPlainNode_spaceNodes blankBefore node member
    · rw [List.mem_singleton.mp member]
      exact ⟨rfl, Or.inl ⟨_, rfl⟩⟩
  · exact isPlainNode_spaceNodes blankAfter node member

theorem trimTexts_declarationNodes {before content after : List Char}
    (blankBefore : before.all isMarkupSpace = true) (blankAfter : after.all isMarkupSpace = true) :
    trimTexts [] (declarationNodes before content after) =
      [.node (declarationInfo before content after) []] := by
  unfold declarationNodes spaceNodes declarationInfo
  by_cases noneBefore : before = []
  · by_cases noneAfter : after = []
    · simp [noneBefore, noneAfter, trimTexts, Fragment.leaf]
    · simp [noneBefore, noneAfter, blankAfter, trimTexts, Fragment.leaf, flagFirst, withFlag,
        Markup.Flags.add]
  · by_cases noneAfter : after = []
    · simp [noneBefore, noneAfter, blankBefore, trimTexts, Fragment.leaf, flagFirst, withFlag,
        Markup.Flags.add]
    · simp [noneBefore, noneAfter, blankBefore, blankAfter, trimTexts, Fragment.leaf, flagFirst, withFlag,
        Markup.Flags.add]

theorem isBlankContent_declarationNodes (before content after : List Char) :
    isBlankContent (declarationNodes before content after) = false := by
  unfold declarationNodes spaceNodes
  by_cases noneBefore : before = []
  · by_cases noneAfter : after = []
    · simp [noneBefore, noneAfter, isBlankContent, Fragment.leaf, Fragment.kind, Fragment.info]
    · simp [noneBefore, noneAfter, isBlankContent]
  · simp [noneBefore, isBlankContent]

theorem bottomUpAll_trimNode_plain (plain : ∀ node ∈ children, IsPlainNode node) :
    Fragment.bottomUpAll trimNode children = children := by
  induction children with
  | nil => rfl
  | cons node rest ih =>
    obtain ⟨info, inner⟩ := node
    obtain ⟨empty, kind⟩ := plain _ List.mem_cons_self
    have fixed : trimNode info [] = .node info [] := by
      have childless : info.kind.canHaveChildren = false := by
        rcases kind with ⟨value, kind⟩ | ⟨cs, kind, _⟩
        · exact congrArg NodeKind.canHaveChildren kind
        · exact congrArg NodeKind.canHaveChildren kind
      unfold trimNode
      rw [childless]
      rfl
    have none : inner = [] := empty
    subst none
    rw [Fragment.bottomUpAll, Fragment.bottomUp, Fragment.bottomUpAll, fixed,
      ih fun other member => plain other (List.mem_cons_of_mem _ member)]

theorem trimText_declaration {source : String} {before content after : List Char}
    (blankBefore : before.all isMarkupSpace = true) (blankAfter : after.all isMarkupSpace = true) :
    trimText (.node (rootInfo source) (declarationNodes before content after)) =
      .node (rootInfo source) [.node (declarationInfo before content after) []] := by
  have leaves := bottomUpAll_trimNode_plain (@isPlainNode_declarationNodes before content after blankBefore blankAfter)
  unfold trimText
  rw [Fragment.bottomUp, leaves]
  unfold trimNode
  have calm : isWhitespaceSensitive NodeKind.root = false := by decide
  have steady : isIndentationSensitive NodeKind.root = false := by decide
  rw [isBlankContent_declarationNodes, show (rootInfo source).kind = .root from rfl, calm, steady,
    if_neg (by decide), if_neg (by decide)]
  exact congrArg (Fragment.node (rootInfo source)) (trimTexts_declarationNodes blankBefore blankAfter)

theorem normalize_declaration {source : String} {before content after : List Char}
    (blankBefore : before.all isMarkupSpace = true) (blankAfter : after.all isMarkupSpace = true) :
    normalize (.node (rootInfo source) (declarationNodes before content after)) =
      .node (rootInfo source) [.node (declarationInfo before content after) []] := by
  have plain : ∀ node ∈ declarationNodes before content after, IsPlainNode node :=
    isPlainNode_declarationNodes blankBefore blankAfter
  unfold normalize
  rw [dropFirstLineFeeds_plain rfl plain, foldConditions_plain plain, mergeCdata_plain plain,
    splitInterpolations_plain plain, trimText_declaration blankBefore blankAfter]

/-! ### Trees of one node -/

/-- The tree of a root with one node below it. -/
def singleTree (source : String) (root only : NodeInfo) : Tree :=
  { nodes := #[{ toNodeInfo := root, children := [1] }, { toNodeInfo := only, parent := some 0 }]
    source := source
    lines := .build source.toList }

theorem ofRoot_single (source : String) (root only : NodeInfo) :
    Tree.ofRoot source (.node root [.node only []]) = singleTree source root only := by
  simp [Tree.ofRoot, Tree.relink, Tree.nodesOf, Tree.nodesOfAll, Tree.numbers, Tree.unlinked, Tree.ids,
    Tree.size, Tree.children, Markup.Tree.node, Tree.linkChildren, List.range, List.range.loop, Tree.rootId,
    Array.modify, Array.modifyM, singleTree]

theorem mapNodes_single (source : String) (root only : NodeInfo)
    (change : Markup.NodeId → Markup.Node → Markup.Node) :
    (singleTree source root only).mapNodes change =
      { singleTree source root only with
        nodes := #[change 0 { toNodeInfo := root, children := [1] },
          change 1 { toNodeInfo := only, parent := some 0 }] } := by
  simp [Tree.mapNodes, singleTree]

theorem toFragment_single (source : String) (root only : NodeInfo) :
    (singleTree source root only).toFragment = .node root [.node only []] :=
  rfl

/-- The display of a node that has no style of its own. -/
def plainDisplay : Format.Sensitivity → Markup.Display
  | .css | .strict => .inline
  | .ignore => .block

/-- A root and a declaration as they are printed. -/
def annotatedRoot (source : String) (sensitivity : Format.Sensitivity) : NodeInfo :=
  { rootInfo source with display := plainDisplay sensitivity }

/-- The declaration as it is printed: without an end tag, and with white space that does not show. -/
def annotatedDeclaration (before content after : List Char) (sensitivity : Format.Sensitivity) : NodeInfo :=
  let info := declarationInfo before content after
  { info with display := plainDisplay sensitivity, flags := { info.flags with selfClosing := true } }

variable {source : String} {root only : NodeInfo} {value : String}

theorem resolveDisplays_single (sensitivity : Format.Sensitivity) (rootKind : root.kind = .root)
    (onlyKind : only.kind = .doctype value) :
    (singleTree source root only).resolveDisplays sensitivity =
      singleTree source { root with display := plainDisplay sensitivity }
        { only with display := plainDisplay sensitivity } := by
  obtain ⟨kind, span⟩ := root
  obtain ⟨kind', span'⟩ := only
  cases rootKind
  cases onlyKind
  unfold Tree.resolveDisplays
  rw [mapNodes_single]
  cases sensitivity with
  | css => rfl
  | strict => rfl
  | ignore => rfl

theorem markSelfClosing_single (rootKind : root.kind = .root) (onlyKind : only.kind = .doctype value) :
    (singleTree source root only).markSelfClosing =
      singleTree source { root with flags := { root.flags with selfClosing := false } }
        { only with flags := { only.flags with selfClosing := true } } := by
  obtain ⟨kind, span⟩ := root
  obtain ⟨kind', span'⟩ := only
  cases rootKind
  cases onlyKind
  unfold Tree.markSelfClosing
  rw [mapNodes_single]
  rfl

theorem isSensitiveTowards_single (rootKind : root.kind = .root) (onlyKind : only.kind = .doctype value) :
    (singleTree source root only).isSensitiveTowards 1 none = false := by
  have parentRoot : (singleTree source root only).isRoot 0 = true := by
    unfold Tree.isRoot
    rw [show (singleTree source root only).kind 0 = root.kind from rfl, rootKind]
  have preLike : isPreLike ((singleTree source root only).kind 0) = false := by
    show isPreLike root.kind = false
    rw [rootKind]
    decide
  have noFrontMatter : (singleTree source root only).isFrontMatter 1 = false := by
    unfold Tree.isFrontMatter
    rw [show (singleTree source root only).kind 1 = only.kind from rfl, onlyKind]
  have parent : (singleTree source root only).parent? 1 = some 0 := rfl
  unfold Tree.isSensitiveTowards
  dsimp only
  rw [noFrontMatter, parent]
  simp [parentRoot, preLike]

theorem markSensitivity_single (rootKind : root.kind = .root) (onlyKind : only.kind = .doctype value) :
    (singleTree source root only).markSensitivity =
      singleTree source
        { root with
          flags := { root.flags with
            leadingSensitive := false, trailingSensitive := false, danglingSensitive := false } }
        { only with
          flags := { only.flags with
            leadingSensitive := false, trailingSensitive := false, danglingSensitive := false } } := by
  have still : (singleTree source root only).isSensitiveTowards 1 none = false :=
    isSensitiveTowards_single rootKind onlyKind
  have leading : (singleTree source root only).isLeadingSensitive 1 = false := by
    unfold Tree.isLeadingSensitive
    rw [show (singleTree source root only).prev? 1 = none from rfl, still]
    rfl
  have trailing : (singleTree source root only).isTrailingSensitive 1 = false := still
  have agreesLeading : (singleTree source root only).agreesLeading 1 = false := by
    unfold Tree.agreesLeading
    rw [leading, Bool.false_and]
  have agreesTrailing : (singleTree source root only).agreesTrailing 1 = false := by
    unfold Tree.agreesTrailing
    rw [trailing, Bool.false_and]
  have childless : only.kind.canHaveChildren = false := by rw [onlyKind]; rfl
  unfold Tree.markSensitivity
  rw [mapNodes_single]
  unfold Tree.sensitivityFlags
  rw [agreesLeading, agreesTrailing, childless]
  simp
  rfl

theorem classify_declaration (source : String) (options : Format.Options) (before content after : List Char) :
    classify source options (.node (rootInfo source) [.node (declarationInfo before content after) []]) =
      singleTree source (annotatedRoot source options.sensitivity)
        (annotatedDeclaration before content after options.sensitivity) := by
  unfold classify
  rw [ofRoot_single, resolveDisplays_single options.sensitivity rfl rfl, markSelfClosing_single rfl rfl,
    markSensitivity_single rfl rfl]
  rfl

/-- The tree that is printed for a declaration between white space. -/
def declarationTree (source : String) (sensitivity : Format.Sensitivity) (before content after : List Char) :
    Tree :=
  singleTree source (annotatedRoot source sensitivity)
    (annotatedDeclaration before content after sensitivity)

theorem ofContent_declaration {source : String} (options : Format.Options) {before content after : List Char}
    (blankBefore : before.all isMarkupSpace = true) (blankAfter : after.all isMarkupSpace = true) :
    (ofContent source options (declarationNodes before content after)).tree =
      declarationTree source options.sensitivity before content after := by
  show Tree.ofRoot source (mergeSimpleElements source.toList (classify source options
    (normalize (.node (rootInfo source) (declarationNodes before content after)))).toFragment) = _
  rw [normalize_declaration blankBefore blankAfter, classify_declaration, toFragment_single]
  exact ofRoot_single ..

end MarkupFormat.Annotate
