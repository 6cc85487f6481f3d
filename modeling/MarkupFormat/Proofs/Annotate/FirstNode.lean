import MarkupFormat.Proofs.Annotate.Declaration
import MarkupFormat.Proofs.Annotate.Spaces
import MarkupFormat.Proofs.Markup.Surroundings

/-!
# The first node of annotated trees

White space at the front of a source is dropped. No pass joins, splits or trims a node behind it that is no text, does
not stand for one and starts no condition, so the annotated tree begins with that node (`exists_first_of_annotate`).
-/

namespace MarkupFormat.Markup.Tree

open Fragment (looks)

variable {α : Type}

theorem looks_toFragment {tree : Tree} (nonempty : 0 < tree.size) (look : NodeInfo → α) :
    looks look tree.toFragment.children = (tree.children rootId).map fun id => look (tree.node id).toNodeInfo := by
  unfold toFragment outline
  cases size : tree.size with
  | zero => omega
  | succ depth =>
    show looks look (tree.gatherAll ((tree.children rootId).map (tree.outlineTo depth))) = _
    rw [gatherAll_eq_map, looks, List.map_map, List.map_map]
    refine List.map_congr_left fun child _ => ?_
    exact congrArg look (info_gather_outlineTo tree depth child)

end MarkupFormat.Markup.Tree

namespace MarkupFormat.Annotate

open Format (Options)
open Markup (Flag Fragment IsBlankText NodeInfo NodeKind Span Tree)
open Markup.Fragment (bottomUpAll looks)
open Text (isMarkupSpace)

/-- A node that no text takes in, and that takes in none. -/
structure StandsAlone (kind : NodeKind) : Prop where
  noText : textOf? kind = none
  noStart : ∀ condition, kind ≠ .conditionalStart condition

/-- What is kept of a node while only its flags are set. -/
def kindAndSpan (info : NodeInfo) : NodeKind × Span :=
  (info.kind, info.span)

/-- Behind white space, some nodes begin with one of this kind that spans this. -/
inductive BeginsWith (kind : NodeKind) (span : Span) : List Fragment → Prop where
  | here {info : NodeInfo} {inner rest : List Fragment} (same : kindAndSpan info = (kind, span)) :
    BeginsWith kind span (.node info inner :: rest)
  | blank {node : Fragment} {rest : List Fragment} (blank : IsBlankText node) (later : BeginsWith kind span rest) :
    BeginsWith kind span (node :: rest)

/-- Some nodes begin with one of this kind that spans this. -/
def LedBy (kind : NodeKind) (span : Span) (nodes : List Fragment) : Prop :=
  [(kind, span)] <+: looks kindAndSpan nodes

variable {kind : NodeKind} {span : Span} {nodes others rest : List Fragment} {node fragment : Fragment}

theorem StandsAlone.of_kindAndSpan {info : NodeInfo} (alone : StandsAlone kind)
    (same : kindAndSpan info = (kind, span)) : StandsAlone info.kind := by
  obtain ⟨rfl, -⟩ := Prod.mk.inj same
  exact alone

theorem isBlankText_congr (same : node.kind = fragment.kind) (blank : IsBlankText node) : IsBlankText fragment := by
  obtain ⟨cs, isText, space⟩ := blank
  exact ⟨cs, same ▸ isText, space⟩

theorem beginsWith_congr (same : looks kindAndSpan others = looks kindAndSpan nodes)
    (begins : BeginsWith kind span nodes) : BeginsWith kind span others := by
  induction begins generalizing others with
  | here found =>
    obtain ⟨⟨info, inner⟩, rest, rfl, first, -⟩ := List.map_eq_cons_iff.mp same
    exact .here (first.trans found)
  | blank blank _ ih =>
    obtain ⟨other, rest, rfl, first, later⟩ := List.map_eq_cons_iff.mp same
    exact .blank (isBlankText_congr (congrArg Prod.fst first).symm blank) (ih later)

theorem BeginsWith.append (begins : BeginsWith kind span rest) (blank : ∀ node ∈ nodes, IsBlankText node) :
    BeginsWith kind span (nodes ++ rest) := by
  induction nodes with
  | nil => exact begins
  | cons node nodes ih =>
    obtain ⟨first, others⟩ := List.forall_mem_cons.mp blank
    exact .blank first (ih others)

theorem LedBy.exists_cons (led : LedBy kind span nodes) :
    ∃ info inner rest, nodes = .node info inner :: rest ∧ kindAndSpan info = (kind, span) := by
  cases nodes with
  | nil => exact absurd (List.prefix_nil.mp led) (List.cons_ne_nil _ _)
  | cons node rest =>
    obtain ⟨info, inner⟩ := node
    exact ⟨info, inner, rest, rfl, (List.cons_prefix_cons.mp led).1.symm⟩

theorem ledBy_cons {info : NodeInfo} (same : kindAndSpan info = (kind, span)) (inner rest : List Fragment) :
    LedBy kind span (.node info inner :: rest) :=
  List.cons_prefix_cons.mpr ⟨same.symm, List.nil_prefix⟩

/-! ### Lists of children -/

theorem withCondition?_of_isBlankText (blank : IsBlankText node) (next : Fragment) :
    withCondition? node next = none := by
  obtain ⟨cs, isText, -⟩ := blank
  unfold withCondition?
  rw [isText]

theorem withCondition?_of_standsAlone {info : NodeInfo} (alone : StandsAlone info.kind) (inner : List Fragment)
    (next : Fragment) : withCondition? (.node info inner) next = none := by
  unfold withCondition?
  split
  · next condition same => exact absurd same (alone.noStart condition)
  · rfl

theorem beginsWith_joinConditions (alone : StandsAlone kind) (begins : BeginsWith kind span nodes) :
    BeginsWith kind span (joinConditions nodes) := by
  induction begins with
  | @here info inner rest same =>
    cases rest with
    | nil => exact .here same
    | cons next rest =>
      have apart : withCondition? (.node info inner) next = none :=
        withCondition?_of_standsAlone (alone.of_kindAndSpan same) inner next
      rw [joinConditions, apart]
      exact .here same
  | @blank node rest blank later ih =>
    cases rest with
    | nil => cases later
    | cons next rest =>
      rw [joinConditions, withCondition?_of_isBlankText blank]
      exact .blank blank ih

theorem beginsWith_joinTexts (alone : StandsAlone kind) (begins : BeginsWith kind span nodes) :
    BeginsWith kind span (joinTexts nodes) := by
  induction begins with
  | @here info inner rest same =>
    have noText : textOf? info.kind = none := (alone.of_kindAndSpan same).noText
    rw [joinTexts, noText]
    exact .here same
  | @blank node rest blank later ih =>
    obtain ⟨info, inner⟩ := node
    obtain ⟨cs, isText, space⟩ := blank
    have isText : info.kind = .text (String.ofList cs) := isText
    have value : textOf? info.kind = some (String.ofList cs) := by rw [isText]; rfl
    rw [joinTexts, value]
    dsimp only
    generalize joinTexts rest = joined at ih ⊢
    cases ih with
    | @here next below later same =>
      have noText : textOf? next.kind = none := (alone.of_kindAndSpan same).noText
      dsimp only
      split
      · next more other =>
        rw [other] at noText
        cases noText
      · exact .blank ⟨cs, rfl, space⟩ (.here same)
    | @blank second others blank later =>
      obtain ⟨next, below⟩ := second
      obtain ⟨ds, isText, more⟩ := blank
      have isText : next.kind = .text (String.ofList ds) := isText
      dsimp only
      rw [isText]
      refine .blank ⟨cs ++ ds, ?_, ?_⟩ later
      · exact congrArg NodeKind.text String.ofList_append.symm
      · rw [List.all_append, space, more]
        rfl

theorem isBlankText_of_mem_nodes {pieces : List TextPiece} {start : Nat}
    (blank : ∀ piece ∈ pieces, ∃ cs, piece = .text cs ∧ cs.all isMarkupSpace = true)
    (member : node ∈ TextPiece.nodes start pieces) : IsBlankText node := by
  induction pieces generalizing start with
  | nil => cases member
  | cons piece pieces ih =>
    obtain ⟨⟨cs, rfl, space⟩, others⟩ := List.forall_mem_cons.mp blank
    rcases List.mem_cons.mp member with rfl | member
    · exact ⟨cs, rfl, space⟩
    · exact ih others member

theorem isBlankText_of_mem_splitText (blank : IsBlankText node) : ∀ piece ∈ splitText node, IsBlankText piece := by
  obtain ⟨cs, isText, space⟩ := blank
  unfold splitText
  rw [isText]
  dsimp only
  rw [String.toList_ofList, textPieces_of_inert (Markup.inert_of_isMarkupSpace space)]
  intro piece member
  refine isBlankText_of_mem_nodes (fun piece member => ?_) member
  split at member
  · cases member
  · exact ⟨cs, List.mem_singleton.mp member, space⟩

theorem splitText_of_standsAlone (alone : StandsAlone node.kind) : splitText node = [node] := by
  unfold splitText
  split
  · next value same =>
    have noText := alone.noText
    rw [same] at noText
    cases noText
  · rfl

theorem beginsWith_splitText (alone : StandsAlone kind) (begins : BeginsWith kind span nodes) :
    BeginsWith kind span (nodes.flatMap splitText) := by
  induction begins with
  | @here info inner rest same =>
    have whole : splitText (.node info inner) = [.node info inner] :=
      splitText_of_standsAlone (alone.of_kindAndSpan same)
    rw [List.flatMap_cons, whole]
    exact .here same
  | blank blank _ ih =>
    rw [List.flatMap_cons]
    exact ih.append (isBlankText_of_mem_splitText blank)

theorem looks_flagFirst (flag : Flag) (condition : Bool) (nodes : List Fragment) :
    looks kindAndSpan (flagFirst flag condition nodes) = looks kindAndSpan nodes := by
  cases nodes with
  | nil => rfl
  | cons node rest =>
    obtain ⟨info, inner⟩ := node
    cases condition with
    | true => rfl
    | false => rfl

theorem isPrefix_looks_trimTexts (kept nodes : List Fragment) :
    (looks kindAndSpan kept).reverse <+: looks kindAndSpan (trimTexts kept nodes) := by
  fun_induction trimTexts kept nodes with
  | case1 kept =>
    have same : looks kindAndSpan kept.reverse = (looks kindAndSpan kept).reverse := List.map_reverse
    exact same ▸ List.prefix_rfl
  | case2 kept info inner rest value isText cs blank ih => rwa [looks_flagFirst] at ih
  | case3 kept info inner rest value isText cs some leading trailing ih =>
    have front : looks kindAndSpan (trimmedText info cs inner :: flagFirst .trailingSpaces (leading ≠ []) kept) =
        kindAndSpan (trimmedText info cs inner).info :: looks kindAndSpan kept :=
      congrArg (_ :: ·) (looks_flagFirst _ _ _)
    rw [front, List.reverse_cons] at ih
    exact (List.prefix_append _ _).trans ih
  | case4 kept info inner rest noText ih =>
    have front : looks kindAndSpan (.node info inner :: kept) = kindAndSpan info :: looks kindAndSpan kept := rfl
    rw [front, List.reverse_cons] at ih
    exact (List.prefix_append _ _).trans ih

/-- White space at the front is dropped, so the node behind it leads. -/
theorem ledBy_trimTexts (alone : StandsAlone kind) (begins : BeginsWith kind span nodes) (condition : Bool) :
    LedBy kind span (trimTexts [] (flagFirst .leadingSpaces condition nodes)) := by
  induction begins generalizing condition with
  | @here info inner rest same =>
    obtain ⟨⟨first, below⟩, flagged⟩ : ∃ node, flagFirst .leadingSpaces condition (.node info inner :: rest) =
        node :: rest := ⟨_, rfl⟩
    have kept := looks_flagFirst .leadingSpaces condition (.node info inner :: rest)
    rw [flagged] at kept ⊢
    have same : kindAndSpan first = (kind, span) := (List.cons.inj kept).1.trans same
    have noText : textOf? first.kind = none := (alone.of_kindAndSpan same).noText
    have trimmed : trimTexts [] (.node first below :: rest) = trimTexts [.node first below] rest := by
      rw [trimTexts]
      split
      · next value isText =>
        rw [isText] at noText
        cases noText
      · rfl
    rw [trimmed, LedBy, ← same]
    exact isPrefix_looks_trimTexts [.node first below] rest
  | @blank node rest blank _ ih =>
    obtain ⟨⟨first, below⟩, flagged⟩ : ∃ fragment, flagFirst .leadingSpaces condition (node :: rest) =
        fragment :: rest := ⟨_, rfl⟩
    have kept := looks_flagFirst .leadingSpaces condition (node :: rest)
    rw [flagged] at kept ⊢
    obtain ⟨cs, isText, space⟩ := isBlankText_congr (congrArg Prod.fst (List.cons.inj kept).1).symm blank
    have isText : first.kind = .text (String.ofList cs) := isText
    rw [trimTexts, isText]
    dsimp only
    rw [String.toList_ofList, if_pos space]
    exact ih _

theorem ledBy_mergeSimple (source : List Char) (alone : StandsAlone kind) (led : LedBy kind span nodes) :
    LedBy kind span (mergeSimple source nodes) := by
  obtain ⟨info, inner, rest, rfl, same⟩ := led.exists_cons
  match rest with
  | [] => exact ledBy_cons same inner []
  | [next] => exact ledBy_cons same inner [next]
  | fragment :: after :: rest =>
    have apart : mergedText? source (.node info inner) fragment after = none := by
      have noText : textOf? info.kind = none := (alone.of_kindAndSpan same).noText
      unfold mergedText?
      cases simpleElement? fragment with
      | none => rfl
      | some found =>
        simp only [Option.bind_eq_bind, Option.bind_some]
        split
        · next value isText =>
          have isText : info.kind = .text value := isText
          rw [isText] at noText
          cases noText
        · rfl
    rw [mergeSimple, apart]
    exact ledBy_cons same inner _

/-! ### Trees -/

/-- Below a root, behind white space, a tree begins with a node of this kind that spans this. -/
structure Fronted (kind : NodeKind) (span : Span) (fragment : Fragment) : Prop where
  root : fragment.kind = .root
  begins : BeginsWith kind span fragment.children

/-- A change of children keeps what they begin with, if it does so below the root. -/
theorem fronted_mapChildren {change : NodeInfo → List Fragment → List Fragment} (fronted : Fronted kind span fragment)
    (keeps : ∀ info nodes, info.kind = .root → BeginsWith kind span nodes → BeginsWith kind span (change info nodes)) :
    Fronted kind span (fragment.mapChildren change) := by
  obtain ⟨info, nodes⟩ := fragment
  have same : looks kindAndSpan (bottomUpAll (fun info children => .node info (change info children)) nodes) =
      looks kindAndSpan nodes := Fragment.looks_bottomUpAll (fun _ _ => rfl) nodes
  exact ⟨fronted.root, keeps info _ fronted.root (beginsWith_congr same fronted.begins)⟩

theorem isBlankContent_of_beginsWith (alone : StandsAlone kind) (begins : BeginsWith kind span nodes) :
    isBlankContent nodes = false := by
  cases begins with
  | @here info inner rest same =>
    cases rest with
    | nil =>
      have noText : textOf? info.kind = none := (alone.of_kindAndSpan same).noText
      unfold isBlankContent
      dsimp only
      split
      · next value isText =>
        have isText : info.kind = .text value := isText
        rw [isText] at noText
        cases noText
      · rfl
    | cons _ _ => rfl
  | @blank node rest blank later =>
    cases rest with
    | nil => cases later
    | cons _ _ => rfl

theorem ledBy_trimText (alone : StandsAlone kind) (fronted : Fronted kind span fragment) :
    (trimText fragment).kind = .root ∧ LedBy kind span (trimText fragment).children := by
  obtain ⟨info, nodes⟩ := fragment
  have root : info.kind = .root := fronted.root
  have same : looks kindAndSpan (bottomUpAll trimNode nodes) = looks kindAndSpan nodes :=
    Fragment.looks_bottomUpAll (look_trimNode fun _ _ _ _ => rfl) nodes
  have begins := beginsWith_congr same fronted.begins
  have calm : isWhitespaceSensitive .root = false := by decide
  refine ⟨(look_trimNode (fun _ _ _ _ => rfl) info _).trans root, ?_⟩
  show LedBy kind span (trimNode info (bottomUpAll trimNode nodes)).children
  generalize bottomUpAll trimNode nodes = nodes at begins ⊢
  unfold trimNode
  rw [isBlankContent_of_beginsWith alone begins, root, calm]
  have led := ledBy_trimTexts alone begins false
  have whole : flagFirst .leadingSpaces false nodes = nodes := by cases nodes <;> rfl
  rwa [whole] at led

theorem ledBy_normalize (alone : StandsAlone kind) (fronted : Fronted kind span fragment) :
    (normalize fragment).kind = .root ∧ LedBy kind span (normalize fragment).children := by
  have dropped : Fronted kind span (dropFirstLineFeeds fragment) := by
    refine fronted_mapChildren fronted fun info nodes root begins => ?_
    rw [root]
    exact begins
  have folded : Fronted kind span (foldConditions (dropFirstLineFeeds fragment)) :=
    fronted_mapChildren dropped fun _ _ _ begins => beginsWith_joinConditions alone begins
  have merged : Fronted kind span (mergeCdata (foldConditions (dropFirstLineFeeds fragment))) := by
    refine fronted_mapChildren folded fun info nodes _ begins => ?_
    split
    · exact beginsWith_joinTexts alone begins
    · exact begins
  have split : Fronted kind span (splitInterpolations (mergeCdata (foldConditions (dropFirstLineFeeds fragment)))) := by
    refine fronted_mapChildren merged fun info nodes _ begins => ?_
    split
    · exact beginsWith_splitText alone begins
    · exact begins
  exact ledBy_trimText alone split

theorem kindAndSpan_classify (source : String) (options : Options) (root : Fragment) (id : Markup.NodeId) :
    kindAndSpan ((classify source options root).node id).toNodeInfo =
      kindAndSpan ((Tree.ofRoot source root).node id).toNodeInfo := by
  let part (node : Markup.Node) : NodeKind × Span := kindAndSpan node.toNodeInfo
  have marked (tree : Tree) : part (tree.markSensitivity.node id) = part (tree.node id) :=
    Tree.mapNodes_keeps part fun _ _ => rfl
  have closed (tree : Tree) : part (tree.markSelfClosing.node id) = part (tree.node id) :=
    Tree.mapNodes_keeps part fun _ _ => rfl
  have shown (tree : Tree) : part ((tree.resolveDisplays options.sensitivity).node id) = part (tree.node id) :=
    Tree.mapNodes_keeps part fun _ _ => rfl
  exact (marked _).trans ((closed _).trans (shown _))

theorem looks_classify (source : String) (options : Options) (root : Fragment) :
    looks kindAndSpan (classify source options root).toFragment.children = looks kindAndSpan root.children := by
  have at_root : root.preorder[Tree.rootId]? = some root := by
    rw [Fragment.preorder_eq_cons]
    rfl
  have nonempty : 0 < (classify source options root).size := by
    rw [size_classify]
    exact size_pos root
  have children : (classify source options root).children Tree.rootId =
      (Tree.ofRoot source root).children Tree.rootId := by
    unfold classify Tree.markSensitivity Tree.markSelfClosing Tree.resolveDisplays
    rw [Tree.children_mapNodes (Tree.keepsPlaces_markSensitivity _),
      Tree.children_mapNodes Tree.keepsPlaces_markSelfClosing,
      Tree.children_mapNodes (Tree.keepsPlaces_resolveDisplays _ _)]
  rw [Tree.looks_toFragment nonempty, children]
  exact (List.map_congr_left fun child _ => kindAndSpan_classify source options root child).trans
    (Tree.map_children_ofRoot at_root)

theorem ledBy_finish (source : String) (options : Options) (alone : StandsAlone kind)
    (led : LedBy kind span fragment.children) : LedBy kind span (finish source options fragment).children := by
  have classified : LedBy kind span (classify source options fragment).toFragment.children := by
    rw [LedBy, looks_classify]
    exact led
  unfold finish mergeSimpleElements
  generalize (classify source options fragment).toFragment = tree at classified ⊢
  obtain ⟨info, nodes⟩ := tree
  refine ledBy_mergeSimple source.toList alone ?_
  have same : looks kindAndSpan (bottomUpAll (fun info children => .node info (mergeSimple source.toList children))
      nodes) = looks kindAndSpan nodes := Fragment.looks_bottomUpAll (fun _ _ => rfl) nodes
  rw [LedBy, same]
  exact classified

/-- The annotated tree of a source begins with the node that the source begins with behind white space. -/
theorem exists_first_of_annotate {source : String} {options : Options} {annotated : Annotated} {front : Fragment}
    (ok : annotate source options = .ok annotated)
    (read : Markup.parse (Text.normalizeLineEndings source) {} = .ok (others ++ front :: rest))
    (blank : ∀ node ∈ others, IsBlankText node) (alone : StandsAlone front.kind) :
    ∃ first later, annotated.tree.children Tree.rootId = first :: later ∧
      annotated.tree.kind first = front.kind ∧ (annotated.tree.node first).span = front.span := by
  obtain ⟨content, parsed, same⟩ := exists_parsed ok
  obtain rfl : others ++ front :: rest = content := Except.ok.inj (read.symm.trans parsed)
  rw [same]
  generalize Text.normalizeLineEndings source = text
  obtain ⟨info, inner⟩ := front
  have begins : BeginsWith info.kind info.span (others ++ .node info inner :: rest) :=
    BeginsWith.append (.here rfl) blank
  have root : Fronted info.kind info.span (rootOver text (others ++ .node info inner :: rest)) := ⟨rfl, begins⟩
  have led := ledBy_finish text options alone (ledBy_normalize alone root).2
  generalize finish text options (normalize (rootOver text (others ++ .node info inner :: rest))) = tree at led
  have at_root : tree.preorder[Tree.rootId]? = some tree := by
    rw [Fragment.preorder_eq_cons]
    rfl
  have shown : ((Tree.ofRoot text tree).children Tree.rootId).map
      (fun child => kindAndSpan ((Tree.ofRoot text tree).node child).toNodeInfo) = looks kindAndSpan tree.children :=
    Tree.map_children_ofRoot at_root
  rw [LedBy, ← shown] at led
  cases below : (Tree.ofRoot text tree).children Tree.rootId with
  | nil =>
    rw [below] at led
    exact absurd (List.prefix_nil.mp led) (List.cons_ne_nil _ _)
  | cons first later =>
    rw [below, List.map_cons, List.cons_prefix_cons] at led
    have same : ((Tree.ofRoot text tree).kind first, ((Tree.ofRoot text tree).node first).span) =
        (info.kind, info.span) := led.1.symm
    exact ⟨first, later, rfl, (Prod.mk.inj same).1, (Prod.mk.inj same).2⟩

end MarkupFormat.Annotate
