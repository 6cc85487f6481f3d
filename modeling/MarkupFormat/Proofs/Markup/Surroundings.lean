import MarkupFormat.Proofs.Markup.FrontMatter
import MarkupFormat.Proofs.Markup.Losslessness
import MarkupFormat.Proofs.Markup.Moved
import MarkupFormat.Proofs.Markup.RoundTrip

/-!
# Before and behind

What is read of a source with lines before it, or with something behind the declaration that it begins with.

The text at the front of a source is read for itself (`readContent_front`), so line ends before a source only show in
that text. Behind a comment, a source is read as it is read alone, unless it has front matter
(`sameButLines_of_comment_iff`).

Nodes hold a declaration alone if nothing but white space stands beside it (`HoldsDeclaration`). They are read only
where nothing but white space follows the bracket that ends the declaration (`all_of_holdsDeclaration`).
-/

namespace MarkupFormat.Text

theorem scan_append_of_forall {stop : List Char → Bool} {front : List Char}
    (passes : ∀ c ∈ front, c ≠ '{' ∧ ∀ more, stop (c :: more) = false) (rest : List Char) :
    scan stop (front ++ rest) = (front ++ (scan stop rest).1, (scan stop rest).2) := by
  induction front with
  | nil => rfl
  | cons c front ih =>
    obtain ⟨⟨other, here⟩, others⟩ := List.forall_mem_cons.mp passes
    rw [List.cons_append, scan_cons other (here _), ih others]
    rfl

end MarkupFormat.Text

namespace MarkupFormat.Markup

open Fragment (Tiles)
open Text (Cut byteLength isMarkupSpace scan)

variable {options : ParseOptions} {before nodes others : List Fragment} {lines lines' rest : List Char} {pos : Nat}

/-! ### The text at the front -/

/-- A source is read as the text at its front, if it has one, and as what is read from there on. -/
theorem readContent_front (options : ParseOptions) (before : List Fragment) (pos : Nat) (source : List Char) :
    readContent options { nodes := before } ⟨pos, source⟩ =
      movedResult (pos + byteLength (scan (atMarkup options) source).1)
        (·.movedAfter (pos + byteLength (scan (atMarkup options) source).1)
          (spaceNodes pos (scan (atMarkup options) source).1 ++ before))
        (readContent options {} ⟨0, (scan (atMarkup options) source).2⟩) := by
  have later := readContent_moved (pos + byteLength (scan (atMarkup options) source).1)
    ⟨0, (scan (atMarkup options) source).2⟩ options (spaceNodes pos (scan (atMarkup options) source).1 ++ before) {}
  rw [← later]
  show readContent options { nodes := before } ⟨pos, source⟩ = readContent options
    { nodes := spaceNodes pos (scan (atMarkup options) source).1 ++ before } ⟨0 + (pos + _), _⟩
  rw [Nat.zero_add]
  cases source with
  | nil =>
    rw [scan]
    rfl
  | cons c cs =>
    cases markup : atMarkup options (c :: cs) with
    | true =>
      have bracket : c ≠ '{' := by
        rintro rfl
        rw [atMarkup_eq_false (by decide)] at markup
        cases markup
      rw [Text.scan_stop bracket markup]
      rfl
    | false =>
      have nonempty : (scan (atMarkup options) (c :: cs)).1 ≠ [] := Text.scan_fst_ne_nil markup
      let stop := pos + byteLength (scan (atMarkup options) (c :: cs)).1
      have read : readLexeme options ⟨pos, c :: cs⟩ =
          .ok (.text (scan (atMarkup options) (c :: cs)).1 ⟨pos, stop⟩, ⟨stop, (scan (atMarkup options) (c :: cs)).2⟩) := by
        unfold readLexeme
        dsimp only
        rw [markup]
        rfl
      unfold spaceNodes
      rw [if_neg nonempty]
      exact readContent_follow (List.cons_ne_nil c cs) read (fun _ => Lexeme.noConfusion)
        (fun _ _ => Lexeme.noConfusion) rfl

/-! ### Line ends -/

/-- Whether a character ends a line, alone or with another one. -/
def endsLine (c : Char) : Bool :=
  c = '\n' || c = '\r'

/-- Nodes that are the same but for where they stand, and but for the line ends before the text they begin with. -/
def SameButLines (nodes others : List Fragment) : Prop :=
  ∃ (lines lines' text : List Char) (start start' : Nat) (rest : List Fragment) (offset offset' : Nat),
    lines.all endsLine = true ∧ lines'.all endsLine = true ∧
      nodes = spaceNodes start (lines ++ text) ++ rest.map (·.moved offset) ∧
      others = spaceNodes start' (lines' ++ text) ++ rest.map (·.moved offset')

theorem scan_append_of_endsLine (ends : lines.all endsLine = true) (rest : List Char) :
    scan (atMarkup options) (lines ++ rest) =
      (lines ++ (scan (atMarkup options) rest).1, (scan (atMarkup options) rest).2) := by
  apply Text.scan_append_of_forall
  intro c member
  have isEnd := List.all_eq_true.mp ends c member
  constructor
  · rintro rfl
    cases isEnd
  · intro more
    apply atMarkup_eq_false
    rintro rfl
    cases isEnd

/-- What is read after line ends, anywhere and after any nodes, depends on them only in the text it begins with. -/
theorem exists_sameButLines (ends : lines.all endsLine = true) (ends' : lines'.all endsLine = true)
    (before : List Fragment) (pos : Nat) {opened : OpenElements}
    (read : readContent options {} ⟨0, lines ++ rest⟩ = .ok opened) :
    ∃ after others, readContent options { nodes := before } ⟨pos, lines' ++ rest⟩ = .ok after ∧
      after.finish = before.reverse ++ others ∧ SameButLines opened.finish others := by
  rw [readContent_front, scan_append_of_endsLine ends] at read
  rw [readContent_front, scan_append_of_endsLine ends']
  dsimp only at read ⊢
  cases found : readContent options {} ⟨0, (scan (atMarkup options) rest).2⟩ with
  | error failure =>
    rw [found] at read
    cases read
  | ok common =>
    rw [found] at read
    cases read
    let front := (scan (atMarkup options) rest).1
    let offset := pos + byteLength (lines' ++ front)
    refine ⟨_, spaceNodes pos (lines' ++ front) ++ common.finish.map (·.moved offset), rfl, ?_, ?_⟩
    · rw [OpenElements.finish_moved, List.reverse_append, reverse_spaceNodes, List.append_assoc]
    · refine ⟨lines, lines', front, 0, pos, common.finish, 0 + byteLength (lines ++ front), offset, ends, ends', ?_,
        rfl⟩
      rw [OpenElements.finish_moved, List.append_nil, reverse_spaceNodes]

/-! ### Behind a comment -/

/-- Nothing is front matter that is the same as what is not. -/
theorem kind_ne_frontMatter_of_sameButLines (block : FrontMatter) (same : SameButLines nodes others)
    (none : ∀ node ∈ others, node.kind ≠ .frontMatter block) : ∀ node ∈ nodes, node.kind ≠ .frontMatter block := by
  obtain ⟨lines, lines', text, start, start', rest, offset, offset', -, -, rfl, rfl⟩ := same
  intro node member isBlock
  rcases List.mem_append.mp member with member | member
  · unfold spaceNodes at member
    split at member
    · cases member
    · rw [List.mem_singleton.mp member] at isBlock
      cases isBlock
  · obtain ⟨⟨info, inner⟩, inside, rfl⟩ := List.mem_map.mp member
    have kind : info.kind = .frontMatter block := by
      have isBlock : info.kind.moved offset = .frontMatter block := isBlock
      cases same : info.kind with
      | element element =>
        rw [same] at isBlock
        cases isBlock
      | _ =>
        rw [same] at isBlock
        exact isBlock
    refine none _ (List.mem_append_right _ (List.mem_map_of_mem inside)) ?_
    show info.kind.moved offset' = _
    rw [kind]
    rfl

theorem kind_ne_frontMatter_of_bracket {more : List Char} (read : readSource {} ('<' :: more) = .ok nodes) :
    ∀ node ∈ nodes, ∀ block, node.kind ≠ .frontMatter block := by
  rw [readSource_of_bracket] at read
  cases found : readContent {} {} ⟨0, '<' :: more⟩ with
  | error failure =>
    rw [found] at read
    cases read
  | ok opened =>
    rw [found] at read
    cases read
    have none : opened.NoBlock := noBlock_readContent OpenElements.noBlock_empty found
    have ended := OpenElements.closeAll_keeps (motive := OpenElements.NoBlock) none fun none =>
      OpenElements.noBlock_close none _
    exact fun node member => ended node (List.mem_reverse.mp member)

/-- Front matter is read as the first node. -/
theorem exists_frontMatter_of_readSource {source : List Char} {block : FrontMatter}
    (isBlock : FrontMatter.parse? source = some block) (read : readSource {} source = .ok nodes) :
    ∃ span later, nodes = .leaf (.frontMatter block) span :: later := by
  have taken : (if ({} : ParseOptions).frontMatter then FrontMatter.parse? source else none) = some block := isBlock
  unfold readSource at read
  dsimp only [bind, Except.bind] at read
  rw [taken] at read
  dsimp only at read
  split at read
  · cases read
  · cases read
    exact ⟨_, _, rfl⟩

variable {text : String} {value : String}

open Html (write placed)

/-- A source without front matter is read behind a comment as it is read alone. -/
theorem exists_parse_comment (valid : (Html.comment value).Valid) (ends : lines.all endsLine = true)
    (ends' : lines'.all endsLine = true) (plain : FrontMatter.parse? (lines ++ rest) = none)
    (small : byteLength (write (.comment value) ++ (lines' ++ rest)) ≤ maxSourceBytes)
    (read : parse (String.ofList (lines ++ rest)) {} = .ok nodes) :
    ∃ others, parse (String.ofList (write (.comment value) ++ (lines' ++ rest))) {} =
      .ok (placed 0 (.comment value) :: others) ∧ SameButLines nodes others := by
  have found := (parse_eq_ok_iff.mp read).1
  cases readsSource_of_readSource found with
  | afterBlock isBlock =>
    rw [plain] at isBlock
    cases isBlock
  | all content =>
    obtain ⟨after, others, later, finished, same⟩ := exists_sameButLines ends ends' [placed 0 (.comment value)]
      (0 + byteLength (write (.comment value))) content
    refine ⟨others, ?_, same⟩
    have admits : ({} : OpenElements).Admits (.comment value) := by
      intro name isElement
      cases isElement
    have first : readContent {} {} ⟨0, write (.comment value) ++ (lines' ++ rest)⟩ = _ :=
      Html.readContent_write (.comment value) valid admits (fun isText => by cases isText)
    have bracket : write (.comment value) ++ (lines' ++ rest) =
        '<' :: ("!--".toList ++ (value.toList ++ "-->".toList) ++ (lines' ++ rest)) := by
      simp [write]
    rw [parse_eq_ok_iff]
    refine ⟨?_, small⟩
    rw [bracket, readSource_of_bracket, ← bracket, first]
    have again : readContent {} (({} : OpenElements).add (placed 0 (.comment value)))
        ⟨0 + byteLength (write (.comment value)), lines' ++ rest⟩ = .ok after := later
    rw [again]
    exact congrArg Except.ok finished

/-- A source is read behind a comment as it is read alone, but for the lines between them, exactly if it has no front
matter. -/
theorem sameButLines_of_comment_iff (valid : (Html.comment value).Valid) (ends : lines.all endsLine = true)
    (ends' : lines'.all endsLine = true)
    (small : byteLength (write (.comment value) ++ (lines' ++ rest)) ≤ maxSourceBytes)
    (read : parse (String.ofList (lines ++ rest)) {} = .ok nodes) :
    (∃ others, parse (String.ofList (write (.comment value) ++ (lines' ++ rest))) {} =
        .ok (placed 0 (.comment value) :: others) ∧ SameButLines nodes others) ↔
      FrontMatter.parse? (lines ++ rest) = none := by
  constructor
  · rintro ⟨others, behind, same⟩
    cases isBlock : FrontMatter.parse? (lines ++ rest) with
    | none => rfl
    | some block =>
      obtain ⟨span, later, rfl⟩ := exists_frontMatter_of_readSource isBlock (parse_eq_ok_iff.mp read).1
      have none := kind_ne_frontMatter_of_bracket (parse_eq_ok_iff.mp behind).1
      have kept := kind_ne_frontMatter_of_sameButLines block same fun node member =>
        none node (List.mem_cons_of_mem _ member) block
      exact absurd rfl (kept _ List.mem_cons_self)
  · intro plain
    exact exists_parse_comment valid ends ends' plain small read

/-! ### What follows a declaration -/

variable {source : List Char} {node : Fragment} {start stop : Nat}

/-- A text of white space. -/
def IsBlankText (node : Fragment) : Prop :=
  ∃ cs, node.kind = .text (String.ofList cs) ∧ cs.all isMarkupSpace = true

/-- The nodes are a declaration of `value` and white space after it. -/
def HoldsDeclaration (value : List Char) (nodes : List Fragment) : Prop :=
  ∃ span rest, nodes = .leaf (.doctype (String.ofList value)) span :: rest ∧ ∀ node ∈ rest, IsBlankText node

theorem isBlankText_of_mem_spaceNodes {cs : List Char} (blank : cs.all isMarkupSpace = true)
    (member : node ∈ spaceNodes start cs) : IsBlankText node := by
  unfold spaceNodes at member
  split at member
  · cases member
  · rw [List.mem_singleton.mp member]
    exact ⟨cs, rfl, blank⟩

theorem holdsDeclaration_iff {content after value : List Char} (declares : Declares source [] content after) :
    HoldsDeclaration value (declarationNodes [] content after) ↔ doctypeValue content = value := by
  constructor
  · rintro ⟨span, rest, same, -⟩
    have kind := congrArg Fragment.kind (List.cons.inj same).1
    exact String.ofList_injective (NodeKind.doctype.inj kind)
  · rintro rfl
    exact ⟨_, _, rfl, fun _ => isBlankText_of_mem_spaceNodes declares.blankAfter⟩

/-! ### White space -/

theorem all_written_of_isBlankText (blank : IsBlankText node) (tiled : node.Tiled source) :
    (node.written source).all isMarkupSpace = true := by
  obtain ⟨cs, kind, blank⟩ := blank
  obtain ⟨info, inner⟩ := node
  have kind : info.kind = .text (String.ofList cs) := kind
  rcases tiled with ⟨impossible, -⟩ | ⟨plain, -, part, -, cut, text⟩
  · rw [kind] at impossible
    cases impossible
  · have same : cs = part := String.ofList_injective (text _ kind)
    rw [Fragment.written, plain, if_neg Bool.false_ne_true, Fragment.spanned_of_cut cut, ← same]
    exact blank

/-- A part of a source that is read as texts of white space is white space. -/
theorem all_writtenAll_of_isBlankText (blank : ∀ node ∈ nodes, IsBlankText node)
    (tiles : Tiles source nodes start stop) : (Fragment.writtenAll source nodes).all isMarkupSpace = true := by
  induction nodes generalizing start with
  | nil => rfl
  | cons node rest ih =>
    obtain ⟨-, tiled, later⟩ := tiles
    obtain ⟨here, others⟩ := List.forall_mem_cons.mp blank
    rw [Fragment.writtenAll, List.all_append, all_written_of_isBlankText here tiled, ih others later]
    rfl

theorem isBlankText_of_moved {offset : Nat} (blank : IsBlankText (node.moved offset)) : IsBlankText node := by
  obtain ⟨cs, kind, blank⟩ := blank
  refine ⟨cs, ?_, blank⟩
  obtain ⟨info, inner⟩ := node
  have kind : info.kind.moved offset = .text (String.ofList cs) := kind
  show info.kind = _
  cases same : info.kind with
  | element element =>
    rw [same] at kind
    cases kind
  | _ =>
    rw [same] at kind
    exact kind

/-! ### What follows -/

variable {all before content more said : List Char}

/-- What follows the declaration at the front of a source is read as it is read alone. -/
theorem readSource_of_declaresFirst (declares : DeclaresFirst all before content more)
    (read : readSource {} all = .ok nodes) :
    ∃ opened, readContent {} {} ⟨0, more⟩ = .ok opened ∧
      nodes = spaceNodes 0 before ++ declarationNode (byteLength before) content ::
        opened.finish.map (·.moved (byteLength before + byteLength (declarationText content))) := by
  let size := byteLength before + byteLength (declarationText content)
  let earlier := declarationNode (byteLength before) content :: spaceNodes 0 before
  have later : readContent {} { nodes := earlier } ⟨0 + size, more⟩ =
      movedResult size (·.movedAfter size earlier) (readContent {} {} ⟨0, more⟩) :=
    readContent_moved size ⟨0, more⟩ {} earlier {}
  rw [Nat.zero_add] at later
  unfold readSource at read
  rw [declares.parse?_eq_none, ite_self] at read
  dsimp only at read
  rw [declares.readContent_eq, later] at read
  cases found : readContent {} {} ⟨0, more⟩ with
  | error failure =>
    rw [found] at read
    cases read
  | ok opened =>
    rw [found] at read
    refine ⟨opened, rfl, (Except.ok.inj read).symm.trans ((OpenElements.finish_moved ..).trans ?_)⟩
    rw [List.reverse_cons, reverse_spaceNodes, List.append_assoc]
    rfl

/-- A declaration is all that is read only if nothing but white space follows it. -/
theorem all_of_holdsDeclaration (closed : '>' ∉ content) (noComment : "--".toList.isPrefixOf content = false)
    (noCdata : "[CDATA[".toList.isPrefixOf content = false)
    (read : readSource {} (declarationText content ++ more) = .ok nodes) (holds : HoldsDeclaration said nodes) :
    more.all isMarkupSpace = true := by
  have declares : DeclaresFirst (declarationText content ++ more) [] content more :=
    ⟨rfl, rfl, closed, noComment, noCdata⟩
  obtain ⟨opened, found, rfl⟩ := readSource_of_declaresFirst declares read
  obtain ⟨_, rest, same, blank⟩ := holds
  obtain ⟨-, rfl⟩ := List.cons.inj same
  have blank : ∀ node ∈ opened.finish, IsBlankText node := fun node member =>
    isBlankText_of_moved (blank _ (List.mem_map_of_mem member))
  have tiles := OpenElements.tiles_finish
    (covers_readContent (OpenElements.covers_empty more 0) (Cut.whole more) found)
  have whole := Cut.whole more
  rw [← (Tiles.cut_writtenAll whole.nil_start tiles).unique whole]
  exact all_writtenAll_of_isBlankText blank tiles

end MarkupFormat.Markup
