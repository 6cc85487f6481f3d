import MarkupFormat.Proofs.Annotate.FirstNode
import MarkupFormat.Proofs.Annotate.Shape
import MarkupFormat.Proofs.Format.Failure
import MarkupFormat.Proofs.Format.Markers
import MarkupFormat.Proofs.Format.Settled
import MarkupFormat.Proofs.Print.FirstNode

/-!
# Documents that begin with a declaration

A document that begins with a declaration is formatted as one that begins with the printed declaration, whatever comes
behind it (`declaresFirst_of_format`). So formatting it once more changes it unless the declaration is settled
(`format_eq_self_of_declaresFirst`), and its tree keeps its structure only if the declaration is a document type or has
white space in the place of the keyword (`sameStructure_of_declaresFirst`). For a declaration alone both are exact.
-/

namespace MarkupFormat.Annotate

open Markup (DeclaresFirst NodeKind Span Tree declarationNode declarationText doctypeValue spaceNodes)
open Text (byteLength normalizeLineEndings)

variable {source : String} {options : Format.Options} {annotated : Annotated} {before content after : List Char}

/-- The annotated tree of a source that begins with a declaration begins with it as well. -/
theorem exists_declaration_of_annotate (declares : DeclaresFirst (normalizeLineEndings source).toList before content after)
    (annotates : annotate source options = .ok annotated) :
    ∃ first later, annotated.tree.children Tree.rootId = first :: later ∧
      annotated.tree.kind first = .doctype (String.ofList (doctypeValue content)) ∧
      (annotated.tree.node first).span.slice annotated.tree.source.toList = String.ofList (declarationText content) := by
  obtain ⟨nodes, parsed, tree⟩ := exists_parsed annotates
  obtain ⟨opened, -, rfl⟩ := Markup.readSource_of_declaresFirst declares (readSource_of_parse parsed)
  have alone : StandsAlone (declarationNode (byteLength before) content).kind := ⟨rfl, nofun⟩
  have blank : ∀ node ∈ spaceNodes 0 before, Markup.IsBlankText node := fun _ =>
    Markup.isBlankText_of_mem_spaceNodes declares.blankBefore
  obtain ⟨first, later, children, kind, span⟩ := exists_first_of_annotate annotates parsed blank alone
  refine ⟨first, later, children, kind, ?_⟩
  have written : annotated.tree.source = normalizeLineEndings source := congrArg Tree.source tree
  rw [span, written]
  exact (Format.cut_declaration declares).slice_eq

end MarkupFormat.Annotate

namespace MarkupFormat.Format

open Annotate (SameStructure annotate)
open Layout (Doc WritesFirst)
open Markup (DeclaresFirst Tree declarationText doctypeValue)
open Print (Page normalizeDoctype)
open Text (byteLength isMarkupSpace isWhiteSpace normalizeChars normalizeLineEndings)

variable {source output : String} {options : Options} {before content head tail after : List Char}

/-! ### The front of the output -/

theorem printedDeclaration_eq_concat (options : Options) (content : List Char) :
    ∃ front, printedDeclaration options content = front ++ ['>'] :=
  ⟨_, rfl⟩

theorem writesFirst_document {annotated : Annotate.Annotated} {doc : Doc}
    (declares : DeclaresFirst (normalizeLineEndings source).toList before content after)
    (annotates : annotate source options = .ok annotated)
    (printed : ∀ holds, Print.Printing.Yields (plainPage options annotated.tree).print holds → holds doc) :
    WritesFirst [doc] (printedDeclaration options content) := by
  obtain ⟨first, later, children, kind, written⟩ := Annotate.exists_declaration_of_annotate declares annotates
  let page := plainPage options annotated.tree
  have front : (page.openingStartText first).toList = declarationFront options content :=
    openingStartText_of_written kind written
  have writes := printed _ (Page.yields_print_declaration (Annotate.shaped_of_annotate annotates) rfl children kind)
  rw [front, String.toList_ofList] at writes
  unfold printedDeclaration
  rwa [List.append_assoc (declarationFront options content)]

theorem isSkipped_of_declaresFirst (declares : DeclaresFirst (normalizeLineEndings source).toList before content after)
    (noRequirement : options.requirePragma = false) : isSkipped source options = false := by
  unfold isSkipped
  rw [isIn_of_declares .ignore declares, noRequirement]
  rfl

theorem exists_normalizeLineEndings_of_format
    (declares : DeclaresFirst (normalizeLineEndings source).toList before content after)
    (clean : '\r' ∉ printedDeclaration options content) (noRequirement : options.requirePragma = false)
    (noInsertion : options.insertPragma = false) (formatted : format source options = .ok output) :
    ∃ more, (normalizeLineEndings output).toList = printedDeclaration options content ++ more := by
  obtain ⟨annotated, doc, annotates, printed, rfl⟩ :=
    exists_rendered formatted (isSkipped_of_declaresFirst declares noRequirement)
  have writes := writesFirst_document declares annotates printed
  obtain ⟨front, same⟩ := printedDeclaration_eq_concat options content
  rw [same] at writes clean
  have cleanFront : '\r' ∉ front := fun member => clean (List.mem_append_left _ member)
  let ending := options.config.lineEnding.resolve source
  obtain ⟨more, rendered⟩ := Layout.toList_render_of_writesFirst writes (by decide) (by decide)
    { options.config with lineEnding := ending }
  refine ⟨normalizeChars more, ?_⟩
  dsimp only
  unfold normalizeLineEndings
  rw [noInsertion, Bool.false_and, if_neg Bool.false_ne_true, String.toList_ofList, rendered,
    Text.normalizeChars_append_cons (by decide), Text.normalizeChars_writtenChars _ cleanFront,
    Text.normalizeChars_cons (by decide), same, List.append_assoc]
  rfl

theorem return_not_mem_printedDeclaration (bytes : byteLength head = 7)
    (declares : DeclaresFirst (normalizeLineEndings source).toList before (head ++ tail) after) :
    '\r' ∉ printedDeclaration options (head ++ tail) := by
  have clean : '\r' ∉ reprinted options head tail :=
    not_mem_reprinted (return_not_mem_of_declares declares) (by decide) (by decide)
  rw [printedDeclaration_append bytes]
  unfold declarationText
  simp [clean]

/-- What a document that begins with a declaration is formatted as begins with the printed declaration. -/
theorem declaresFirst_of_format (declares : DeclaresFirst (normalizeLineEndings source).toList before (head ++ tail) after)
    (bytes : byteLength head = 7) (noRequirement : options.requirePragma = false)
    (noInsertion : options.insertPragma = false) (formatted : format source options = .ok output) :
    ∃ more, DeclaresFirst (normalizeLineEndings output).toList [] (reprinted options head tail) more := by
  obtain ⟨more, same⟩ := exists_normalizeLineEndings_of_format declares
    (return_not_mem_printedDeclaration bytes declares) noRequirement noInsertion formatted
  rw [printedDeclaration_append bytes] at same
  rw [same]
  exact ⟨more, declaresFirst_reprinted bytes declares more⟩

/-! ### Formatting twice -/

/-- A declaration ends at its first closing bracket. -/
theorem declaresFirst_inj {text other more : List Char} (declares : DeclaresFirst text [] content after)
    (again : DeclaresFirst text [] other more) : content = other := by
  have same : "<!".toList ++ content ++ ['>'] ++ after = "<!".toList ++ other ++ ['>'] ++ more :=
    declares.whole.symm.trans again.whole
  rw [List.append_assoc, List.append_assoc, List.append_assoc, List.append_assoc] at same
  have found := congrArg (Text.breakOn ['>']) (List.append_cancel_left same)
  rw [← List.append_assoc, ← List.append_assoc, Markup.breakOn_of_not_mem declares.closed,
    Markup.breakOn_of_not_mem again.closed] at found
  exact (Prod.mk.inj (Option.some.inj found)).1

/-- A document that begins with a declaration is left alone by formatting once it is formatted only if the declaration is
settled, or the document lacks the pragma that is required. -/
theorem isSettled_of_format_eq_self
    (declares : DeclaresFirst (normalizeLineEndings source).toList before (head ++ tail) after)
    (bytes : byteLength head = 7) (noInsertion : options.insertPragma = false)
    (formatted : format source options = .ok output) (again : format output options = .ok output) :
    options.requirePragma = true ∨ IsSettled options head tail := by
  refine or_iff_not_imp_left.mpr fun required => ?_
  have noRequirement : options.requirePragma = false := Bool.eq_false_iff.mpr required
  obtain ⟨more, first⟩ := declaresFirst_of_format declares bytes noRequirement noInsertion formatted
  have printed : byteLength (printedKeyword options head tail) = 7 := byteLength_printedKeyword bytes
  obtain ⟨rest, second⟩ := declaresFirst_of_format first printed noRequirement noInsertion again
  rw [← printedDeclaration_reprinted_iff bytes]
  show printedDeclaration options (printedKeyword options head tail ++ _) = _
  rw [printedDeclaration_append printed, declarationText_inj]
  exact declaresFirst_inj second first

/-- A document that begins with a declaration is left alone by formatting once it is formatted only if the declaration is
settled, or the document lacks the pragma that is required. If there is nothing else but white space, it is left alone
exactly then. The seven bytes in the place of the keyword are `head`. -/
theorem format_eq_self_of_declaresFirst
    (declares : DeclaresFirst (normalizeLineEndings source).toList before (head ++ tail) after)
    (bytes : byteLength head = 7) (noInsertion : options.insertPragma = false) :
    (∀ output, format source options = .ok output → format output options = .ok output →
      options.requirePragma = true ∨ IsSettled options head tail) ∧
    (after.all isMarkupSpace = true →
      byteLength (normalizeLineEndings source).toList + 9 ≤ Markup.maxSourceBytes →
      ∃ output, format source options = .ok output ∧
        (format output options = .ok output ↔ options.requirePragma = true ∨ IsSettled options head tail)) :=
  ⟨fun _ => isSettled_of_format_eq_self declares bytes noInsertion,
    fun blank small => format_eq_self_iff_of_declares (declares.declares blank) bytes small noInsertion⟩

/-- A section for one browser, alone. -/
def browserSection : String :=
  "<![if IE 8]>"

/-- The section before a paragraph. -/
def browserPage : String :=
  "<![if IE 8]><p>x</p>"

theorem declaresFirst_browserSection :
    DeclaresFirst (normalizeLineEndings browserSection).toList [] ("[if IE ".toList ++ "8]".toList) [] where
  whole := by decide
  blankBefore := rfl
  closed := by decide
  noComment := by decide
  noCdata := by decide

theorem declaresFirst_browserPage :
    DeclaresFirst (normalizeLineEndings browserPage).toList [] ("[if IE ".toList ++ "8]".toList) "<p>x</p>".toList where
  whole := by decide
  blankBefore := rfl
  closed := by decide
  noComment := by decide
  noCdata := by decide

theorem format_eq_self_of_declaresFirst_browser :
    (∃ output, format browserSection {} = .ok output ∧ format output {} ≠ .ok output) ∧
      ∃ output, format browserPage {} = .ok output ∧ format output {} ≠ .ok output := by
  have noInsertion : ({} : Options).insertPragma = false := rfl
  constructor
  · obtain ⟨output, formatted, settled⟩ :=
      (format_eq_self_of_declaresFirst declaresFirst_browserSection (by decide) noInsertion).2 rfl (by decide)
    exact ⟨output, formatted, fun again => absurd (settled.mp again) (by decide)⟩
  · have settled := (format_eq_self_of_declaresFirst declaresFirst_browserPage (by decide) noInsertion).1
    cases formatted : format browserPage {} with
    | ok output => exact ⟨output, rfl, fun again => absurd (settled output formatted again) (by decide)⟩
    | error failure =>
      have formats : (format browserPage {}).isOk = true := by decide +kernel
      rw [formatted] at formats
      cases formats

/-! ### The structure of what is printed -/

theorem kinds_of_sameStructure {tree other : Tree} {first first' : Markup.NodeId} {later later' : List Markup.NodeId}
    (nonempty : 0 < tree.size) (nonempty' : 0 < other.size) (children : tree.children Tree.rootId = first :: later)
    (children' : other.children Tree.rootId = first' :: later')
    (same : SameStructure true tree.toFragment other.toFragment) :
    ∃ flows, Annotate.SameKind flows (tree.kind first) (other.kind first') := by
  have shown := Tree.looks_toFragment nonempty Markup.NodeInfo.kind
  have shown' := Tree.looks_toFragment nonempty' Markup.NodeInfo.kind
  rw [children, List.map_cons] at shown
  rw [children', List.map_cons] at shown'
  generalize tree.toFragment = fragment at same shown
  generalize other.toFragment = fragment' at same shown'
  obtain ⟨info, nodes⟩ := fragment
  obtain ⟨info', nodes'⟩ := fragment'
  obtain ⟨⟨node, inner⟩, rest, rfl, isFirst, -⟩ := List.map_eq_cons_iff.mp shown
  obtain ⟨⟨node', inner'⟩, rest', rfl, isFirst', -⟩ := List.map_eq_cons_iff.mp shown'
  rw [SameStructure, Annotate.SameStructures, SameStructure] at same
  have here : Annotate.SameKind _ node.kind node'.kind := same.2.2.1.1
  have isFirst : node.kind = tree.kind first := isFirst
  have isFirst' : node'.kind = other.kind first' := isFirst'
  rw [isFirst, isFirst'] at here
  exact ⟨_, here⟩

/-- The tree of a document that begins with a declaration keeps its structure only if the declaration is a document type
or has white space in the place of the keyword, or the document lacks the pragma that is required. -/
theorem isKeyword_of_sameStructure {read reread : Annotate.Annotated}
    (declares : DeclaresFirst (normalizeLineEndings source).toList before (head ++ tail) after)
    (bytes : byteLength head = 7) (noInsertion : options.insertPragma = false)
    (formatted : format source options = .ok output) (annotates : annotate source options = .ok read)
    (annotatesAgain : annotate output options = .ok reread)
    (same : SameStructure true read.tree.toFragment reread.tree.toFragment) :
    options.requirePragma = true ∨ isKeyword head ∨ head.all isWhiteSpace = true := by
  refine or_iff_not_imp_left.mpr fun required => ?_
  have noRequirement : options.requirePragma = false := Bool.eq_false_iff.mpr required
  obtain ⟨more, first⟩ := declaresFirst_of_format declares bytes noRequirement noInsertion formatted
  obtain ⟨id, later, children, kind, -⟩ := Annotate.exists_declaration_of_annotate declares annotates
  obtain ⟨id', later', children', kind', -⟩ := Annotate.exists_declaration_of_annotate first annotatesAgain
  obtain ⟨flows, kinds⟩ := kinds_of_sameStructure (Annotate.shaped_of_annotate annotates).nonempty
    (Annotate.shaped_of_annotate annotatesAgain).nonempty children children' same
  rw [kind, kind'] at kinds
  have values : normalizeDoctype (String.ofList (doctypeValue (head ++ tail))).toList =
      normalizeDoctype (String.ofList (doctypeValue (reprinted options head tail))).toList := kinds
  rw [String.toList_ofList, String.toList_ofList] at values
  exact (normalizeDoctype_reprinted_iff bytes).mp values

/-- The tree of a document that begins with a declaration keeps its structure only if the declaration is a document type
or has white space in the place of the keyword, or the document lacks the pragma that is required. If there is nothing
else but white space, it keeps its structure exactly then. -/
theorem sameStructure_of_declaresFirst
    (declares : DeclaresFirst (normalizeLineEndings source).toList before (head ++ tail) after)
    (bytes : byteLength head = 7) (noInsertion : options.insertPragma = false) :
    (∀ output read reread, format source options = .ok output → annotate source options = .ok read →
      annotate output options = .ok reread → SameStructure true read.tree.toFragment reread.tree.toFragment →
      options.requirePragma = true ∨ isKeyword head ∨ head.all isWhiteSpace = true) ∧
    (after.all isMarkupSpace = true →
      byteLength (normalizeLineEndings source).toList + 9 ≤ Markup.maxSourceBytes →
      ∃ output read reread, format source options = .ok output ∧ annotate source options = .ok read ∧
        annotate output options = .ok reread ∧
        (SameStructure true read.tree.toFragment reread.tree.toFragment ↔
          options.requirePragma = true ∨ isKeyword head ∨ head.all isWhiteSpace = true)) :=
  ⟨fun _ _ _ => isKeyword_of_sameStructure declares bytes noInsertion,
    fun blank small => sameStructure_iff_of_declares (declares.declares blank) bytes small noInsertion⟩

theorem sameStructure_of_declaresFirst_browser :
    (∃ output read reread, format browserSection {} = .ok output ∧ annotate browserSection {} = .ok read ∧
      annotate output {} = .ok reread ∧ ¬SameStructure true read.tree.toFragment reread.tree.toFragment) ∧
    ∀ output read reread, format browserPage {} = .ok output → annotate browserPage {} = .ok read →
      annotate output {} = .ok reread → ¬SameStructure true read.tree.toFragment reread.tree.toFragment := by
  have noInsertion : ({} : Options).insertPragma = false := rfl
  constructor
  · obtain ⟨output, read, reread, formatted, annotates, annotatesAgain, keeps⟩ :=
      (sameStructure_of_declaresFirst declaresFirst_browserSection (by decide) noInsertion).2 rfl (by decide)
    exact ⟨output, read, reread, formatted, annotates, annotatesAgain, fun same => absurd (keeps.mp same) (by decide)⟩
  · have keeps := (sameStructure_of_declaresFirst declaresFirst_browserPage (by decide) noInsertion).1
    intro output read reread formatted annotates annotatesAgain same
    exact absurd (keeps output read reread formatted annotates annotatesAgain same) (by decide)

end MarkupFormat.Format
