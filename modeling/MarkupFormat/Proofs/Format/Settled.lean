import MarkupFormat.Proofs.Format.Declaration

/-!
# Formatting a declaration once more

Which declarations formatting leaves alone, and which of them it leaves the tree of.

Formatting takes the seven bytes after the opening of a declaration for the keyword of a document type
and puts the value of the declaration after them. For a document type the value does not hold the
keyword; for any other declaration it does, so these bytes are written once more every time, unless they
are white space. `format_eq_self_iff_of_declares` tells which declarations formatting leaves alone.

Two trees have the same structure if their nodes correspond, parents included, and agree in everything
but white space that does not show. For a declaration, `sameStructure_iff_of_declares` tells whether the
tree of what is printed has the structure of the tree it was printed from.
-/

namespace MarkupFormat.Annotate

open Markup (Attribute Fragment NodeKind doctypeValue)
open Print (normalizeDoctype)

/-! ### Trees of the same structure -/

/-- What has to stay of an attribute: its name, and its value however quotes are written in it. Classes
may be separated by any white space. -/
def attributeContent (attr : Attribute) : String × Option (List Char) :=
  (attr.rawName, attr.value.map fun written =>
    let value := Text.unescapeQuotes written.toList
    if attr.rawName = "class" then Text.collapse value else value)

/-- Whether two nodes are of one kind and say the same. The words of a text count only where text
flows. -/
def SameKind (flows : Bool) : NodeKind → NodeKind → Prop
  | .root, .root => True
  | .element element, .element other =>
    element.rawName = other.rawName ∧ element.condition = other.condition ∧
      element.attributes.map attributeContent = other.attributes.map attributeContent
  | .text value, .text other => flows = true → Text.words value.toList = Text.words other.toList
  | .comment value, .comment other => value = other
  | .cdata _, .cdata _ => True
  | .doctype value, .doctype other => normalizeDoctype value.toList = normalizeDoctype other.toList
  | .directive value, .directive other => value = other
  | .interpolation, .interpolation => True
  | .frontMatter _, .frontMatter _ => True
  | .conditional condition _, .conditional other _ => condition = other
  | .conditionalStart condition, .conditionalStart other => condition = other
  | .conditionalEnd, .conditionalEnd => True
  | _, _ => False

/-- Whether the same neighbours have white space between them, of those between which it shows. -/
def SameGaps : List Fragment → List Fragment → Prop
  | left :: right :: rest, left' :: right' :: rest' =>
    (left.info.flags.trailingSensitive = true ∨ right.info.flags.leadingSensitive = true →
      left.info.flags.trailingSpaces = left'.info.flags.trailingSpaces ∧
        right.info.flags.leadingSpaces = right'.info.flags.leadingSpaces) ∧
      SameGaps (right :: rest) (right' :: rest')
  | _, _ => True

mutual

/-- Whether two trees correspond node by node. -/
def SameStructure (flows : Bool) : Fragment → Fragment → Prop
  | .node info children, .node info' children' =>
    SameKind flows info.kind info'.kind ∧ SameGaps children children' ∧
      SameStructures (!isWhitespaceSensitive info.kind) children children'

/-- Whether the trees of two lists correspond node by node. -/
def SameStructures (flows : Bool) : List Fragment → List Fragment → Prop
  | [], [] => True
  | fragment :: rest, fragment' :: rest' =>
    SameStructure flows fragment fragment' ∧ SameStructures flows rest rest'
  | _, _ => False

end

/-- Of a declaration, only the normal form of its value has to stay. -/
theorem sameStructure_declarationTree_iff {source source' : String} {sensitivity : Format.Sensitivity}
    {before content after before' content' after' : List Char} :
    SameStructure true (declarationTree source sensitivity before content after).toFragment
        (declarationTree source' sensitivity before' content' after').toFragment ↔
      normalizeDoctype (doctypeValue content) = normalizeDoctype (doctypeValue content') := by
  unfold declarationTree
  rw [toFragment_single, toFragment_single]
  simp [SameStructure, SameStructures, SameGaps, SameKind, annotatedRoot, rootInfo, annotatedDeclaration,
    declarationInfo]

end MarkupFormat.Annotate

namespace MarkupFormat.Format

open Annotate (SameStructure annotate sameStructure_declarationTree_iff)
open Markup (Declares DeclaresFirst declarationText doctypeValue)
open Print (normalizeDoctype singleSpaces solid startsHtml)
open Text (byteLength isWhiteSpace)

/-! ### The bytes of a keyword -/

/-- The front of a text that begins with a needle of no more bytes begins with it as well. -/
theorem isPrefixOf_of_byteLength_le {needle front rest : List Char}
    (opens : needle.isPrefixOf (front ++ rest) = true) (shorter : byteLength needle ≤ byteLength front) :
    needle.isPrefixOf front = true := by
  rw [List.isPrefixOf_iff_prefix] at opens ⊢
  rcases List.prefix_or_prefix_of_prefix opens (List.prefix_append front rest) with inside | ⟨more, same⟩
  · exact inside
  · have bytes := congrArg byteLength same
    rw [Text.byteLength_append] at bytes
    have none : more = [] := Text.eq_nil_of_byteLength (by omega)
    rw [none, List.append_nil] at same
    exact same ▸ List.prefix_refl _

/-- Whether the bytes in the place of the keyword are the keyword. -/
def isKeyword (head : List Char) : Prop :=
  head.map Char.toLower = "doctype".toList

instance (head : List Char) : Decidable (isKeyword head) :=
  inferInstanceAs (Decidable (_ = _))

theorem length_of_isKeyword {head : List Char} (keyword : isKeyword head) : head.length = 7 := by
  have same := congrArg List.length keyword
  rwa [List.length_map] at same

theorem doctypeValue_append {head : List Char} (bytes : byteLength head = 7) (rest : List Char) :
    doctypeValue (head ++ rest) =
      if isKeyword head then rest.dropWhile isWhiteSpace else head ++ rest := by
  unfold doctypeValue
  by_cases keyword : isKeyword head
  · have seven := length_of_isKeyword keyword
    rw [List.take_left' seven, List.drop_left' seven, if_pos keyword]
    exact if_pos keyword
  · rw [if_neg keyword]
    refine if_neg fun lower => ?_
    have front := congrArg byteLength lower
    rw [Text.byteLength_map_toLower] at front
    obtain ⟨same, -⟩ := Text.append_inj_of_byteLength (List.take_append_drop 7 (head ++ rest))
      (front.trans bytes.symm)
    exact keyword (same ▸ lower)

/-! ### What is printed -/

variable {options : Options} {head tail : List Char}

/-- The keyword that is printed: that of an ordinary page, or the bytes in its place. -/
def printedKeyword (options : Options) (head tail : List Char) : List Char :=
  if doctypeValue (head ++ tail) = "html".toList ∧ options.isHtmlFile then "doctype".toList else head

/-- What a declaration holds once it is printed. -/
def reprinted (options : Options) (head tail : List Char) : List Char :=
  printedKeyword options head tail ++ ' ' :: normalizeDoctype (doctypeValue (head ++ tail))

theorem byteLength_printedKeyword (bytes : byteLength head = 7) :
    byteLength (printedKeyword options head tail) = 7 := by
  unfold printedKeyword
  split
  · decide
  · exact bytes

theorem printedDeclaration_append (bytes : byteLength head = 7) :
    printedDeclaration options (head ++ tail) = declarationText (reprinted options head tail) := by
  have nine : byteLength ("<!".toList ++ head) = Print.Page.declarationBytes := by
    rw [Text.byteLength_append, bytes]
    decide
  have written : declarationText (head ++ tail) = ("<!".toList ++ head) ++ (tail ++ ['>']) := by
    simp [declarationText]
  have cut : Text.splitBytes Print.Page.declarationBytes (declarationText (head ++ tail)) =
      some ("<!".toList ++ head, tail ++ ['>']) := by
    rw [written, ← nine]
    exact Text.splitBytes_byteLength _ _
  unfold printedDeclaration declarationFront reprinted printedKeyword
  rw [cut]
  split
  · simp [declarationText]
  · simp [declarationText]

theorem doctypeValue_suffix (content : List Char) : doctypeValue content <:+ content := by
  unfold doctypeValue
  split
  · exact (List.dropWhile_suffix _).trans (List.drop_suffix 7 content)
  · exact List.suffix_refl content

theorem not_mem_reprinted {c : Char} (absent : c ∉ head ++ tail) (noKeyword : c ∉ "doctype".toList)
    (noHtml : c ∉ "html ".toList) : c ∉ reprinted options head tail := by
  intro member
  unfold reprinted printedKeyword at member
  rcases List.mem_append.mp member with member | member
  · split at member
    · exact noKeyword member
    · exact absent (List.mem_append_left tail member)
  · rcases List.mem_cons.mp member with rfl | member
    · exact noHtml (by decide)
    · rcases Print.mem_normalizeDoctype member with member | member
      · exact noHtml member
      · exact absent ((doctypeValue_suffix _).subset member)

/-- What opens neither the keyword nor the declaration does not open what is printed. -/
theorem isPrefixOf_reprinted {needle : List Char} (bytes : byteLength head = 7)
    (short : byteLength needle ≤ 7) (noKeyword : needle.isPrefixOf "doctype".toList = false)
    (other : needle.isPrefixOf (head ++ tail) = false) :
    needle.isPrefixOf (reprinted options head tail) = false := by
  rw [Bool.eq_false_iff]
  intro opens
  have front := isPrefixOf_of_byteLength_le opens (by rw [byteLength_printedKeyword bytes]; exact short)
  unfold printedKeyword at front
  split at front
  · rw [noKeyword] at front
    cases front
  · have longer : needle.isPrefixOf (head ++ tail) = true := by
      rw [List.isPrefixOf_iff_prefix] at front ⊢
      exact front.trans (List.prefix_append head tail)
    rw [other] at longer
    cases longer

theorem declaresFirst_reprinted {source before after : List Char} (bytes : byteLength head = 7)
    (declares : DeclaresFirst source before (head ++ tail) after) (more : List Char) :
    DeclaresFirst (declarationText (reprinted options head tail) ++ more) [] (reprinted options head tail) more where
  whole := rfl
  blankBefore := rfl
  closed := not_mem_reprinted declares.closed (by decide) (by decide)
  noComment := isPrefixOf_reprinted bytes (by decide) (by decide) declares.noComment
  noCdata := isPrefixOf_reprinted bytes (by decide) (by decide) declares.noCdata

theorem declares_reprinted {source before after : List Char} (bytes : byteLength head = 7)
    (declares : DeclaresFirst source before (head ++ tail) after) :
    Declares (declarationText (reprinted options head tail) ++ ['\n']) [] (reprinted options head tail) ['\n'] :=
  (declaresFirst_reprinted bytes declares ['\n']).declares rfl

/-! ### Printing twice -/

/-- Whether formatting leaves a declaration alone that it has printed. A document type has to keep its
keyword, and the bytes in the place of a keyword have to be white space. -/
def IsSettled (options : Options) (head tail : List Char) : Prop :=
  if isKeyword head then
    normalizeDoctype (doctypeValue (head ++ tail)) = "html".toList → options.isHtmlFile = true →
      doctypeValue (head ++ tail) = "html".toList ∨ head = "doctype".toList
  else head.all isWhiteSpace = true

instance (options : Options) (head tail : List Char) : Decidable (IsSettled options head tail) :=
  inferInstanceAs (Decidable (ite _ _ _))

theorem isKeyword_of_ordinary (bytes : byteLength head = 7)
    (ordinary : doctypeValue (head ++ tail) = "html".toList) : isKeyword head := by
  by_cases keyword : isKeyword head
  · exact keyword
  · rw [doctypeValue_append bytes, if_neg keyword] at ordinary
    have size := congrArg byteLength ordinary
    have four : byteLength "html".toList = 4 := by decide
    rw [Text.byteLength_append, bytes, four] at size
    omega

theorem printedKeyword_of_not_isKeyword (bytes : byteLength head = 7) (other : ¬isKeyword head) :
    printedKeyword options head tail = head :=
  if_neg fun ordinary => other (isKeyword_of_ordinary bytes ordinary.1)

theorem isKeyword_printedKeyword (bytes : byteLength head = 7) :
    isKeyword (printedKeyword options head tail) ↔ isKeyword head := by
  unfold printedKeyword
  split
  · next ordinary =>
    constructor
    · exact fun _ => isKeyword_of_ordinary bytes ordinary.1
    · exact fun _ => by decide
  · exact Iff.rfl

theorem dropWhile_normalizeDoctype_value (bytes : byteLength head = 7) (keyword : isKeyword head) :
    (normalizeDoctype (doctypeValue (head ++ tail))).dropWhile isWhiteSpace =
      normalizeDoctype (doctypeValue (head ++ tail)) := by
  rw [doctypeValue_append bytes, if_pos keyword]
  apply Print.dropWhile_normalizeDoctype
  intro c member
  have first := List.head?_dropWhile_not isWhiteSpace tail
  rw [member] at first
  exact first

/-- The value of a printed declaration: the normal value of a document type, and everything that is
printed of any other declaration. -/
theorem doctypeValue_reprinted (bytes : byteLength head = 7) :
    doctypeValue (reprinted options head tail) =
      if isKeyword head then normalizeDoctype (doctypeValue (head ++ tail))
      else reprinted options head tail := by
  unfold reprinted
  rw [doctypeValue_append (byteLength_printedKeyword bytes)]
  by_cases keyword : isKeyword head
  · rw [if_pos ((isKeyword_printedKeyword bytes).mpr keyword), if_pos keyword,
      List.dropWhile_cons_of_pos (by decide), dropWhile_normalizeDoctype_value bytes keyword]
  · rw [if_neg fun printed => keyword ((isKeyword_printedKeyword bytes).mp printed), if_neg keyword]

/-- Bytes that are put before a declaration do not show once it is normal exactly if they are white
space. -/
theorem normalizeDoctype_append_iff (bytes : byteLength head = 7) :
    normalizeDoctype (head ++ ' ' :: normalizeDoctype (head ++ tail)) = normalizeDoctype (head ++ tail) ↔
      head.all isWhiteSpace = true := by
  constructor
  · intro same
    -- A normal value has as many characters that are no white space as the value has.
    have kept : (solid _).length = (solid _).length := congrArg (fun cs => (solid cs).length) same
    have space : solid (' ' :: normalizeDoctype (head ++ tail)) = solid (normalizeDoctype (head ++ tail)) :=
      List.filter_cons_of_neg (by decide)
    rw [Print.length_solid_normalizeDoctype, Print.solid_append, List.length_append, space] at kept
    rw [← Print.solid_eq_nil_iff, ← List.length_eq_zero_iff]
    omega
  · intro blank
    have nonempty : head ≠ [] := by
      rintro rfl
      cases bytes
    rw [Print.normalizeDoctype_of_space nonempty blank, Print.normalizeDoctype_of_space nonempty blank,
      Print.singleSpaces_space (by decide), if_pos rfl, Print.singleSpaces_space (by decide), if_pos rfl,
      Print.singleSpaces_singleSpaces]

theorem declarationText_inj {content other : List Char} :
    declarationText content = declarationText other ↔ content = other := by
  unfold declarationText
  rw [List.append_cancel_right_eq, List.append_cancel_left_eq]

theorem append_space_inj {first second rest more : List Char} (bytes : byteLength first = byteLength second) :
    first ++ ' ' :: rest = second ++ ' ' :: more ↔ first = second ∧ rest = more := by
  constructor
  · intro same
    obtain ⟨fronts, rests⟩ := Text.append_inj_of_byteLength same bytes
    exact ⟨fronts, (List.cons.inj rests).2⟩
  · rintro ⟨rfl, rfl⟩
    rfl

theorem printedKeyword_eq_keyword_iff :
    printedKeyword options head tail = "doctype".toList ↔
      (doctypeValue (head ++ tail) = "html".toList ∧ options.isHtmlFile = true) ∨
        head = "doctype".toList := by
  unfold printedKeyword
  split
  · next ordinary => exact ⟨fun _ => Or.inl ordinary, fun _ => rfl⟩
  · next other => exact ⟨Or.inr, fun known => known.resolve_left other⟩

theorem printedKeyword_eq_self_iff :
    printedKeyword options head tail = head ↔
      (doctypeValue (head ++ tail) = "html".toList → options.isHtmlFile = true →
        head = "doctype".toList) := by
  unfold printedKeyword
  split
  · next ordinary => exact ⟨fun same _ _ => same.symm, fun known => (known ordinary.1 ordinary.2).symm⟩
  · next other => exact ⟨fun _ value file => absurd ⟨value, file⟩ other, fun _ => rfl⟩

/-- A printed declaration is printed as it is exactly if it is settled. -/
theorem printedDeclaration_reprinted_iff (bytes : byteLength head = 7) :
    printedDeclaration options (reprinted options head tail) = declarationText (reprinted options head tail) ↔
      IsSettled options head tail := by
  have printed : byteLength (printedKeyword options head tail) = 7 := byteLength_printedKeyword bytes
  have value : doctypeValue (reprinted options head tail) = _ := doctypeValue_reprinted bytes
  have again : reprinted options head tail = printedKeyword options head tail ++
      ' ' :: normalizeDoctype (doctypeValue (head ++ tail)) := rfl
  rw [again] at value ⊢
  rw [printedDeclaration_append printed, declarationText_inj]
  unfold reprinted
  rw [append_space_inj ((byteLength_printedKeyword printed).trans printed.symm), printedKeyword_eq_self_iff,
    value]
  unfold IsSettled
  by_cases keyword : isKeyword head
  · rw [if_pos keyword, if_pos keyword, Print.normalizeDoctype_normalizeDoctype,
      printedKeyword_eq_keyword_iff]
    constructor
    · rintro ⟨known, _⟩ normal file
      exact (known normal file).imp_left And.left
    · intro settled
      refine ⟨fun normal file => (settled normal file).imp_left fun value => ⟨value, file⟩, rfl⟩
  · have kept : printedKeyword options head tail = head := printedKeyword_of_not_isKeyword bytes keyword
    -- With its first bytes in front, the value is too long for that of an ordinary page.
    have long : head ++ ' ' :: normalizeDoctype (doctypeValue (head ++ tail)) ≠ "html".toList := by
      intro same
      have size := congrArg byteLength same
      have four : byteLength "html".toList = 4 := by decide
      rw [Text.byteLength_append, bytes, four] at size
      omega
    rw [if_neg keyword, if_neg keyword, kept, doctypeValue_append bytes, if_neg keyword,
      ← normalizeDoctype_append_iff bytes]
    rw [doctypeValue_append bytes, if_neg keyword] at long
    exact ⟨And.right, fun same => ⟨fun value => absurd value long, same⟩⟩

/-! ### Formatting twice -/

/-- The line of a declaration. -/
def declarationLine (content : List Char) : String :=
  String.ofList (declarationText content ++ ['\n'])

variable {source : String} {before after : List Char}

theorem return_not_mem_declarationLine {content : List Char} (clean : '\r' ∉ content) :
    '\r' ∉ (declarationLine content).toList := by
  unfold declarationLine declarationText
  simp [clean]

theorem byteLength_declarationLine_le {source : List Char} (bytes : byteLength head = 7)
    (declares : Declares source before (head ++ tail) after) :
    byteLength (declarationLine (reprinted options head tail)).toList ≤ byteLength source + 9 := by
  have value := Text.byteLength_le_of_suffix (doctypeValue_suffix (head ++ tail))
  have normal := Print.byteLength_normalizeDoctype_le (doctypeValue (head ++ tail))
  have keyword : byteLength (printedKeyword options head tail) = 7 := byteLength_printedKeyword bytes
  have ascii : ('>').utf8Size = 1 ∧ ('\n').utf8Size = 1 ∧ (' ').utf8Size = 1 := by decide
  unfold declarationLine declarationText reprinted
  rw [declares.whole, String.toList_ofList]
  simp only [Text.byteLength_append, Text.byteLength_cons, Text.byteLength_nil] at value ⊢
  omega

/-- A source whose lines are ended alike declares nothing that ends a line otherwise. -/
theorem return_not_mem_of_declares {content : List Char}
    (declares : DeclaresFirst (Text.normalizeLineEndings source).toList before content after) :
    '\r' ∉ content := by
  have clean : '\r' ∉ (Text.normalizeLineEndings source).toList := by
    unfold Text.normalizeLineEndings
    rw [String.toList_ofList]
    exact Text.return_not_mem_normalizeChars _
  rw [declares.whole] at clean
  intro member
  exact clean (by simp [member])

/-- What a declaration is formatted as. -/
def declarationOutput (source : String) (options : Options) (head tail : List Char) : String :=
  Text.writeLineEndings (options.config.lineEnding.resolve source)
    (declarationLine (reprinted options head tail))

theorem return_not_mem_reprintedLine
    (declares : Declares (Text.normalizeLineEndings source).toList before (head ++ tail) after) :
    '\r' ∉ (declarationLine (reprinted options head tail)).toList :=
  return_not_mem_declarationLine
    (not_mem_reprinted (return_not_mem_of_declares declares.first) (by decide) (by decide))

theorem format_eq_declarationOutput
    (declares : Declares (Text.normalizeLineEndings source).toList before (head ++ tail) after)
    (bytes : byteLength head = 7)
    (small : byteLength (Text.normalizeLineEndings source).toList ≤ Markup.maxSourceBytes)
    (noRequirement : options.requirePragma = false) (noInsertion : options.insertPragma = false) :
    format source options = .ok (declarationOutput source options head tail) := by
  rw [format_of_declares declares small noRequirement noInsertion, printedDeclaration_append bytes]
  rfl

theorem normalizeLineEndings_declarationOutput
    (declares : Declares (Text.normalizeLineEndings source).toList before (head ++ tail) after) :
    Text.normalizeLineEndings (declarationOutput source options head tail) =
      declarationLine (reprinted options head tail) :=
  Text.normalizeLineEndings_writeLineEndings (return_not_mem_reprintedLine declares)

/-- A declaration is formatted as a source that holds a declaration again. -/
theorem declares_declarationOutput
    (declares : Declares (Text.normalizeLineEndings source).toList before (head ++ tail) after)
    (bytes : byteLength head = 7) :
    Declares (Text.normalizeLineEndings (declarationOutput source options head tail)).toList []
      (reprinted options head tail) ['\n'] := by
  rw [normalizeLineEndings_declarationOutput declares]
  exact String.toList_ofList ▸ declares_reprinted bytes declares.first

theorem byteLength_declarationOutput_le
    (declares : Declares (Text.normalizeLineEndings source).toList before (head ++ tail) after)
    (bytes : byteLength head = 7) :
    byteLength (Text.normalizeLineEndings (declarationOutput source options head tail)).toList ≤
      byteLength (Text.normalizeLineEndings source).toList + 9 := by
  rw [normalizeLineEndings_declarationOutput declares]
  exact byteLength_declarationLine_le bytes declares

theorem format_declarationOutput
    (declares : Declares (Text.normalizeLineEndings source).toList before (head ++ tail) after)
    (bytes : byteLength head = 7)
    (small : byteLength (Text.normalizeLineEndings source).toList + 9 ≤ Markup.maxSourceBytes)
    (noRequirement : options.requirePragma = false) (noInsertion : options.insertPragma = false) :
    format (declarationOutput source options head tail) options =
      .ok (declarationOutput (declarationOutput source options head tail) options
        (printedKeyword options head tail) (' ' :: normalizeDoctype (doctypeValue (head ++ tail)))) := by
  have longer : byteLength
      (Text.normalizeLineEndings (declarationOutput source options head tail)).toList ≤ _ :=
    byteLength_declarationOutput_le declares bytes
  exact format_eq_declarationOutput (declares_declarationOutput declares bytes)
    (byteLength_printedKeyword bytes) (by omega) noRequirement noInsertion

theorem declarationOutput_eq_self_iff
    (declares : Declares (Text.normalizeLineEndings source).toList before (head ++ tail) after)
    (bytes : byteLength head = 7) :
    declarationOutput (declarationOutput source options head tail) options
        (printedKeyword options head tail) (' ' :: normalizeDoctype (doctypeValue (head ++ tail))) =
      declarationOutput source options head tail ↔ IsSettled options head tail := by
  let keyword := printedKeyword options head tail
  let value := ' ' :: normalizeDoctype (doctypeValue (head ++ tail))
  let first := declarationOutput source options head tail
  have again : Declares (Text.normalizeLineEndings first).toList [] (keyword ++ value) ['\n'] :=
    declares_declarationOutput declares bytes
  have clean : '\r' ∉ (declarationLine (reprinted options head tail)).toList :=
    return_not_mem_reprintedLine declares
  have cleanAgain : '\r' ∉ (declarationLine (reprinted options keyword value)).toList :=
    return_not_mem_reprintedLine again
  have ends : '\n' ∈ (declarationLine (reprinted options head tail)).toList := by simp [declarationLine]
  have sameEnding : options.config.lineEnding.resolve first = options.config.lineEnding.resolve source :=
    Text.resolve_writeLineEndings clean ends
  have sameOutput : declarationOutput first options keyword value = first ↔
      declarationLine (reprinted options keyword value) =
        declarationLine (reprinted options head tail) := by
    unfold declarationOutput
    rw [sameEnding]
    exact Text.writeLineEndings_inj cleanAgain clean
  have printed : printedDeclaration options (reprinted options head tail) = _ :=
    printedDeclaration_append (byteLength_printedKeyword bytes)
  rw [sameOutput, ← printedDeclaration_reprinted_iff bytes, printed]
  unfold declarationLine
  rw [← String.toList_inj, String.toList_ofList, String.toList_ofList, List.append_cancel_right_eq]

/-- A declaration is left alone by formatting once it is formatted, exactly if it is settled or lacks the
pragma that is required. The seven bytes in the place of its keyword are `head`. -/
theorem format_eq_self_iff_of_declares
    (declares : Declares (Text.normalizeLineEndings source).toList before (head ++ tail) after)
    (bytes : byteLength head = 7)
    (small : byteLength (Text.normalizeLineEndings source).toList + 9 ≤ Markup.maxSourceBytes)
    (noInsertion : options.insertPragma = false) :
    ∃ output, format source options = .ok output ∧
      (format output options = .ok output ↔ options.requirePragma = true ∨ IsSettled options head tail) := by
  by_cases required : options.requirePragma = true
  · have left := format_of_requirePragma declares.first required
    exact ⟨source, left, fun _ => Or.inl required, fun _ => left⟩
  · have noRequirement : options.requirePragma = false := Bool.eq_false_iff.mpr required
    refine ⟨_, format_eq_declarationOutput declares bytes (by omega) noRequirement noInsertion, ?_⟩
    rw [format_declarationOutput declares bytes small noRequirement noInsertion, Except.ok.injEq,
      or_iff_right required]
    exact declarationOutput_eq_self_iff declares bytes

/-! ### The structure of what is printed -/

/-- The value of a printed declaration is the value it was printed from, up to its normal form, only if
the keyword is not printed with it. -/
theorem normalizeDoctype_reprinted_iff (bytes : byteLength head = 7) :
    normalizeDoctype (doctypeValue (head ++ tail)) =
        normalizeDoctype (doctypeValue (reprinted options head tail)) ↔
      isKeyword head ∨ head.all isWhiteSpace = true := by
  rw [doctypeValue_reprinted bytes]
  by_cases keyword : isKeyword head
  · rw [if_pos keyword, Print.normalizeDoctype_normalizeDoctype]
    exact ⟨fun _ => Or.inl keyword, fun _ => rfl⟩
  · have kept : printedKeyword options head tail = head := printedKeyword_of_not_isKeyword bytes keyword
    rw [if_neg keyword, or_iff_right keyword, ← normalizeDoctype_append_iff bytes]
    unfold reprinted
    rw [kept, doctypeValue_append bytes, if_neg keyword]
    exact eq_comm

/-- Formatting keeps the structure of a declaration exactly if it is a document type, has white space in
the place of the keyword, or lacks the pragma that is required. -/
theorem sameStructure_iff_of_declares
    (declares : Declares (Text.normalizeLineEndings source).toList before (head ++ tail) after)
    (bytes : byteLength head = 7)
    (small : byteLength (Text.normalizeLineEndings source).toList + 9 ≤ Markup.maxSourceBytes)
    (noInsertion : options.insertPragma = false) :
    ∃ output read reread, format source options = .ok output ∧ annotate source options = .ok read ∧
      annotate output options = .ok reread ∧
      (SameStructure true read.tree.toFragment reread.tree.toFragment ↔
        options.requirePragma = true ∨ isKeyword head ∨ head.all isWhiteSpace = true) := by
  obtain ⟨read, annotates, tree⟩ := annotate_of_declares declares (by omega)
  by_cases required : options.requirePragma = true
  · have left := format_of_requirePragma declares.first required
    refine ⟨source, read, read, left, annotates, annotates, fun _ => Or.inl required, fun _ => ?_⟩
    rw [tree, sameStructure_declarationTree_iff]
  · have noRequirement : options.requirePragma = false := Bool.eq_false_iff.mpr required
    have formatted := format_eq_declarationOutput declares bytes (by omega) noRequirement noInsertion
    let printed := declarationOutput source options head tail
    have again : Declares (Text.normalizeLineEndings printed).toList [] (reprinted options head tail)
        ['\n'] := declares_declarationOutput declares bytes
    have longer : byteLength (Text.normalizeLineEndings printed).toList ≤ _ :=
      byteLength_declarationOutput_le declares bytes
    obtain ⟨reread, annotatesAgain, treeAgain⟩ := annotate_of_declares again (by omega)
    refine ⟨_, read, reread, formatted, annotates, annotatesAgain, ?_⟩
    rw [or_iff_right required, tree, treeAgain, sameStructure_declarationTree_iff]
    exact normalizeDoctype_reprinted_iff bytes

end MarkupFormat.Format
