import MarkupFormat.Proofs.Markup.LocalRule
import MarkupFormat.Proofs.Markup.Losslessness
import MarkupFormat.Proofs.Text.Characters

/-!
# Texts are read from the source

What nodes hold of a source is made up of its characters (`textsIn_of_readSource`): no text of a node has a character
that is not of a kind (`NodeKind.TextsIn`). A reader only takes characters from its cursor, one lemma for each of them;
the open elements keep what they were given. Only the words of a condition and the lines of front matter are put
together again, with a space and with line feeds.
-/

namespace MarkupFormat.Markup

open Text (Admits Within)

variable {p : Char → Prop} {cursor next : Cursor}

/-! ### The texts of nodes -/

/-- The texts of an attribute. -/
def Attribute.texts (attr : Attribute) : List String :=
  attr.rawName :: attr.value.toList

def Element.texts (element : Element) : List String :=
  element.name :: (element.ns.toList ++ element.condition.toList ++ element.attributes.flatMap Attribute.texts)

def FrontMatter.texts (block : FrontMatter) : List String :=
  [block.value, block.raw, block.startDelimiter, block.endDelimiter, block.explicitLanguage]

/-- The texts that a node of a kind holds. -/
def NodeKind.texts : NodeKind → List String
  | element e => e.texts
  | text value | comment value | cdata value | doctype value | directive value => [value]
  | frontMatter block => block.texts
  | conditional condition _ | conditionalStart condition => [condition]
  | root | interpolation | conditionalEnd => []

/-- The texts of an attribute are made up of some characters. -/
abbrev Attribute.TextsIn (p : Char → Prop) (attr : Attribute) : Prop :=
  ∀ text ∈ attr.texts, Within p text.toList

abbrev Element.TextsIn (p : Char → Prop) (element : Element) : Prop :=
  ∀ text ∈ element.texts, Within p text.toList

abbrev FrontMatter.TextsIn (p : Char → Prop) (block : FrontMatter) : Prop :=
  ∀ text ∈ block.texts, Within p text.toList

/-- The texts of a node of a kind are made up of some characters. -/
abbrev NodeKind.TextsIn (p : Char → Prop) (kind : NodeKind) : Prop :=
  ∀ text ∈ kind.texts, Within p text.toList

theorem Attribute.textsIn_iff {attr : Attribute} :
    attr.TextsIn p ↔ Within p attr.rawName.toList ∧ ∀ value, attr.value = some value → Within p value.toList := by
  unfold TextsIn texts
  rw [List.forall_mem_cons]
  simp only [Option.mem_toList]

theorem Element.textsIn_iff {element : Element} :
    element.TextsIn p ↔ Within p element.name.toList ∧ (∀ ns, element.ns = some ns → Within p ns.toList) ∧
      (∀ condition, element.condition = some condition → Within p condition.toList) ∧
      ∀ attr ∈ element.attributes, attr.TextsIn p := by
  unfold TextsIn texts
  rw [List.forall_mem_cons, List.forall_mem_append, List.forall_mem_append, and_assoc]
  simp only [Option.mem_toList, List.mem_flatMap, forall_exists_index, and_imp]
  constructor
  · rintro ⟨name, ns, condition, attributes⟩
    exact ⟨name, ns, condition, fun attr member text isText => attributes text attr member isText⟩
  · rintro ⟨name, ns, condition, attributes⟩
    exact ⟨name, ns, condition, fun text attr member isText => attributes attr member text isText⟩

/-- The name of an element as it is printed. -/
theorem Element.within_rawName {element : Element} (admits : Admits p) (texts : element.TextsIn p) :
    Within p element.rawName.toList := by
  obtain ⟨name, ns, _⟩ := Element.textsIn_iff.mp texts
  unfold rawName
  split
  · unfold fullName
    split
    · next qualifier same =>
      have colon : Within p ":".toList := Text.within_of_clean admits (by decide)
      exact Text.within_string_append (Text.within_string_append (ns qualifier same) colon) name
    · exact name
  · exact name

/-! ### Lexemes -/

theorem Cursor.Reaches.within (reached : cursor.Reaches next) (within : Within p cursor.rest) :
    Within p next.rest := by
  obtain ⟨taken, same, _⟩ := reached
  rw [same] at within
  exact (List.forall_mem_append.mp within).2

/-- The parts of a tag name are made up of some characters. -/
structure TagName.TextsIn (p : Char → Prop) (name : TagName) : Prop where
  localName : Within p name.name.toList
  qualifier : ∀ qualifier, name.qualifier = some qualifier → Within p qualifier.toList

theorem textsIn_ofChars {cs : List Char} (within : Within p cs) : (TagName.ofChars cs).TextsIn p := by
  have whole := Text.within_ofList within
  unfold TagName.ofChars
  dsimp only
  split
  · next qualifier name found =>
    obtain ⟨before, after⟩ := Text.subset_of_breakOn found
    split
    · refine ⟨Text.within_ofList (within.subset after), ?_⟩
      rintro _ ⟨⟩
      exact Text.within_ofList (within.subset before)
    · exact ⟨whole, nofun⟩
  · exact ⟨whole, nofun⟩

theorem textsIn_readTagName (within : Within p cursor.rest) : (readTagName cursor).1.TextsIn p :=
  textsIn_ofChars (within.subset (List.takeWhile_subset _))

theorem within_readValue (within : Within p cursor.rest) : Within p (readValue cursor).1.toList := by
  unfold readValue
  split
  · next cs same =>
    rw [same] at within
    have after : Within p cs := (List.forall_mem_cons.mp within).2
    exact Text.within_ofList (after.subset (Text.scan_subset (atChar '"') cs).1)
  · next cs same =>
    rw [same] at within
    have after : Within p cs := (List.forall_mem_cons.mp within).2
    exact Text.within_ofList (after.subset (Text.scan_subset (atChar '\'') cs).1)
  · exact Text.within_ofList (within.subset (Text.scan_subset atBoundary cursor.rest).1)

theorem textsIn_readSingle (within : Within p cursor.rest) : (readSingle cursor).1.TextsIn p := by
  unfold readSingle
  split
  · next block rest found =>
    refine Attribute.textsIn_iff.mpr ⟨?_, nofun⟩
    exact Text.within_ofList (within.subset (Text.subset_of_templateBlock? found).1)
  · have scanned := Text.scan_subset atNameEnd cursor.rest
    have name := Text.within_ofList (within.subset scanned.1)
    dsimp only
    split
    · next after same =>
      refine Attribute.textsIn_iff.mpr ⟨name, ?_⟩
      rintro _ ⟨⟩
      have named : Within p (Text.scan atNameEnd cursor.rest).2 := within.subset scanned.2
      have spaced : Within p (cursor.skip (Text.scan atNameEnd cursor.rest).1 _).skipSpace.rest :=
        (Cursor.reaches_skipSpace _).within named
      rw [same] at spaced
      exact within_readValue ((Cursor.reaches_skipSpace _).within (List.forall_mem_cons.mp spaced).2)
    · exact Attribute.textsIn_iff.mpr ⟨name, nofun⟩

theorem textsIn_readAttribute (within : Within p cursor.rest) : (readAttribute cursor).1.TextsIn p := by
  have single := textsIn_readSingle within
  unfold readAttribute
  dsimp only
  split
  · have taken : Within p (cursor.textTo (readSingle cursor).2) := within.subset (List.take_subset _ _)
    have left := (reaches_readSingle cursor).within within
    have glued : Within p (gluedRun (readSingle cursor).2.rest).1 := by
      rw [← gluedRun_append (readSingle cursor).2.rest] at left
      exact (List.forall_mem_append.mp left).1
    exact Attribute.textsIn_iff.mpr ⟨Text.within_ofList (Text.within_append taken glued), nofun⟩
  · exact single

theorem textsIn_readAttributes {inside : Construct} {attributes : List Attribute} {selfClosing : Bool}
    (within : Within p cursor.rest) (read : readAttributes inside cursor = .ok (attributes, selfClosing, next)) :
    ∀ attr ∈ attributes, attr.TextsIn p := by
  have spaced (cursor : Cursor) (within : Within p cursor.rest) : Within p cursor.skipSpace.rest :=
    (Cursor.reaches_skipSpace cursor).within within
  fun_induction readAttributes inside cursor generalizing attributes selfClosing next with
  | case1 => cases read; exact fun _ member => absurd member List.not_mem_nil
  | case2 => cases read; exact fun _ member => absurd member List.not_mem_nil
  | case3 cursor =>
    rename_i same ih
    have left := spaced cursor within
    rw [show cursor.skipSpace.rest = '/' :: _ from same] at left
    exact ih (List.forall_mem_cons.mp left).2 read
  | case4 => cases read
  | case5 cursor =>
    rename_i found _ _ _ ih
    cases read
    have here := spaced cursor within
    exact List.forall_mem_cons.mpr ⟨textsIn_readAttribute here,
      ih ((reaches_readAttribute _).within here) found⟩
  | case6 => cases read

/-- What a start tag says is made up of some characters. -/
structure StartTag.TextsIn (p : Char → Prop) (tag : StartTag) : Prop where
  name : tag.name.TextsIn p
  attributes : ∀ attr ∈ tag.attributes, attr.TextsIn p

theorem textsIn_readStartTag {tag : StartTag} (within : Within p cursor.rest)
    (read : readStartTag cursor = .ok (tag, next)) : tag.TextsIn p := by
  have opened : Within p (cursor.rest.drop 1) := within.subset (List.drop_subset _ _)
  unfold readStartTag at read
  dsimp only [bind, Except.bind] at read
  split at read
  · cases read
  · next found =>
    cases read
    refine ⟨textsIn_readTagName opened, ?_⟩
    exact textsIn_readAttributes ((reaches_readTagName (cursor.skip ['<'] (cursor.rest.drop 1))).within opened) found

theorem within_readEndTag {tag : EndTag} (within : Within p cursor.rest)
    (read : readEndTag cursor = .ok (tag, next)) : Within p next.rest := by
  have opened : Within p (cursor.rest.drop 2) := within.subset (List.drop_subset _ _)
  unfold readEndTag at read
  dsimp only at read
  split at read
  · next rest same =>
    cases read
    have named := (reaches_readTagName (cursor.skip ['<', '/'] (cursor.rest.drop 2))).within opened
    have spaced := (Cursor.reaches_skipSpace _).within named
    rw [same] at spaced
    exact (List.forall_mem_cons.mp spaced).2
  · cases read

/-- What a lexeme holds is made up of some characters. -/
def Lexeme.TextsIn (p : Char → Prop) : Lexeme → Prop
  | text value _ | comment value _ | cdata value _ | doctype value _ | directive value _ => Within p value
  | startTag tag => tag.TextsIn p
  | endTag _ | componentEnd _ => True

theorem doctypeValue_subset (content : List Char) : doctypeValue content ⊆ content := by
  unfold doctypeValue
  split
  · exact fun _ member => List.drop_subset _ _ (List.dropWhile_subset _ member)
  · exact List.Subset.refl _

theorem directiveValue_subset (content : List Char) : directiveValue content ⊆ content := by
  unfold directiveValue
  split
  · exact List.dropLast_subset content
  · exact List.Subset.refl _

theorem within_readDelimited {opening closing value : List Char} {inside : Construct} {span : Span}
    (within : Within p cursor.rest) (read : readDelimited opening closing inside cursor = .ok (value, span, next)) :
    Within p value := by
  unfold readDelimited at read
  split at read
  · next found =>
    cases read
    exact within.subset (List.Subset.trans (Text.subset_of_breakOn found).1 (List.drop_subset _ _))
  · cases read

theorem textsIn_readLexeme {options : ParseOptions} {lexeme : Lexeme} (within : Within p cursor.rest)
    (read : readLexeme options cursor = .ok (lexeme, next)) : lexeme.TextsIn p := by
  unfold readLexeme at read
  dsimp only at read
  split at read
  · cases read
    exact within.subset (Text.scan_subset _ _).1
  · split at read
    · obtain ⟨⟨value, span, after⟩, found, same⟩ := exists_ok_of_map read
      cases same
      exact within_readDelimited within found
    · split at read
      · obtain ⟨⟨value, span, after⟩, found, same⟩ := exists_ok_of_map read
        cases same
        exact within_readDelimited within found
      · split at read
        · obtain ⟨⟨value, span, after⟩, found, same⟩ := exists_ok_of_map read
          cases same
          exact (within_readDelimited within found).subset (doctypeValue_subset value)
        · split at read
          · obtain ⟨⟨value, span, after⟩, found, same⟩ := exists_ok_of_map read
            cases same
            exact (within_readDelimited within found).subset (directiveValue_subset value)
          · split at read
            · cases read
              exact trivial
            · split at read
              · obtain ⟨_, _, same⟩ := exists_ok_of_map read
                cases same
                exact trivial
              · obtain ⟨_, found, same⟩ := exists_ok_of_map read
                cases same
                exact textsIn_readStartTag within found

/-! ### Open elements -/

/-- The texts of all nodes of a tree are made up of some characters. -/
abbrev Fragment.TextsIn (p : Char → Prop) (fragment : Fragment) : Prop :=
  fragment.Follows NodeInfo.kind fun kind _ => kind.TextsIn p

theorem Fragment.textsIn_leaf {kind : NodeKind} {span : Span} (texts : kind.TextsIn p) :
    (Fragment.leaf kind span).TextsIn p :=
  Fragment.follows_leaf.mpr texts

theorem NodeKind.textsIn_singleton {kind : NodeKind} {value : String} (only : kind.texts = [value])
    (within : Within p value.toList) : kind.TextsIn p := by
  unfold TextsIn
  rw [only]
  exact List.forall_mem_singleton.mpr within

theorem textsIn_textLeaf {cs : List Char} {span : Span} (within : Within p cs) :
    (Fragment.leaf (.text (String.ofList cs)) span).TextsIn p :=
  Fragment.textsIn_leaf (NodeKind.textsIn_singleton rfl (Text.within_ofList within))

theorem implicitNamespace_mem (name : String) :
    ∀ ns, (Tag.ofName name).implicitNamespace = some ns → ns ∈ ["svg", "math"] := by
  unfold Tag.ofName
  split <;> intro ns same <;> cases same <;> decide

namespace OpenElements

/-- The texts of all open elements and of all nodes inside of them and outside are made up of some characters. -/
structure TextsIn (p : Char → Prop) (opened : OpenElements) : Prop where
  nodes : ∀ node ∈ opened.nodes, node.TextsIn p
  stack : ∀ element ∈ opened.stack, element.element.TextsIn p ∧ ∀ child ∈ element.children, child.TextsIn p

variable {opened after : OpenElements}

theorem textsIn_empty : TextsIn p {} :=
  ⟨fun _ member => absurd member List.not_mem_nil, fun _ member => absurd member List.not_mem_nil⟩

theorem textsIn_add {node : Fragment} (texts : opened.TextsIn p) (here : node.TextsIn p) :
    (opened.add node).TextsIn p := by
  unfold add
  split
  · exact ⟨List.forall_mem_cons.mpr ⟨here, texts.nodes⟩, texts.stack⟩
  · next innermost outer same =>
    have stack := texts.stack
    rw [same] at stack
    obtain ⟨⟨element, children⟩, others⟩ := List.forall_mem_cons.mp stack
    exact ⟨texts.nodes, List.forall_mem_cons.mpr ⟨⟨element, List.forall_mem_cons.mpr ⟨here, children⟩⟩, others⟩⟩

theorem textsIn_close (texts : opened.TextsIn p) (endSpan : Option Span) : (opened.close endSpan).TextsIn p := by
  unfold close
  split
  · exact texts
  · next innermost outer same =>
    have stack := texts.stack
    rw [same] at stack
    obtain ⟨⟨element, children⟩, others⟩ := List.forall_mem_cons.mp stack
    have around : TextsIn p { opened with stack := outer } := ⟨texts.nodes, others⟩
    refine textsIn_add around (Fragment.follows_node.mpr ⟨element, fun child member => ?_⟩)
    exact children child (List.mem_reverse.mp member)

theorem textsIn_finish (texts : opened.TextsIn p) : ∀ node ∈ opened.finish, node.TextsIn p := by
  have closed := closeAll_keeps (motive := TextsIn p) texts fun texts => textsIn_close texts none
  exact fun node member => closed.nodes node (List.mem_reverse.mp member)

theorem textsIn_closeNamed? {name : String} {ns : Option String} {endSpan : Span} (texts : opened.TextsIn p)
    (closed : opened.closeNamed? name ns endSpan = some after) : after.TextsIn p :=
  closeNamed?_keeps (motive := TextsIn p) texts (fun texts => textsIn_close texts none)
    (fun texts => textsIn_close texts _) closed

theorem within_namespaceOf {name : TagName} {ns : String} (admits : Text.Admits p) (texts : opened.TextsIn p)
    (written : name.TextsIn p) (same : (opened.namespaceOf name).1 = some ns) : Within p ns.toList := by
  unfold namespaceOf TagName.namespaceIn at same
  split at same
  · next qualifier isQualifier =>
    cases same
    exact written.qualifier _ isQualifier
  · split at same
    · next implied isImplied =>
      cases same
      have known := implicitNamespace_mem name.name ns isImplied
      refine Text.within_of_clean admits ?_
      rcases List.mem_cons.mp known with rfl | known
      · decide
      · rw [List.mem_singleton.mp known]
        decide
    · split at same
      · next parent innermost =>
        dsimp only at same
        split at same
        · cases same
        · obtain ⟨element, isFirst, rfl⟩ := Option.map_eq_some_iff.mp innermost
          have parentTexts := (texts.stack element (List.mem_of_head? isFirst)).1
          exact (Element.textsIn_iff.mp parentTexts).2.1 ns same
      · cases same

theorem textsIn_startElement {tag : StartTag} {element : Element} (texts : opened.TextsIn p)
    (here : element.TextsIn p) : (opened.startElement tag element).1.TextsIn p := by
  unfold startElement
  split
  · exact textsIn_add texts (Fragment.follows_node.mpr ⟨here, fun child member => absurd member List.not_mem_nil⟩)
  · have alone : ∀ child ∈ ([] : List Fragment), child.TextsIn p := fun child member => absurd member List.not_mem_nil
    exact ⟨texts.nodes, List.forall_mem_cons.mpr ⟨⟨here, alone⟩, texts.stack⟩⟩

theorem textsIn_startTag {tag : StartTag} (admits : Text.Admits p) (texts : opened.TextsIn p)
    (written : tag.TextsIn p) : (opened.startTag tag).1.TextsIn p := by
  have element : (tag.elementIn opened.innermost?).TextsIn p :=
    Element.textsIn_iff.mpr ⟨written.name.localName, fun ns same => within_namespaceOf admits texts written.name same,
      nofun, written.attributes⟩
  have ended := endedBy_keeps (motive := TextsIn p) texts (textsIn_close texts none)
  rw [startTag_eq_startElement]
  exact textsIn_startElement (ended tag.name.name) element

end OpenElements

/-! ### Content -/

variable {opened after : OpenElements}

theorem textsIn_readElement {tag : StartTag} (admits : Text.Admits p) (texts : opened.TextsIn p)
    (written : tag.TextsIn p) (within : Within p cursor.rest)
    (found : readElement opened tag cursor = .ok (after, next)) :
    after.TextsIn p ∧ Within p next.rest := by
  have started := OpenElements.textsIn_startTag admits texts written
  unfold readElement at found
  split at found
  · next inner same =>
    rw [same] at started
    unfold readRawContent at found
    dsimp only at found
    rw [← readRaw_append tag.name.name.toList cursor.rest] at within
    obtain ⟨value, rest⟩ := List.forall_mem_append.mp within
    have raw : (if (readRaw tag.name.name.toList cursor.rest).1 = [] then inner
        else inner.add (.leaf (.text (String.ofList (readRaw tag.name.name.toList cursor.rest).1))
          (cursor.spanTo (cursor.skip (readRaw tag.name.name.toList cursor.rest).1
            (readRaw tag.name.name.toList cursor.rest).2)))).TextsIn p := by
      split
      · exact started
      · exact OpenElements.textsIn_add started (textsIn_textLeaf value)
    split at found
    · cases found
      exact ⟨raw, rest⟩
    · obtain ⟨⟨tag, last⟩, read, same⟩ := exists_ok_of_map found
      cases same
      exact ⟨OpenElements.textsIn_close raw _, within_readEndTag rest read⟩
  · next inner same =>
    rw [same] at started
    cases found
    exact ⟨started, within⟩

theorem textsIn_follow {lexeme : Lexeme} (texts : opened.TextsIn p) (written : lexeme.TextsIn p)
    (followed : opened.follow lexeme = .ok after) : after.TextsIn p := by
  cases lexeme with
  | text value | cdata value | doctype value | directive value =>
    cases followed
    refine OpenElements.textsIn_add texts (Fragment.textsIn_leaf ?_)
    exact NodeKind.textsIn_singleton rfl (Text.within_ofList written)
  | endTag tag =>
    change opened.endTag tag = .ok after at followed
    unfold OpenElements.endTag at followed
    split at followed
    · cases followed
    · split at followed
      · next closed =>
        cases followed
        exact OpenElements.textsIn_closeNamed? texts closed
      · cases followed
  | componentEnd span =>
    change opened.componentEnd span = .ok after at followed
    unfold OpenElements.componentEnd at followed
    split at followed
    · cases followed
    · cases followed
      exact OpenElements.textsIn_close texts _
  | startTag | comment =>
    cases followed
    exact texts

namespace ConditionalComment

theorem subset_of_beforeEndMark? {cs inner : List Char} (found : beforeEndMark? cs = some inner) : inner ⊆ cs := by
  induction cs generalizing inner with
  | nil =>
    unfold beforeEndMark? at found
    split at found
    · cases found
      exact List.nil_subset _
    · cases found
  | cons c cs ih =>
    unfold beforeEndMark? at found
    split at found
    · cases found
      exact List.nil_subset _
    · obtain ⟨rest, later, same⟩ := Option.map_eq_some_iff.mp found
      cases same
      exact List.cons_subset_cons c (ih later)

/-- The texts of a conditional comment are those of its value. -/
def TextsIn (p : Char → Prop) : ConditionalComment → Prop
  | block condition _ body => Within p condition.toList ∧ Within p body
  | start condition => Within p condition.toList
  | finish => True

theorem textsIn_classify? {value : List Char} {comment : ConditionalComment} (admits : Admits p)
    (within : Within p value) (found : classify? value = some comment) : comment.TextsIn p := by
  unfold classify? at found
  split at found
  · cases found
    exact trivial
  · simp only [Option.bind_eq_bind, Option.bind_eq_some_iff] at found
    obtain ⟨⟨condition, rest⟩, opened, body, closed, found⟩ := found
    unfold condition? at opened
    simp only [Option.bind_eq_bind, Option.bind_eq_some_iff] at opened
    obtain ⟨afterIf, starts, broken⟩ := opened
    have inside := within.subset (Text.subset_of_dropPrefix? starts)
    have parts := Text.subset_of_breakOn broken
    have normal := within_normalizeCondition (admits _ (by decide)) (inside.subset parts.1)
    have after := (inside.subset parts.2).subset (Text.subset_of_dropPrefix? closed)
    dsimp only at found
    split at found
    · next inner ends =>
      cases found
      exact ⟨normal, after.subset (subset_of_beforeEndMark? ends)⟩
    · split at found
      · cases found
        exact normal
      · cases found

end ConditionalComment

theorem textsIn_conditionalOf? {options : ParseOptions} {value : List Char} {comment : ConditionalComment}
    (admits : Admits p) (within : Within p value) (found : conditionalOf? options value = some comment) :
    comment.TextsIn p := by
  unfold conditionalOf? at found
  split at found
  · exact ConditionalComment.textsIn_classify? admits within found
  · cases found

theorem textsIn_conditionalNode {span : Span} {condition : String} {before body : List Char}
    {content : Except Failure OpenElements} (within : Within p condition.toList) (inside : Within p body)
    (texts : ∀ opened, content = .ok opened → opened.TextsIn p) :
    (conditionalNode span condition before body content).TextsIn p := by
  unfold conditionalNode
  cases content with
  | ok opened =>
    exact Fragment.follows_node.mpr ⟨NodeKind.textsIn_singleton rfl within,
      OpenElements.textsIn_finish (texts opened rfl)⟩
  | error failure =>
    exact Fragment.follows_node.mpr ⟨NodeKind.textsIn_singleton rfl within,
      List.forall_mem_singleton.mpr (textsIn_textLeaf inside)⟩

theorem textsIn_commentNode {span : Span} {value : List Char} {comment : Option ConditionalComment}
    (within : Within p value) (texts : ∀ found, comment = some found → found.TextsIn p) :
    (commentNode span value comment).TextsIn p := by
  unfold commentNode
  split
  · next condition => exact Fragment.textsIn_leaf (NodeKind.textsIn_singleton rfl (texts _ rfl))
  · exact Fragment.textsIn_leaf fun _ member => absurd member List.not_mem_nil
  · exact Fragment.textsIn_leaf (NodeKind.textsIn_singleton rfl (Text.within_ofList within))

theorem within_of_readLexeme {options : ParseOptions} {lexeme : Lexeme} (nonempty : cursor.rest ≠ [])
    (within : Within p cursor.rest) (read : readLexeme options cursor = .ok (lexeme, next)) : Within p next.rest := by
  obtain ⟨taken, _, readAs⟩ := readAs_of_readLexeme nonempty read
  exact Cursor.Reaches.within ⟨taken, readAs.takes⟩ within

theorem textsIn_readContent {options : ParseOptions} (admits : Admits p) (texts : opened.TextsIn p)
    (within : Within p cursor.rest) (found : readContent options opened cursor = .ok after) : after.TextsIn p := by
  fun_induction readContent options opened cursor generalizing after with
  | case1 opened cursor empty =>
    cases found
    exact texts
  | case2 => cases found
  | case3 => cases found
  | case4 opened cursor nonempty tag next lexed inner later element ih =>
    have rest := within_of_readLexeme nonempty within lexed
    obtain ⟨here, left⟩ := textsIn_readElement admits texts (textsIn_readLexeme within lexed) rest element
    exact ih here left found
  | case5 opened cursor nonempty value span next lexed condition before body classified content ihInside =>
    rename_i ih
    -- What the section holds is read by itself, with no element open.
    obtain ⟨words, inside⟩ := textsIn_conditionalOf? admits (textsIn_readLexeme within lexed) classified
    have node : (conditionalNode span condition before body content).TextsIn p :=
      textsIn_conditionalNode words inside fun _ ok => ihInside OpenElements.textsIn_empty inside ok
    exact ih (OpenElements.textsIn_add texts node) (within_of_readLexeme nonempty within lexed) found
  | case6 opened cursor nonempty value span next lexed _ ih =>
    have inside := textsIn_readLexeme within lexed
    have comment : (commentNode span value (conditionalOf? options value)).TextsIn p :=
      textsIn_commentNode inside fun _ classified => textsIn_conditionalOf? admits inside classified
    exact ih (OpenElements.textsIn_add texts comment) (within_of_readLexeme nonempty within lexed) found
  | case7 => cases found
  | case8 opened cursor nonempty lexeme next noElement noComment lexed inner followed ih =>
    have followed := textsIn_follow texts (textsIn_readLexeme within lexed) followed
    exact ih followed (within_of_readLexeme nonempty within lexed) found

/-! ### Sources -/

namespace FrontMatter

theorem closer?_mem {opener closer : String} {line : List Char} (found : closer? opener line = some closer) :
    closer ∈ [opener, "..."] :=
  List.mem_of_find?_eq_some found

theorem untilCloser_spec {opener closer : String} {lines body : List (List Char)} {last : List Char}
    (found : untilCloser opener lines = some (body, last, closer)) :
    body ⊆ lines ∧ last ∈ lines ∧ closer ∈ [opener, "..."] := by
  induction lines generalizing body with
  | nil => cases found
  | cons line lines ih =>
    rw [untilCloser] at found
    split at found
    · next closes =>
      cases found
      exact ⟨List.nil_subset _, List.mem_cons_self, closer?_mem closes⟩
    · obtain ⟨⟨rest, _, _⟩, later, same⟩ := Option.map_eq_some_iff.mp found
      cases same
      obtain ⟨inside, ends, closes⟩ := ih later
      exact ⟨List.cons_subset_cons line inside, List.mem_cons_of_mem _ ends, closes⟩

theorem opener?_mem {source : List Char} {opener : String} (found : opener? source = some opener) :
    opener ∈ ["---", "+++"] := by
  unfold opener? at found
  split at found
  · cases found
    exact List.mem_cons_self
  · split at found
    · cases found
      exact List.mem_cons_of_mem _ List.mem_cons_self
    · cases found

theorem within_delimiter {delimiter : String} (admits : Admits p) (known : delimiter ∈ ["---", "+++", "..."]) :
    Within p delimiter.toList := by
  refine Text.within_of_clean admits ?_
  revert delimiter
  decide

theorem textsIn_parse? {source : List Char} {block : FrontMatter} (admits : Admits p) (within : Within p source)
    (found : parse? source = some block) : block.TextsIn p := by
  unfold parse? at found
  simp only [Option.bind_eq_bind, Option.bind_eq_some_iff] at found
  obtain ⟨opener, opens, ⟨first, rest⟩, broken, ⟨body, last, closer⟩, closed, found⟩ := found
  have parts := Text.subset_of_breakOn broken
  obtain ⟨inside, ends, closes⟩ := untilCloser_spec closed
  have lines : ∀ line ∈ Text.splitOnChars (· = '\n') rest, Within p line :=
    fun line member => (within.subset parts.2).subset (Text.subset_of_mem_splitOnChars member)
  have feed : Within p ['\n'] := Text.within_of_clean admits (by decide)
  have explicit : Within p (first.drop 3) := (within.subset parts.1).subset (List.drop_subset _ _)
  have value : Within p (unlines body) := Text.within_intercalate feed fun line member => lines line (inside member)
  have raw : Within p (unlines (first :: body ++ [last])) := by
    refine Text.within_intercalate feed fun line member => ?_
    rcases List.mem_append.mp member with member | member
    · rcases List.mem_cons.mp member with rfl | member
      · exact within.subset parts.1
      · exact lines line (inside member)
    · rw [List.mem_singleton.mp member]
      exact lines last ends
  have known : opener ∈ ["---", "+++", "..."] := List.mem_append_left ["..."] (opener?_mem opens)
  have knownCloser : closer ∈ ["---", "+++", "..."] := by
    rcases List.mem_cons.mp closes with rfl | dots
    · exact known
    · rw [List.mem_singleton.mp dots]
      decide
  dsimp only at found
  split at found
  · cases found
  · cases found
    unfold TextsIn texts
    simp only [List.forall_mem_cons]
    exact ⟨Text.within_ofList value, Text.within_ofList raw, within_delimiter admits known,
      within_delimiter admits knownCloser, Text.within_ofList explicit, fun _ member => absurd member List.not_mem_nil⟩

end FrontMatter

/-- What is read of a source is made up of its characters. -/
theorem textsIn_of_readSource {options : ParseOptions} {source : List Char} {content : List Fragment}
    (admits : Admits p) (within : Within p source) (read : readSource options source = .ok content) :
    ∀ node ∈ content, node.TextsIn p := by
  cases readsSource_of_readSource read with
  | all found => exact OpenElements.textsIn_finish (textsIn_readContent admits OpenElements.textsIn_empty within found)
  | afterBlock isBlock nonempty front window found =>
    have texts := FrontMatter.textsIn_parse? admits within isBlock
    have rest := within.subset window.subset
    have after := textsIn_readContent admits OpenElements.textsIn_empty rest found
    exact List.forall_mem_cons.mpr ⟨Fragment.textsIn_leaf texts, OpenElements.textsIn_finish after⟩

end MarkupFormat.Markup
