import MarkupFormat.Markup.ConditionalComment
import MarkupFormat.Markup.OpenElements

/-!
# Reading markup

`readContent` reads lexemes and follows them with the open elements. The section of a conditional
comment is read in the same way on its own; a section that cannot be read is kept as text, and its
failure does not show.
-/

namespace MarkupFormat.Markup

open Text (byteLength)

namespace ConditionalComment

theorem length_beforeEndMark?_le {cs inner : List Char} (h : beforeEndMark? cs = some inner) :
    inner.length ≤ cs.length := by
  induction cs generalizing inner with
  | nil =>
    unfold beforeEndMark? at h
    split at h
    · cases h; simp
    · cases h
  | cons c cs ih =>
    unfold beforeEndMark? at h
    split at h
    · cases h; simp
    · obtain ⟨rest, found, same⟩ := Option.map_eq_some_iff.mp h
      subst same
      have := ih found
      simp only [List.length_cons]
      omega

/-- The section of a comment is no longer than its value. -/
theorem length_block_le {value before body : List Char} {condition : String}
    (h : classify? value = some (.block condition before body)) : body.length ≤ value.length := by
  unfold classify? at h
  split at h
  · cases h
  · simp only [Option.bind_eq_bind, Option.bind_eq_some_iff] at h
    obtain ⟨⟨cond, rest⟩, opened, inner, closed, found⟩ := h
    dsimp only at found
    split at found
    · next body' ends =>
      cases found
      have shorter := length_beforeEndMark?_le ends
      unfold condition? at opened
      simp only [Option.bind_eq_bind, Option.bind_eq_some_iff] at opened
      obtain ⟨afterIf, starts, broken⟩ := opened
      have whole := congrArg List.length (Text.eq_of_breakOn broken)
      have dropped {needle cs rest : List Char} (h : Text.dropPrefix? needle cs = some rest) :
          rest.length ≤ cs.length := by
        unfold Text.dropPrefix? at h
        split at h
        · cases h; simp
        · cases h
      have first := dropped starts
      have second := dropped closed
      dsimp only at second
      simp only [List.length_append] at whole
      omega
    · split at found <;> cases found

end ConditionalComment

/-- What a comment holds, if conditional comments are told apart. -/
def conditionalOf? (options : ParseOptions) (value : List Char) : Option ConditionalComment :=
  if options.conditionalComments then ConditionalComment.classify? value else none

/-- Where the section of a conditional comment begins. -/
def sectionStart (span : Span) (before : List Char) : Nat :=
  span.start + "<!--".length + byteLength before

/-- Where the section of a conditional comment is. -/
def sectionSpan (span : Span) (before body : List Char) : Span :=
  ⟨sectionStart span before, sectionStart span before + byteLength body⟩

/-- A conditional comment apart from its section. -/
def conditionalInfo (span : Span) (condition : String) (before body : List Char)
    (complete : Bool) : NodeInfo :=
  { kind := .conditional condition complete
    span := span
    startSpan := some ⟨span.start, (sectionSpan span before body).start⟩
    endSpan := some ⟨(sectionSpan span before body).stop, span.stop⟩ }

/-- A conditional comment over what was read of its section. -/
def conditionalNode (span : Span) (condition : String) (before body : List Char)
    (content : Except Failure OpenElements) : Fragment :=
  match content with
  | .ok opened => .node (conditionalInfo span condition before body true) opened.finish
  | .error _ =>
    .node (conditionalInfo span condition before body false)
      [.leaf (.text (String.ofList body)) (sectionSpan span before body)]

/-- Follows a comment that has no section. -/
def commentNode (span : Span) (value : List Char) : Option ConditionalComment → Fragment
  | some (.start condition) => .leaf (.conditionalStart condition) span
  | some .finish => .leaf .conditionalEnd span
  | _ => .leaf (.comment (String.ofList value)) span

/-- Reads raw text and the end tag after it. At the end of the input the element stays open. -/
def readRawContent (opened : OpenElements) (name : String) (cursor : Cursor) :
    Except Failure (OpenElements × Cursor) :=
  let (value, rest) := readRaw name.toList cursor.rest
  let next := cursor.skip value rest
  let opened :=
    if value = [] then opened
    else opened.add (.leaf (.text (String.ofList value)) (cursor.spanTo next))
  if rest = [] then .ok (opened, next)
  else (readEndTag next).map fun (tag, last) => (opened.close (some tag.span), last)

/-- Follows a start tag, and reads its content if that is raw text. -/
def readElement (opened : OpenElements) (tag : StartTag) (cursor : Cursor) :
    Except Failure (OpenElements × Cursor) :=
  match opened.startTag tag with
  | (opened, true) => readRawContent opened tag.name.name cursor
  | (opened, false) => .ok (opened, cursor)

theorem length_readElement_le {opened after : OpenElements} {tag : StartTag}
    {cursor next : Cursor} (h : readElement opened tag cursor = .ok (after, next)) :
    next.rest.length ≤ cursor.rest.length := by
  unfold readElement at h
  split at h
  · next opened' _ =>
    unfold readRawContent at h
    have total := congrArg List.length (readRaw_append tag.name.name.toList cursor.rest)
    rw [List.length_append] at total
    dsimp only at h
    split at h
    · cases h; simp only [Cursor.skip]; omega
    · simp only [Except.map] at h
      split at h
      · cases h
      · next result found =>
        simp only [Except.ok.injEq, Prod.mk.injEq] at h
        have := length_readEndTag_lt found
        rw [← h.2]
        simp only [Cursor.skip] at this
        omega
  · cases h; exact Nat.le_refl _

/-- Follows a lexeme that is neither a start tag nor a comment. -/
def OpenElements.follow (opened : OpenElements) : Lexeme → Except Failure OpenElements
  | .text value span => .ok (opened.add (.leaf (.text (String.ofList value)) span))
  | .cdata value span => .ok (opened.add (.leaf (.cdata (String.ofList value)) span))
  | .doctype value span => .ok (opened.add (.leaf (.doctype (String.ofList value)) span))
  | .directive value span => .ok (opened.add (.leaf (.directive (String.ofList value)) span))
  | .endTag tag => opened.endTag tag
  | .componentEnd span => opened.componentEnd span
  | .comment .. | .startTag _ => .ok opened

/-- Reads up to the end of the input. -/
def readContent (options : ParseOptions) (opened : OpenElements) (cursor : Cursor) :
    Except Failure OpenElements :=
  if _nonempty : cursor.rest = [] then .ok opened
  else
    match _read : readLexeme options cursor with
    | .error failure => .error failure
    | .ok (.startTag tag, next) =>
      match _element : readElement opened tag next with
      | .error failure => .error failure
      | .ok (opened, next) => readContent options opened next
    | .ok (.comment value span, next) =>
      match _found : conditionalOf? options value with
      | some (.block condition before body) =>
        let content := readContent options {} ⟨sectionStart span before, body⟩
        readContent options (opened.add (conditionalNode span condition before body content)) next
      | kind => readContent options (opened.add (commentNode span value kind)) next
    | .ok (lexeme, next) =>
      match opened.follow lexeme with
      | .error failure => .error failure
      | .ok opened => readContent options opened next
  termination_by cursor.rest.length
  decreasing_by
    · exact Nat.lt_of_le_of_lt (length_readElement_le _element) (readLexeme_lt _nonempty _read).1
    · have := (readLexeme_lt _nonempty _read).2 value span rfl
      have : body.length ≤ value.length := by
        unfold conditionalOf? at _found
        split at _found
        · exact ConditionalComment.length_block_le _found
        · cases _found
      omega
    · exact (readLexeme_lt _nonempty _read).1
    · exact (readLexeme_lt _nonempty _read).1
    · exact (readLexeme_lt _nonempty _read).1

/-- The nodes of a source, or the first failure. -/
def readSource (options : ParseOptions) (source : List Char) : Except Failure (List Fragment) := do
  let block := if options.frontMatter then FrontMatter.parse? source else none
  match block with
  | some block =>
    let raw := block.raw.toList
    let length := byteLength raw
    let opened ← readContent options {} ⟨length, source.drop raw.length⟩
    return .leaf (.frontMatter block) ⟨0, length⟩ :: opened.finish
  | none =>
    let opened ← readContent options {} ⟨0, source⟩
    return opened.finish

/-- The largest source that is read, in bytes. -/
def maxSourceBytes : Nat := UInt32.size - 1

/-- Reads a source, whose nodes come in the order in which they are written. -/
def parse (source : String) (options : ParseOptions) : Except ParseError (List Fragment) :=
  let chars := source.toList
  let bytes := byteLength chars
  let result :=
    if maxSourceBytes < bytes then .error ⟨.tooLarge bytes, ⟨0, 0⟩⟩ else readSource options chars
  result.mapError (ParseError.place chars (LineIndex.build chars))

end MarkupFormat.Markup
