import MarkupFormat.Markup.Node
import MarkupFormat.Markup.ParseError
import MarkupFormat.Text.Blank
import MarkupFormat.Text.Words

/-!
# Lexemes of markup

A source is read as a sequence of texts, comments, declarations and tags. A `Cursor` is the rest
of what is read with its offset in the source, so a section of a source is read like a whole one.
`readLexeme_lt` shows that every lexeme takes something.
-/

namespace MarkupFormat.Markup

open Text (byteLength breakOn isMarkupSpace opensBlock scan templateBlock?)

/-- Switches of reading. -/
structure ParseOptions where
  /-- A leading block between dashes or pluses is front matter. -/
  frontMatter : Bool := true
  /-- Conditional comments are told from other comments. -/
  conditionalComments : Bool := true
  /-- An end tag without a name ends the innermost element. -/
  componentEndTags : Bool := true
  deriving DecidableEq, Repr, Inhabited

/-- What is left to read and where it begins. -/
structure Cursor where
  pos : Nat
  rest : List Char
  deriving DecidableEq, Repr, Inhabited

namespace Cursor

/-- The cursor after `taken`, before `rest`. -/
def skip (cursor : Cursor) (taken rest : List Char) : Cursor :=
  ⟨cursor.pos + byteLength taken, rest⟩

/-- The cursor after the blanks at its front. -/
def skipSpace (cursor : Cursor) : Cursor :=
  cursor.skip (cursor.rest.takeWhile isMarkupSpace) (cursor.rest.dropWhile isMarkupSpace)

/-- The offset of the end of what is read. -/
def stop (cursor : Cursor) : Nat :=
  cursor.pos + byteLength cursor.rest

/-- The span from one cursor to a later one. -/
def spanTo (cursor later : Cursor) : Span :=
  ⟨cursor.pos, later.pos⟩

/-- The characters from one cursor to a later one. -/
def textTo (cursor later : Cursor) : List Char :=
  cursor.rest.take (cursor.rest.length - later.rest.length)

/-- The input ends inside a construct. -/
def unterminated (cursor : Cursor) (inside : Construct) : Failure :=
  ⟨.unterminated inside, ⟨cursor.stop, cursor.stop⟩⟩

/-- What is at the cursor cannot stand there. -/
def unexpected (cursor : Cursor) (inside : Construct) : Failure :=
  match cursor.rest with
  | [] => cursor.unterminated inside
  | c :: _ => ⟨.unexpected c inside, ⟨cursor.pos, cursor.pos + c.utf8Size⟩⟩

theorem length_skipSpace_le (cursor : Cursor) :
    cursor.skipSpace.rest.length ≤ cursor.rest.length :=
  (List.dropWhile_suffix _).length_le

end Cursor

/-- An ASCII letter, with which a name begins. -/
def isNameStart (c : Char) : Bool :=
  c.isAlpha

/-- Whether a tag without a name is at the front. -/
def atComponentEnd (options : ParseOptions) (cs : List Char) : Bool :=
  options.componentEndTags && "<//>".toList.isPrefixOf cs

/-- Whether markup is at the front rather than text. -/
def atMarkup (options : ParseOptions) (cs : List Char) : Bool :=
  match cs with
  | '<' :: '!' :: _ => true
  | '<' :: '?' :: _ => true
  | '<' :: '/' :: c :: _ => isNameStart c || atComponentEnd options cs
  | '<' :: c :: _ => isNameStart c
  | _ => false

/-! ### Tag names -/

/-- Whether `c` can be part of a tag name. -/
def isTagNameChar (c : Char) : Bool :=
  !(isMarkupSpace c || c = '/' || c = '>' || c = '<' || c = '\'' || c = '"' || c = '=')

/-- A tag name as written, and taken apart at its first colon if there is something on both
sides. -/
structure TagName where
  written : String
  qualifier : Option String
  name : String
  deriving DecidableEq, Repr, Inhabited

/-- Takes a name apart. -/
def TagName.ofChars (cs : List Char) : TagName :=
  let written := String.ofList cs
  match breakOn [':'] cs with
  | some (qualifier, name) =>
    if qualifier ≠ [] ∧ name ≠ [] then ⟨written, some (String.ofList qualifier), String.ofList name⟩
    else ⟨written, none, written⟩
  | none => ⟨written, none, written⟩

/-- Reads a tag name. -/
def readTagName (cursor : Cursor) : TagName × Cursor :=
  let taken := cursor.rest.takeWhile isTagNameChar
  (.ofChars taken, cursor.skip taken (cursor.rest.dropWhile isTagNameChar))

theorem length_readTagName_le (cursor : Cursor) :
    (readTagName cursor).2.rest.length ≤ cursor.rest.length :=
  (List.dropWhile_suffix _).length_le

/-! ### Attributes -/

/-- Whether the name of an attribute ends here. -/
def atNameEnd : List Char → Bool
  | [] => true
  | c :: _ =>
    isMarkupSpace c || c = '=' || c = '>' || c = '<' || c = '/' || c = '"' || c = '\''

/-- Whether an attribute ends here in any case. -/
def atBoundary : List Char → Bool
  | [] => true
  | '>' :: _ => true
  | '/' :: '>' :: _ => true
  | c :: _ => isMarkupSpace c

/-- Whether `c` is at the front. -/
def atChar (c : Char) (cs : List Char) : Bool :=
  cs.head? = some c

/-- A value after its equals sign: the value, and the offsets it has from the cursor's place. An
open quote runs to the end of the input, where the tag then fails. -/
def readValue (cursor : Cursor) : String × Span × Cursor :=
  match cursor.rest with
  | '"' :: cs => quotedValue '"' cs
  | '\'' :: cs => quotedValue '\'' cs
  | cs =>
    let (value, rest) := scan atBoundary cs
    let next := cursor.skip value rest
    (String.ofList value, cursor.spanTo next, next)
where
  /-- A value up to its closing quote. -/
  quotedValue (quote : Char) (cs : List Char) : String × Span × Cursor :=
    let (value, rest) := scan (atChar quote) cs
    let start := cursor.skip [quote] cs
    let stop := start.skip value rest
    (String.ofList value, start.spanTo stop, stop.skip (rest.take 1) (rest.drop 1))

/-- One attribute, or one template block, which is an attribute without a value. -/
def readSingle (cursor : Cursor) : Attribute × Cursor :=
  match templateBlock? cursor.rest with
  | some (block, rest) =>
    let next := cursor.skip block rest
    (⟨String.ofList block, none, cursor.spanTo next, none⟩, next)
  | none =>
    let (name, rest) := scan atNameEnd cursor.rest
    let named := cursor.skip name rest
    let equals := named.skipSpace
    match equals.rest with
    | '=' :: afterEquals =>
      let value := readValue (equals.skip ['='] afterEquals).skipSpace
      (⟨String.ofList name, some value.1, cursor.spanTo value.2.2, some value.2.1⟩, value.2.2)
    | _ => (⟨String.ofList name, none, cursor.spanTo named, none⟩, equals)

/-- The rest of a run that is written without white space: template blocks and quoted texts as a
whole, anything else up to a boundary or the start of a tag. -/
def gluedRun : List Char → List Char × List Char
  | [] => ([], [])
  | c :: cs =>
    match _h : templateBlock? (c :: cs) with
    | some (block, rest) =>
      let (taken, rest) := gluedRun rest
      (block ++ taken, rest)
    | none =>
      if atBoundary (c :: cs) || c = '<' then ([], c :: cs)
      else if c = '"' || c = '\'' then
        let inner := scan (atChar c) cs
        let (taken, rest) := gluedRun (inner.2.drop 1)
        (c :: inner.1 ++ inner.2.take 1 ++ taken, rest)
      else
        let (taken, rest) := gluedRun cs
        (c :: taken, rest)
  termination_by cs => cs.length
  decreasing_by
    · exact Text.length_lt_of_templateBlock? _h
    · have := Text.length_scan (atChar c) cs
      simp only [List.length_drop, List.length_cons]
      omega
    · simp

/-- An attribute, or a run of attributes and template blocks that touch, which is one attribute
without a value. -/
def readAttribute (cursor : Cursor) : Attribute × Cursor :=
  let (attr, next) := readSingle cursor
  let taken := cursor.textTo next
  if next.pos = attr.span.stop && !atBoundary next.rest &&
      (opensBlock taken || opensBlock next.rest) then
    let (more, rest) := gluedRun next.rest
    let last := next.skip more rest
    (⟨String.ofList (taken ++ more), none, cursor.spanTo last, none⟩, last)
  else (attr, next)

theorem gluedRun_append (cs : List Char) : (gluedRun cs).1 ++ (gluedRun cs).2 = cs := by
  fun_induction gluedRun cs with
  | case1 => rfl
  | case2 c cs block after h taken rest same ih =>
    rw [same] at ih
    rw [List.append_assoc, ih]
    exact (Text.eq_of_templateBlock? h).symm
  | case3 => rfl
  | case4 c cs h _ _ inner taken rest same ih =>
    rw [same] at ih
    simp only [List.append_assoc, List.cons_append]
    rw [ih, List.take_append_drop]
    exact congrArg _ (Text.scan_append ..)
  | case5 c cs h _ _ taken rest same ih =>
    rw [same] at ih
    simpa using ih

theorem length_readValue_le (cursor : Cursor) :
    (readValue cursor).2.2.rest.length ≤ cursor.rest.length := by
  have quoted (quote : Char) (cs : List Char) :
      (readValue.quotedValue cursor quote cs).2.2.rest.length ≤ cs.length := by
    have := Text.length_scan (atChar quote) cs
    simp only [readValue.quotedValue, Cursor.skip, List.length_drop]
    omega
  unfold readValue
  split
  · next cs same => rw [same]; have := quoted '"' cs; simp only [List.length_cons]; omega
  · next cs same => rw [same]; have := quoted '\'' cs; simp only [List.length_cons]; omega
  · next cs _ _ => have := Text.length_scan atBoundary cursor.rest; simp only [Cursor.skip]; omega

theorem length_readSingle_lt {cursor : Cursor} (h : atNameEnd cursor.rest = false) :
    (readSingle cursor).2.rest.length < cursor.rest.length := by
  unfold readSingle
  split
  · next found => exact Text.length_lt_of_templateBlock? found
  · have total := Text.length_scan atNameEnd cursor.rest
    have some : 0 < (scan atNameEnd cursor.rest).1.length := by
      cases same : cursor.rest with
      | nil => rw [same] at h; cases h
      | cons c cs => rw [same] at h; exact List.length_pos_iff.mpr (Text.scan_fst_ne_nil h)
    have equals := (cursor.skip (scan atNameEnd cursor.rest).1
      (scan atNameEnd cursor.rest).2).length_skipSpace_le
    simp only [Cursor.skip] at equals
    dsimp only
    split
    · next after same =>
      have value := length_readValue_le
        (Cursor.skip (Cursor.skipSpace (cursor.skip (scan atNameEnd cursor.rest).1
          (scan atNameEnd cursor.rest).2)) ['='] after).skipSpace
      have spaces := (Cursor.skip (Cursor.skipSpace (cursor.skip (scan atNameEnd cursor.rest).1
          (scan atNameEnd cursor.rest).2)) ['='] after).length_skipSpace_le
      have shorter := congrArg List.length same
      simp only [Cursor.skip, List.length_cons] at value spaces shorter equals ⊢
      omega
    · simp only [Cursor.skip] at equals ⊢
      omega

theorem length_readAttribute_lt {cursor : Cursor} (h : atNameEnd cursor.rest = false) :
    (readAttribute cursor).2.rest.length < cursor.rest.length := by
  have single := length_readSingle_lt h
  unfold readAttribute
  dsimp only
  split
  · have total := congrArg List.length (gluedRun_append (readSingle cursor).2.rest)
    rw [List.length_append] at total
    simp only [Cursor.skip]
    omega
  · exact single

/-! ### Tags -/

/-- A start tag. -/
structure StartTag where
  span : Span
  nameSpan : Span
  name : TagName
  attributes : List Attribute
  /-- Whether the tag closes its element as well. -/
  selfClosing : Bool
  deriving DecidableEq, Repr, Inhabited

/-- An end tag. -/
structure EndTag where
  span : Span
  name : TagName
  deriving DecidableEq, Repr, Inhabited

/-- The attributes of a start tag up to its end, and whether that closes the element. -/
def readAttributes (inside : Construct) (cursor : Cursor) :
    Except Failure (List Attribute × Bool × Cursor) :=
  let spaced := cursor.skipSpace
  match _h : spaced.rest with
  | '>' :: rest => .ok ([], false, spaced.skip ['>'] rest)
  | '/' :: '>' :: rest => .ok ([], true, spaced.skip ['/', '>'] rest)
  | '/' :: rest => readAttributes inside (spaced.skip ['/'] rest)
  | _ =>
    if _e : atNameEnd spaced.rest then .error (spaced.unexpected inside)
    else
      let read := readAttribute spaced
      match readAttributes inside read.2 with
      | .ok (attributes, selfClosing, last) => .ok (read.1 :: attributes, selfClosing, last)
      | .error failure => .error failure
  termination_by cursor.rest.length
  decreasing_by
    · have spaces : spaced.rest.length ≤ cursor.rest.length := cursor.length_skipSpace_le
      have shorter := congrArg List.length _h
      simp only [Cursor.skip, List.length_cons] at shorter ⊢
      omega
    · exact Nat.lt_of_lt_of_le (length_readAttribute_lt (by simpa using _e))
        cursor.length_skipSpace_le

theorem length_readAttributes_lt {inside : Construct} {cursor last : Cursor}
    {attributes : List Attribute} {selfClosing : Bool}
    (h : readAttributes inside cursor = .ok (attributes, selfClosing, last)) :
    last.rest.length < cursor.rest.length := by
  fun_induction readAttributes inside cursor generalizing attributes selfClosing last with
  | case1 cursor =>
    rename_i same
    cases h
    have := cursor.length_skipSpace_le
    have shorter : cursor.skipSpace.rest.length = _ := congrArg List.length same
    simp only [Cursor.skip, List.length_cons] at shorter ⊢
    omega
  | case2 cursor =>
    rename_i same
    cases h
    have := cursor.length_skipSpace_le
    have shorter : cursor.skipSpace.rest.length = _ := congrArg List.length same
    simp only [Cursor.skip, List.length_cons] at shorter ⊢
    omega
  | case3 cursor =>
    rename_i same ih
    have step := ih h
    have := cursor.length_skipSpace_le
    have shorter : cursor.skipSpace.rest.length = _ := congrArg List.length same
    simp only [Cursor.skip, List.length_cons] at step shorter
    omega
  | case4 => cases h
  | case5 cursor _ notEnd =>
    rename_i found _ _ _ ih
    cases h
    have : _ < (readAttribute cursor.skipSpace).2.rest.length := ih found
    have := cursor.length_skipSpace_le
    have : (readAttribute cursor.skipSpace).2.rest.length < cursor.skipSpace.rest.length :=
      length_readAttribute_lt (by simpa using notEnd)
    omega
  | case6 => cases h

/-- A start tag at its opening bracket. -/
def readStartTag (cursor : Cursor) : Except Failure (StartTag × Cursor) := do
  let opened := cursor.skip ['<'] (cursor.rest.drop 1)
  let (name, named) := readTagName opened
  let (attributes, selfClosing, next) ← readAttributes (.startTag name.written) named
  return (⟨cursor.spanTo next, opened.spanTo named, name, attributes, selfClosing⟩, next)

/-- An end tag at its opening bracket. -/
def readEndTag (cursor : Cursor) : Except Failure (EndTag × Cursor) :=
  let opened := cursor.skip ['<', '/'] (cursor.rest.drop 2)
  let (name, named) := readTagName opened
  let spaced := named.skipSpace
  match spaced.rest with
  | '>' :: rest =>
    let next := spaced.skip ['>'] rest
    .ok (⟨cursor.spanTo next, name⟩, next)
  | _ => .error (spaced.unexpected (.endTag name.written))

theorem length_readStartTag_lt {cursor next : Cursor} {tag : StartTag}
    (h : readStartTag cursor = .ok (tag, next)) : next.rest.length < cursor.rest.length := by
  unfold readStartTag at h
  dsimp only [bind, Except.bind] at h
  split at h
  · cases h
  · next found =>
    cases h
    have := length_readAttributes_lt found
    have := length_readTagName_le (cursor.skip ['<'] (cursor.rest.drop 1))
    simp only [Cursor.skip, List.length_drop] at *
    omega

theorem length_readEndTag_lt {cursor next : Cursor} {tag : EndTag}
    (h : readEndTag cursor = .ok (tag, next)) : next.rest.length < cursor.rest.length := by
  unfold readEndTag at h
  dsimp only at h
  split at h
  · next same =>
    cases h
    have name := length_readTagName_le (cursor.skip ['<', '/'] (cursor.rest.drop 2))
    have spaces := (readTagName (cursor.skip ['<', '/'] (cursor.rest.drop 2))).2.length_skipSpace_le
    have shorter := congrArg List.length same
    simp only [Cursor.skip, List.length_drop, List.length_cons] at *
    omega
  · cases h

/-! ### Raw text -/

/-- Whether the end tag of an element with raw text is at the front. Its name may be written in
either case. -/
def atRawEnd (name : List Char) : List Char → Bool
  | '<' :: '/' :: cs =>
    (cs.take name.length).map Char.toLower == name.map Char.toLower &&
      match cs.drop name.length with
      | [] => true
      | c :: _ => isMarkupSpace c || c = '>' || c = '/'
  | _ => false

/-- Raw text up to the end tag of its element, and the rest. -/
def readRaw (name : List Char) : List Char → List Char × List Char
  | [] => ([], [])
  | c :: cs =>
    if atRawEnd name (c :: cs) then ([], c :: cs)
    else
      let (taken, rest) := readRaw name cs
      (c :: taken, rest)

theorem readRaw_append (name cs : List Char) :
    (readRaw name cs).1 ++ (readRaw name cs).2 = cs := by
  fun_induction readRaw name cs with
  | case1 => rfl
  | case2 => rfl
  | case3 c cs _ taken rest same ih => rw [same] at ih; simpa using ih

/-! ### Lexemes -/

/-- What a source consists of. -/
inductive Lexeme where
  | text (value : List Char) (span : Span)
  | comment (value : List Char) (span : Span)
  | cdata (value : List Char) (span : Span)
  | doctype (value : List Char) (span : Span)
  | directive (value : List Char) (span : Span)
  | startTag (tag : StartTag)
  | endTag (tag : EndTag)
  | componentEnd (span : Span)
  deriving DecidableEq, Inhabited

/-- What is between an opening, which is at the front, and the first closing after it. -/
def readDelimited (opening closing : List Char) (inside : Construct) (cursor : Cursor) :
    Except Failure (List Char × Span × Cursor) :=
  match breakOn closing (cursor.rest.drop opening.length) with
  | some (value, rest) =>
    let next := cursor.skip (opening ++ value ++ closing) rest
    .ok (value, cursor.spanTo next, next)
  | none => .error (cursor.unterminated inside)

/-- What a declaration says, without its keyword if that is the one of a document type. -/
def doctypeValue (content : List Char) : List Char :=
  if (content.take 7).map Char.toLower = "doctype".toList then
    (content.drop 7).dropWhile Text.isWhiteSpace
  else content

/-- What an instruction says, without the question mark at its end. -/
def directiveValue (content : List Char) : List Char :=
  if content.getLast? = some '?' then content.dropLast else content

/-- The lexeme at a cursor that is not at the end. -/
def readLexeme (options : ParseOptions) (cursor : Cursor) : Except Failure (Lexeme × Cursor) :=
  let cs := cursor.rest
  if !atMarkup options cs then
    let (value, rest) := scan (atMarkup options) cs
    let next := cursor.skip value rest
    .ok (.text value (cursor.spanTo next), next)
  else if "<!--".toList.isPrefixOf cs then
    (readDelimited "<!--".toList "-->".toList .comment cursor).map fun (value, span, next) =>
      (.comment value span, next)
  else if "<![CDATA[".toList.isPrefixOf cs then
    (readDelimited "<![CDATA[".toList "]]>".toList .cdata cursor).map fun (value, span, next) =>
      (.cdata value span, next)
  else if "<!".toList.isPrefixOf cs then
    (readDelimited "<!".toList ">".toList .doctype cursor).map fun (value, span, next) =>
      (.doctype (doctypeValue value) span, next)
  else if "<?".toList.isPrefixOf cs then
    (readDelimited "<?".toList ">".toList .instruction cursor).map fun (value, span, next) =>
      (.directive (directiveValue value) span, next)
  else if atComponentEnd options cs then
    let next := cursor.skip "<//>".toList (cs.drop 4)
    .ok (.componentEnd (cursor.spanTo next), next)
  else if "</".toList.isPrefixOf cs then
    (readEndTag cursor).map fun (tag, next) => (.endTag tag, next)
  else
    (readStartTag cursor).map fun (tag, next) => (.startTag tag, next)

theorem length_readDelimited {opening closing : List Char} {inside : Construct}
    {cursor next : Cursor} {value : List Char} {span : Span}
    (starts : opening.isPrefixOf cursor.rest)
    (h : readDelimited opening closing inside cursor = .ok (value, span, next)) :
    opening.length + value.length + closing.length + next.rest.length = cursor.rest.length := by
  unfold readDelimited at h
  split at h
  · next found =>
    cases h
    have whole := congrArg List.length (Text.isPrefixOf_append_drop starts)
    have parts := congrArg List.length (Text.eq_of_breakOn found)
    simp only [List.length_append] at whole parts
    simp only [Cursor.skip]
    omega
  · cases h

/-- A lexeme takes something, and a comment at least its value. -/
theorem readLexeme_lt {options : ParseOptions} {cursor next : Cursor} {lexeme : Lexeme}
    (nonempty : cursor.rest ≠ []) (h : readLexeme options cursor = .ok (lexeme, next)) :
    next.rest.length < cursor.rest.length ∧
      ∀ value span, lexeme = .comment value span → value.length < cursor.rest.length := by
  unfold readLexeme at h
  have delimited {opening closing : List Char} {inside : Construct}
      {f : List Char × Span × Cursor → Lexeme × Cursor}
      (keeps : ∀ x, (f x).2 = x.2.2 ∧ ∀ v s, (f x).1 = .comment v s → v = x.1)
      (positive : 0 < opening.length)
      (starts : opening.isPrefixOf cursor.rest)
      (h : (readDelimited opening closing inside cursor).map f = .ok (lexeme, next)) :
      next.rest.length < cursor.rest.length ∧
        ∀ value span, lexeme = .comment value span → value.length < cursor.rest.length := by
    cases found : readDelimited opening closing inside cursor with
    | error failure => rw [found] at h; cases h
    | ok result =>
      obtain ⟨value, span, after⟩ := result
      rw [found] at h
      have same : f (value, span, after) = (lexeme, next) := by
        simpa only [Except.map, Except.ok.injEq] using h
      have total := length_readDelimited starts found
      obtain ⟨moved, kept⟩ := keeps (value, span, after)
      rw [same] at moved kept
      dsimp only at moved kept
      refine ⟨by rw [moved]; omega, fun v s comment => ?_⟩
      rw [kept v s comment]
      omega
  dsimp only at h
  split at h
  · next notMarkup =>
    cases h
    have total := Text.length_scan (atMarkup options) cursor.rest
    have some : 0 < (scan (atMarkup options) cursor.rest).1.length := by
      cases same : cursor.rest with
      | nil => exact absurd same nonempty
      | cons c cs =>
        rw [same] at notMarkup
        exact List.length_pos_iff.mpr (Text.scan_fst_ne_nil (by simpa using notMarkup))
    refine ⟨by simp only [Cursor.skip]; omega, ?_⟩
    intro _ _ comment; cases comment
  · split at h
    · next starts =>
      exact delimited (fun _ => ⟨rfl, fun _ _ same => by cases same; rfl⟩) (by decide) starts h
    · split at h
      · next starts =>
        exact delimited (fun _ => ⟨rfl, fun _ _ same => by cases same⟩) (by decide) starts h
      · split at h
        · next starts =>
          exact delimited (fun _ => ⟨rfl, fun _ _ same => by cases same⟩) (by decide) starts h
        · split at h
          · next starts =>
            exact delimited (fun _ => ⟨rfl, fun _ _ same => by cases same⟩) (by decide) starts h
          · have positive := List.length_pos_iff.mpr nonempty
            split at h
            · cases h
              refine ⟨by simp only [Cursor.skip, List.length_drop]; omega, nofun⟩
            · split at h
              · cases found : readEndTag cursor with
                | error failure => rw [found] at h; cases h
                | ok result =>
                  rw [found] at h
                  cases h
                  exact ⟨length_readEndTag_lt found, nofun⟩
              · cases found : readStartTag cursor with
                | error failure => rw [found] at h; cases h
                | ok result =>
                  rw [found] at h
                  cases h
                  exact ⟨length_readStartTag_lt found, nofun⟩

end MarkupFormat.Markup
