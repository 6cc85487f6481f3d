import MarkupFormat.Proofs.Markup.Reading
import MarkupFormat.Proofs.Text.Templated

/-!
# Reading a declaration

Text without braces and angle brackets is read as one text, and a declaration up to its bracket as one
node. `parse_of_declares` gives the nodes of a source that holds a declaration and white space around
it.
-/

namespace MarkupFormat.Markup

open Text (Templated byteLength isMarkupSpace scan)

/-! ### One lexeme -/

/-- Reading goes on after a lexeme that is neither a start tag nor a comment. -/
theorem readContent_follow {options : ParseOptions} {opened after : OpenElements} {cursor next : Cursor}
    {lexeme : Lexeme} (nonempty : cursor.rest ≠ []) (read : readLexeme options cursor = .ok (lexeme, next))
    (noElement : ∀ tag, lexeme ≠ .startTag tag) (noComment : ∀ value span, lexeme ≠ .comment value span)
    (followed : opened.follow lexeme = .ok after) :
    readContent options opened cursor = readContent options after next := by
  rw [readContent_of_follow nonempty read noElement noComment, followed]

/-! ### Texts -/

/-- Text in which nothing but text can begin. -/
def Inert (cs : List Char) : Prop :=
  ∀ c ∈ cs, c ≠ '<' ∧ c ≠ '{'

theorem inert_of_isMarkupSpace {cs : List Char} (blank : cs.all isMarkupSpace = true) : Inert cs := by
  intro c member
  have space := List.all_eq_true.mp blank c member
  constructor
  · rintro rfl
    cases space
  · rintro rfl
    cases space

theorem atMarkup_eq_false {options : ParseOptions} {c : Char} {cs : List Char} (other : c ≠ '<') :
    atMarkup options (c :: cs) = false := by
  unfold atMarkup
  split
  · next same => exact absurd (List.cons.inj same).1 other
  · next same => exact absurd (List.cons.inj same).1 other
  · next same => exact absurd (List.cons.inj same).1 other
  · next same => exact absurd (List.cons.inj same).1 other
  · rfl

theorem scan_text {options : ParseOptions} {cs rest : List Char} (templated : Templated (· != '<') cs)
    (stops : rest = [] ∨ ∃ after, rest = '<' :: after ∧ atMarkup options rest = true) :
    scan (atMarkup options) (cs ++ rest) = (cs, rest) := by
  apply Text.scan_templated templated
  · rintro c cs (plain | rfl)
    · exact atMarkup_eq_false (bne_iff_ne.mp plain)
    · exact atMarkup_eq_false (by decide)
  · rcases stops with rfl | ⟨after, rfl, markup⟩
    · exact Or.inl rfl
    · exact Or.inr ⟨'<', after, rfl, by decide, markup⟩

theorem atMarkup_of_templated {options : ParseOptions} {cs : List Char} (nonempty : cs ≠ [])
    (templated : Templated (· != '<') cs) (rest : List Char) : atMarkup options (cs ++ rest) = false := by
  cases templated with
  | nil => exact absurd rfl nonempty
  | char plain _ _ => exact atMarkup_eq_false (bne_iff_ne.mp plain)
  | block _ _ _ => exact atMarkup_eq_false (by decide)

/-- Templated text is read as a text. -/
theorem readContent_text {options : ParseOptions} {opened : OpenElements} {pos : Nat} {cs rest : List Char}
    (nonempty : cs ≠ []) (templated : Templated (· != '<') cs)
    (stops : rest = [] ∨ ∃ after, rest = '<' :: after ∧ atMarkup options rest = true) :
    readContent options opened ⟨pos, cs ++ rest⟩ =
      readContent options (opened.add (.leaf (.text (String.ofList cs)) ⟨pos, pos + byteLength cs⟩))
        ⟨pos + byteLength cs, rest⟩ := by
  have read : readLexeme options ⟨pos, cs ++ rest⟩ =
      .ok (.text cs ⟨pos, pos + byteLength cs⟩, ⟨pos + byteLength cs, rest⟩) := by
    unfold readLexeme
    dsimp only
    rw [atMarkup_of_templated nonempty templated, scan_text templated stops]
    rfl
  exact readContent_follow (by simp [nonempty]) read nofun nofun rfl

theorem templated_of_inert {cs : List Char} (inert : Inert cs) : Templated (· != '<') cs := by
  apply Text.templated_of_forall
  intro c member
  exact ⟨bne_iff_ne.mpr (inert c member).1, (inert c member).2⟩

/-- The nodes of white space at an offset: a text, unless there is none. -/
def spaceNodes (start : Nat) (cs : List Char) : List Fragment :=
  if cs = [] then [] else [.leaf (.text (String.ofList cs)) ⟨start, start + byteLength cs⟩]

/-- Inert text is read as a text. -/
theorem readContent_inert {options : ParseOptions} {nodes : List Fragment} {pos : Nat} {cs rest : List Char}
    (inert : Inert cs) (stops : rest = [] ∨ ∃ after, rest = '<' :: after ∧ atMarkup options rest = true) :
    readContent options { nodes := nodes } ⟨pos, cs ++ rest⟩ =
      readContent options { nodes := spaceNodes pos cs ++ nodes } ⟨pos + byteLength cs, rest⟩ := by
  unfold spaceNodes
  split
  · next empty =>
    subst empty
    rfl
  · next nonempty => exact readContent_text nonempty (templated_of_inert inert) stops

/-! ### Declarations -/

/-- Between `before` and `after`, which are white space, a source holds a declaration of `content`. -/
structure Declares (source before content after : List Char) : Prop where
  whole : source = before ++ ("<!".toList ++ content ++ ['>'] ++ after)
  blankBefore : before.all isMarkupSpace = true
  blankAfter : after.all isMarkupSpace = true
  closed : '>' ∉ content
  noComment : "--".toList.isPrefixOf content = false
  noCdata : "[CDATA[".toList.isPrefixOf content = false

/-- Behind `before`, which is white space, a source begins with a declaration of `content`. -/
structure DeclaresFirst (source before content after : List Char) : Prop where
  whole : source = before ++ ("<!".toList ++ content ++ ['>'] ++ after)
  blankBefore : before.all isMarkupSpace = true
  closed : '>' ∉ content
  noComment : "--".toList.isPrefixOf content = false
  noCdata : "[CDATA[".toList.isPrefixOf content = false

theorem Declares.first {source before content after : List Char} (declares : Declares source before content after) :
    DeclaresFirst source before content after :=
  ⟨declares.whole, declares.blankBefore, declares.closed, declares.noComment, declares.noCdata⟩

theorem DeclaresFirst.declares {source before content after : List Char}
    (first : DeclaresFirst source before content after) (blank : after.all isMarkupSpace = true) :
    Declares source before content after :=
  ⟨first.whole, first.blankBefore, blank, first.closed, first.noComment, first.noCdata⟩

theorem breakOn_of_not_mem {c : Char} {cs : List Char} (absent : c ∉ cs) (rest : List Char) :
    Text.breakOn [c] (cs ++ [c] ++ rest) = some (cs, rest) := by
  rw [List.append_assoc, Text.breakOn_append_of_not_mem absent, Text.breakOn_append_self (List.cons_ne_nil c [])]
  simp

theorem isPrefixOf_append_of_not_mem {c : Char} {needle : List Char} (absent : c ∉ needle)
    (cs after : List Char) :
    needle.isPrefixOf (cs ++ [c] ++ after) = needle.isPrefixOf cs := by
  induction needle generalizing cs with
  | nil => simp
  | cons d needle ih =>
    rw [List.mem_cons, not_or] at absent
    cases cs with
    | nil => simp [List.isPrefixOf, Ne.symm absent.1]
    | cons e cs =>
      rw [List.cons_append, List.cons_append, List.isPrefixOf, List.isPrefixOf, ih absent.2]

/-- The declaration as it is written. -/
def declarationText (content : List Char) : List Char :=
  "<!".toList ++ content ++ ['>']

theorem readDelimited_declaration {pos : Nat} {content after : List Char} (closed : '>' ∉ content) :
    readDelimited "<!".toList ">".toList .doctype ⟨pos, declarationText content ++ after⟩ =
      .ok (content, ⟨pos, pos + byteLength (declarationText content)⟩,
        ⟨pos + byteLength (declarationText content), after⟩) := by
  unfold readDelimited
  have found : Text.breakOn ">".toList
      ((declarationText content ++ after).drop "<!".toList.length) = some (content, after) :=
    breakOn_of_not_mem closed after
  rw [found]
  rfl

theorem readLexeme_declaration {options : ParseOptions} {pos : Nat} {content after : List Char}
    (closed : '>' ∉ content) (noComment : "--".toList.isPrefixOf content = false)
    (noCdata : "[CDATA[".toList.isPrefixOf content = false) :
    readLexeme options ⟨pos, declarationText content ++ after⟩ =
      .ok (.doctype (doctypeValue content) ⟨pos, pos + byteLength (declarationText content)⟩,
        ⟨pos + byteLength (declarationText content), after⟩) := by
  have markup : atMarkup options (declarationText content ++ after) = true := rfl
  have opensNoComment : "<!--".toList.isPrefixOf (declarationText content ++ after) = false :=
    (isPrefixOf_append_of_not_mem (by decide) content after).trans noComment
  have opensNoCdata : "<![CDATA[".toList.isPrefixOf (declarationText content ++ after) = false :=
    (isPrefixOf_append_of_not_mem (by decide) content after).trans noCdata
  have opens : "<!".toList.isPrefixOf (declarationText content ++ after) = true := rfl
  unfold readLexeme
  dsimp only
  rw [markup, opensNoComment, opensNoCdata, opens]
  simp only [Bool.not_true, Bool.false_eq_true, if_false, if_true]
  rw [readDelimited_declaration closed]
  rfl

/-- The nodes of a declaration between white space. -/
def declarationNodes (before content after : List Char) : List Fragment :=
  let start := byteLength before
  let stop := start + byteLength (declarationText content)
  spaceNodes 0 before ++ [.leaf (.doctype (String.ofList (doctypeValue content))) ⟨start, stop⟩] ++
    spaceNodes stop after

theorem opener?_eq_none {c : Char} {cs : List Char} (noDash : c ≠ '-') (noPlus : c ≠ '+') :
    FrontMatter.opener? (c :: cs) = none := by
  unfold FrontMatter.opener?
  have dashes : "---".toList.isPrefixOf (c :: cs) = false := by
    show ('-' == c && ['-', '-'].isPrefixOf cs) = false
    rw [beq_eq_false_iff_ne.mpr (Ne.symm noDash), Bool.false_and]
  have pluses : "+++".toList.isPrefixOf (c :: cs) = false := by
    show ('+' == c && ['+', '+'].isPrefixOf cs) = false
    rw [beq_eq_false_iff_ne.mpr (Ne.symm noPlus), Bool.false_and]
  rw [dashes, pluses]
  rfl

theorem readSource_of_bracket {options : ParseOptions} (more : List Char) :
    readSource options ('<' :: more) = (readContent options {} ⟨0, '<' :: more⟩).map OpenElements.finish := by
  have none : (if options.frontMatter then FrontMatter.parse? ('<' :: more) else .none) = .none := by
    unfold FrontMatter.parse?
    rw [opener?_eq_none (by decide) (by decide)]
    exact ite_self _
  unfold readSource
  dsimp only
  rw [none]
  cases readContent options {} ⟨0, '<' :: more⟩ <;> rfl

variable {source before content after : List Char}

theorem DeclaresFirst.parse?_eq_none (declares : DeclaresFirst source before content after) :
    FrontMatter.parse? source = none := by
  have front : ∃ c cs, source = c :: cs ∧ c ≠ '-' ∧ c ≠ '+' := by
    rw [declares.whole]
    cases before with
    | nil => exact ⟨'<', _, rfl, by decide, by decide⟩
    | cons c cs =>
      have space := List.all_eq_true.mp declares.blankBefore c List.mem_cons_self
      refine ⟨c, _, rfl, ?_, ?_⟩
      · rintro rfl
        cases space
      · rintro rfl
        cases space
  obtain ⟨c, cs, rfl, noDash, noPlus⟩ := front
  unfold FrontMatter.parse?
  rw [opener?_eq_none noDash noPlus]
  rfl

theorem readContent_end {options : ParseOptions} {opened : OpenElements} {pos : Nat} :
    readContent options opened ⟨pos, []⟩ = .ok opened := by
  rw [readContent, dif_pos rfl]

theorem reverse_spaceNodes (start : Nat) (cs : List Char) :
    (spaceNodes start cs).reverse = spaceNodes start cs := by
  unfold spaceNodes
  split
  · rfl
  · rfl

theorem finish_of_nodes (nodes : List Fragment) :
    ({ nodes := nodes } : OpenElements).finish = nodes.reverse := by
  unfold OpenElements.finish
  rw [OpenElements.closeAll, if_pos rfl]

/-- The node of a declaration that begins at an offset. -/
def declarationNode (start : Nat) (content : List Char) : Fragment :=
  .leaf (.doctype (String.ofList (doctypeValue content))) ⟨start, start + byteLength (declarationText content)⟩

/-- The declaration at the front of a source is read with the white space before it. -/
theorem DeclaresFirst.readContent_eq (declares : DeclaresFirst source before content after) :
    readContent {} {} ⟨0, source⟩ =
      readContent {} { nodes := declarationNode (byteLength before) content :: spaceNodes 0 before }
        ⟨byteLength before + byteLength (declarationText content), after⟩ := by
  have whole : source = before ++ (declarationText content ++ after) := declares.whole
  have first : readContent {} {} ⟨0, source⟩ =
      readContent {} { nodes := spaceNodes 0 before } ⟨byteLength before, declarationText content ++ after⟩ := by
    rw [whole, ← List.append_nil (spaceNodes 0 before), ← Nat.zero_add (byteLength before)]
    exact readContent_inert (inert_of_isMarkupSpace declares.blankBefore) (Or.inr ⟨_, rfl, rfl⟩)
  exact first.trans (readContent_follow (by simp [declarationText])
    (readLexeme_declaration declares.closed declares.noComment declares.noCdata) nofun nofun rfl)

theorem readContent_of_declares (declares : Declares source before content after) :
    ∃ opened, readContent {} {} ⟨0, source⟩ = .ok opened ∧
      opened.finish = declarationNodes before content after := by
  let stop := byteLength before + byteLength (declarationText content)
  let declaration : Fragment := declarationNode (byteLength before) content
  have rest : readContent {} { nodes := declaration :: spaceNodes 0 before } ⟨stop, after⟩ =
      readContent {} { nodes := spaceNodes stop after ++ declaration :: spaceNodes 0 before }
        ⟨stop + byteLength after, []⟩ := by
    have inert := inert_of_isMarkupSpace declares.blankAfter
    have read : readContent {} { nodes := declaration :: spaceNodes 0 before } ⟨stop, after ++ []⟩ =
        readContent {} { nodes := spaceNodes stop after ++ declaration :: spaceNodes 0 before }
          ⟨stop + byteLength after, []⟩ :=
      readContent_inert inert (Or.inl rfl)
    rw [List.append_nil] at read
    exact read
  refine ⟨_, (declares.first.readContent_eq.trans rest).trans readContent_end, ?_⟩
  rw [finish_of_nodes, List.reverse_append, List.reverse_cons, reverse_spaceNodes, reverse_spaceNodes]
  rfl

/-- A source that holds a declaration has that as its only node but white space. -/
theorem readSource_of_declares (declares : Declares source before content after) :
    readSource {} source = .ok (declarationNodes before content after) := by
  obtain ⟨opened, read, finished⟩ := readContent_of_declares declares
  unfold readSource
  rw [declares.first.parse?_eq_none, read]
  exact congrArg Except.ok finished

theorem parse_of_declares {source : String} (declares : Declares source.toList before content after)
    (small : byteLength source.toList ≤ maxSourceBytes) :
    parse source {} = .ok (declarationNodes before content after) := by
  unfold parse
  dsimp only
  rw [if_neg (by omega), readSource_of_declares declares]
  rfl

end MarkupFormat.Markup
