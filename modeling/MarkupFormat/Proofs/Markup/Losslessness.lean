import MarkupFormat.Proofs.Markup.Tiling
import MarkupFormat.Proofs.Text.LineEndings

/-!
# Reading loses nothing

What is read goes from a cursor to the end of a window of the source. A section of a conditional
comment is a window of its own, read from nothing. Reading a window covers it, so the nodes of a
source tile all of it, and the source can be put together from them again (`writtenAll_of_parse`).
-/

namespace MarkupFormat.Markup

open Text (Cut byteLength)
open Fragment (Tiles)

variable {source : List Char} {cursor next : Cursor} {start stop : Nat}

/-! ### Windows -/

theorem Cursor.Takes.cut {taken : List Char} (took : cursor.Takes next taken)
    (window : Cut source cursor.pos stop cursor.rest) :
    Cut source cursor.pos next.pos taken ∧ Cut source next.pos stop next.rest := by
  obtain ⟨rest, pos⟩ := took
  rw [rest] at window
  rw [pos]
  exact window.of_append

theorem Lexeme.ReadAs.cut {lexeme : Lexeme} {taken : List Char} (read : lexeme.ReadAs cursor next taken)
    (window : Cut source cursor.pos stop cursor.rest) :
    Cut source lexeme.span.start lexeme.span.stop taken := by
  rw [read.span]
  exact (read.takes.cut window).1

/-! ### Raw text -/

theorem atRawEnd_readRaw {name cs : List Char} (nonempty : (readRaw name cs).2 ≠ []) :
    ['<', '/'].isPrefixOf (readRaw name cs).2 := by
  fun_induction readRaw name cs with
  | case1 => exact absurd rfl nonempty
  | case2 c cs ends =>
    unfold atRawEnd at ends
    split at ends
    · next same => rw [same]; rfl
    · cases ends
  | case3 c cs _ taken rest same ih =>
    rw [same] at ih
    exact ih nonempty

theorem reaches_readElement {opened after : OpenElements} {tag : StartTag}
    (found : readElement opened tag cursor = .ok (after, next)) : cursor.Reaches next := by
  unfold readElement at found
  split at found
  · unfold readRawContent at found
    dsimp only at found
    have raw : cursor.Reaches (cursor.skip _ _) :=
      Cursor.reaches_skip (readRaw_append tag.name.name.toList cursor.rest).symm
    split at found
    · cases found
      exact raw
    · next nonempty =>
      obtain ⟨⟨ended, last⟩, read, same⟩ := exists_ok_of_map found
      cases same
      exact raw.trans (reaches_readEndTag (atRawEnd_readRaw nonempty) read).1
  · cases found
    exact ⟨[], rfl, rfl⟩

/-- Raw text is covered by a text, unless there is none. -/
theorem covers_addRaw {opened : OpenElements} {value : List Char}
    (covers : opened.Covers source start cursor.pos) (raw : Cut source cursor.pos next.pos value) :
    (if value = [] then opened
      else opened.add (.leaf (.text (String.ofList value)) (cursor.spanTo next))).Covers
        source start next.pos := by
  split
  · next empty =>
    obtain ⟨_, _, _, _, stops⟩ := raw
    rw [empty, Text.byteLength_nil, Nat.add_zero] at stops
    rw [← stops]
    exact covers
  · next nonempty =>
    refine OpenElements.covers_addLeaf covers rfl nonempty raw ?_
    intro _ same
    cases same
    rfl

theorem covers_readRawContent {opened after : OpenElements} {name : String}
    (covers : opened.Covers source start cursor.pos) (some_open : opened.stack ≠ [])
    (window : Cut source cursor.pos stop cursor.rest)
    (read : readRawContent opened name cursor = .ok (after, next)) :
    after.Covers source start next.pos ∧ Cut source next.pos stop next.rest := by
  unfold readRawContent at read
  dsimp only at read
  have took : cursor.Takes (cursor.skip _ _) _ :=
    Cursor.takes_skip (readRaw_append name.toList cursor.rest).symm
  obtain ⟨raw, left⟩ := took.cut window
  have covered := covers_addRaw covers raw
  split at read
  · cases read
    exact ⟨covered, left⟩
  · next nonempty =>
    obtain ⟨⟨tag, last⟩, ended, same⟩ := exists_ok_of_map read
    cases same
    obtain ⟨reaches, span⟩ := reaches_readEndTag (atRawEnd_readRaw nonempty) ended
    have shorter := length_readEndTag_lt ended
    obtain ⟨taken, takes⟩ := reaches
    obtain ⟨closing, rest⟩ := takes.cut left
    refine ⟨?_, rest⟩
    rw [span]
    refine OpenElements.covers_close_some covered ?_ ⟨taken, takes.ne_nil shorter, closing⟩
    split
    · exact some_open
    · intro none_open
      apply some_open
      rw [← List.length_eq_zero_iff, ← OpenElements.length_stack_add, none_open]
      rfl

theorem covers_readElement {opened after : OpenElements} {tag : StartTag}
    (covers : opened.Covers source start tag.span.start)
    (opening : Fills source tag.span.start tag.span.stop) (here : tag.span.stop = cursor.pos)
    (window : Cut source cursor.pos stop cursor.rest)
    (read : readElement opened tag cursor = .ok (after, next)) :
    after.Covers source start next.pos ∧ Cut source next.pos stop next.rest := by
  obtain ⟨covered, remains⟩ := OpenElements.covers_startTag covers opening
  rw [here] at covered
  unfold readElement at read
  split at read
  · next result same =>
    rw [same] at covered remains
    exact covers_readRawContent covered (remains rfl) window read
  · next result same =>
    rw [same] at covered
    cases read
    exact ⟨covered, window⟩

/-! ### Lexemes -/

theorem covers_follow {opened after : OpenElements} {lexeme : Lexeme} {taken : List Char}
    (covers : opened.Covers source start lexeme.span.start) (nonempty : taken ≠ [])
    (read : lexeme.ReadAs cursor next taken) (window : Cut source cursor.pos stop cursor.rest)
    (noElement : ∀ tag, lexeme ≠ .startTag tag) (noComment : ∀ value span, lexeme ≠ .comment value span)
    (followed : opened.follow lexeme = .ok after) : after.Covers source start lexeme.span.stop := by
  have cut := read.cut window
  cases lexeme with
  | text value span =>
    cases followed
    refine OpenElements.covers_addLeaf covers rfl nonempty cut ?_
    rintro _ ⟨⟩
    rw [read.text value span rfl]
  | cdata value span =>
    cases followed
    exact OpenElements.covers_addLeaf covers rfl nonempty cut nofun
  | doctype value span =>
    cases followed
    exact OpenElements.covers_addLeaf covers rfl nonempty cut nofun
  | directive value span =>
    cases followed
    exact OpenElements.covers_addLeaf covers rfl nonempty cut nofun
  | endTag tag => exact OpenElements.covers_endTag covers ⟨taken, nonempty, cut⟩ followed
  | componentEnd span => exact OpenElements.covers_componentEnd covers ⟨taken, nonempty, cut⟩ followed
  | startTag tag => exact absurd rfl (noElement tag)
  | comment value span => exact absurd rfl (noComment value span)

/-! ### Conditional comments -/

theorem append_of_beforeEndMark? {cs inner : List Char}
    (found : ConditionalComment.beforeEndMark? cs = some inner) :
    ∃ closing, ConditionalComment.isEndMark closing = true ∧ cs = inner ++ closing := by
  induction cs generalizing inner with
  | nil =>
    unfold ConditionalComment.beforeEndMark? at found
    split at found
    · next isEnd => cases found; exact ⟨[], isEnd, rfl⟩
    · cases found
  | cons c cs ih =>
    unfold ConditionalComment.beforeEndMark? at found
    split at found
    · next isEnd => cases found; exact ⟨c :: cs, isEnd, rfl⟩
    · obtain ⟨rest, later, rfl⟩ := Option.map_eq_some_iff.mp found
      obtain ⟨closing, isEnd, rfl⟩ := ih later
      exact ⟨closing, isEnd, rfl⟩

theorem append_of_dropPrefix? {needle cs rest : List Char}
    (dropped : Text.dropPrefix? needle cs = some rest) : cs = needle ++ rest := by
  unfold Text.dropPrefix? at dropped
  split at dropped
  · next starts => cases dropped; exact Text.isPrefixOf_append_drop starts
  · cases dropped

theorem not_mem_of_breakOn {c : Char} {cs before after : List Char}
    (found : Text.breakOn [c] cs = some (before, after)) : c ∉ before := by
  induction cs generalizing before after with
  | nil => cases found
  | cons d cs ih =>
    unfold Text.breakOn at found
    split at found
    · cases found
      exact List.not_mem_nil
    · next elsewhere =>
      obtain ⟨⟨inner, rest⟩, later, same⟩ := Option.map_eq_some_iff.mp found
      cases same
      intro member
      obtain rfl | inside := List.mem_cons.mp member
      · exact elsewhere (by simp)
      · exact ih later inside

theorem append_of_condition? {value raw rest : List Char}
    (opened : ConditionalComment.condition? value = some (raw, rest)) :
    ']' ∉ raw ∧ value = "[if".toList ++ raw ++ ']' :: rest := by
  unfold ConditionalComment.condition? at opened
  simp only [Option.bind_eq_bind, Option.bind_eq_some_iff] at opened
  obtain ⟨afterIf, starts, broken⟩ := opened
  refine ⟨not_mem_of_breakOn broken, ?_⟩
  rw [append_of_dropPrefix? starts, Text.eq_of_breakOn broken]
  simp

theorem append_of_classify? {value before body : List Char} {condition : String}
    (classified : ConditionalComment.classify? value = some (.block condition before body)) :
    ∃ raw closing, ']' ∉ raw ∧ condition = ConditionalComment.normalizeCondition raw ∧
      before = "[if".toList ++ raw ++ "]>".toList ∧ ConditionalComment.isEndMark closing = true ∧
      value = before ++ body ++ closing := by
  unfold ConditionalComment.classify? at classified
  split at classified
  · cases classified
  · simp only [Option.bind_eq_bind, Option.bind_eq_some_iff] at classified
    obtain ⟨⟨raw, rest⟩, opened, inner, closed, found⟩ := classified
    obtain ⟨clean, same⟩ := append_of_condition? opened
    dsimp only at found closed
    split at found
    · next body' ends =>
      cases found
      obtain ⟨closing, isEnd, rfl⟩ := append_of_beforeEndMark? ends
      refine ⟨raw, closing, clean, rfl, rfl, isEnd, ?_⟩
      rw [same, append_of_dropPrefix? closed]
      simp
    · split at found <;> cases found

theorem classify?_of_conditionalOf? {options : ParseOptions} {value : List Char}
    {comment : ConditionalComment} (found : conditionalOf? options value = some comment) :
    ConditionalComment.classify? value = some comment := by
  unfold conditionalOf? at found
  split at found
  · exact found
  · cases found

theorem window_of_classify? {span : Span} {value before body : List Char} {condition : String}
    (cut : Cut source span.start span.stop ("<!--".toList ++ value ++ "-->".toList))
    (classified : ConditionalComment.classify? value = some (.block condition before body)) :
    Fills source span.start (sectionStart span before) ∧
      Cut source (sectionStart span before) (sectionStart span before + byteLength body) body ∧
      Fills source (sectionStart span before + byteLength body) span.stop := by
  obtain ⟨_, closing, _, _, _, _, rfl⟩ := append_of_classify? classified
  have parts : "<!--".toList ++ (before ++ body ++ closing) ++ "-->".toList =
      ("<!--".toList ++ before) ++ (body ++ (closing ++ "-->".toList)) := by simp
  rw [parts] at cut
  have starts : span.start + byteLength ("<!--".toList ++ before) = sectionStart span before := by
    rw [Text.byteLength_append, ← Nat.add_assoc]
    rfl
  obtain ⟨opening, rest⟩ := cut.of_append
  rw [starts] at opening rest
  obtain ⟨section', last⟩ := rest.of_append
  exact ⟨⟨_, by simp, opening⟩, section', _, by simp, last⟩

/-- Whatever was read of its section, a conditional comment is made up of its opening, the section
and its closing. -/
theorem tiled_conditionalNode {span : Span} {condition : String} {before body : List Char}
    {content : Except Failure OpenElements}
    (opening : Fills source span.start (sectionStart span before))
    (window : Cut source (sectionStart span before) (sectionStart span before + byteLength body) body)
    (closing : Fills source (sectionStart span before + byteLength body) span.stop)
    (read : ∀ opened, content = .ok opened →
      opened.Covers source (sectionStart span before) (sectionStart span before + byteLength body))
    (unread : ∀ failure, content = .error failure → body ≠ []) :
    (conditionalNode span condition before body content).Tiled source ∧
      (conditionalNode span condition before body content).span = span := by
  unfold conditionalNode
  cases content with
  | ok opened =>
    have tiles := OpenElements.tiles_finish (read opened rfl)
    exact ⟨Or.inl ⟨rfl, _, _, .ended rfl rfl opening closing, tiles⟩, rfl⟩
  | error failure =>
    refine ⟨Or.inl ⟨rfl, _, _, .ended rfl rfl opening closing, rfl, ?_, rfl⟩, rfl⟩
    refine Fragment.tiled_leaf rfl (unread failure rfl) window ?_
    rintro _ ⟨⟩
    rfl

theorem commentNode_eq_leaf (span : Span) (value : List Char) (comment : Option ConditionalComment) :
    ∃ kind, commentNode span value comment = .leaf kind span ∧ kind.hasSection = false ∧
      ∀ text, kind ≠ .text text := by
  unfold commentNode
  split
  · exact ⟨_, rfl, rfl, nofun⟩
  · exact ⟨_, rfl, rfl, nofun⟩
  · exact ⟨_, rfl, rfl, nofun⟩

/-! ### Sources -/

theorem window_of_readLexeme {options : ParseOptions} {lexeme : Lexeme} (nonempty : cursor.rest ≠ [])
    (window : Cut source cursor.pos stop cursor.rest)
    (read : readLexeme options cursor = .ok (lexeme, next)) :
    ∃ taken, taken ≠ [] ∧ lexeme.ReadAs cursor next taken ∧
      Cut source cursor.pos next.pos taken ∧ Cut source next.pos stop next.rest := by
  obtain ⟨taken, some_taken, readAs⟩ := readAs_of_readLexeme nonempty read
  exact ⟨taken, some_taken, readAs, readAs.takes.cut window⟩

theorem nonempty_of_readContent_error {options : ParseOptions} {opened : OpenElements}
    {failure : Failure} (failed : readContent options opened cursor = .error failure) :
    cursor.rest ≠ [] := by
  intro empty
  unfold readContent at failed
  rw [dif_pos empty] at failed
  cases failed

/-- Reading a window covers it. -/
theorem covers_readContent {options : ParseOptions} {opened after : OpenElements}
    (covers : opened.Covers source start cursor.pos) (window : Cut source cursor.pos stop cursor.rest)
    (read : readContent options opened cursor = .ok after) : after.Covers source start stop := by
  -- The window is generalized as well: the section of a comment is read in a window of its own.
  fun_induction readContent options opened cursor generalizing start stop after with
  | case1 opened cursor empty =>
    cases read
    obtain ⟨_, _, _, _, stops⟩ := window
    rw [empty, Text.byteLength_nil, Nat.add_zero] at stops
    exact stops ▸ covers
  | case2 => cases read
  | case3 => cases read
  | case4 opened cursor nonempty tag next lexeme inner later element ih =>
    obtain ⟨taken, some_taken, readAs, cut, rest⟩ := window_of_readLexeme nonempty window lexeme
    have span : tag.span = cursor.spanTo next := readAs.span
    have here : opened.Covers source start tag.span.start := by rw [span]; exact covers
    have opening : Fills source tag.span.start tag.span.stop := by
      rw [span]
      exact ⟨taken, some_taken, cut⟩
    obtain ⟨covered, left⟩ :=
      covers_readElement here opening (congrArg Span.stop span) rest element
    exact ih covered left read
  | case5 opened cursor nonempty value span next lexeme condition before body found content ihInside =>
    rename_i ih
    obtain ⟨taken, some_taken, readAs, cut, rest⟩ := window_of_readLexeme nonempty window lexeme
    obtain rfl : span = cursor.spanTo next := readAs.span
    have cut : Cut source (cursor.spanTo next).start (cursor.spanTo next).stop _ :=
      readAs.comment _ _ rfl ▸ cut
    obtain ⟨opening, inside, closing⟩ := window_of_classify? cut (classify?_of_conditionalOf? found)
    obtain ⟨tiled, spans⟩ := tiled_conditionalNode opening inside closing
      (fun _ ok => ihInside (OpenElements.covers_empty source _) inside ok)
      (fun _ failed => nonempty_of_readContent_error failed)
    have starts := congrArg Span.start spans
    have added := OpenElements.covers_add covers tiled starts
    rw [spans] at added
    exact ih added rest read
  | case6 opened cursor nonempty value span next lexeme _ ih =>
    obtain ⟨taken, some_taken, readAs, cut, rest⟩ := window_of_readLexeme nonempty window lexeme
    obtain rfl : span = cursor.spanTo next := readAs.span
    obtain ⟨kind, leaf, plain, noText⟩ :=
      commentNode_eq_leaf (cursor.spanTo next) value (conditionalOf? options value)
    have here : opened.Covers source start (cursor.spanTo next).start := covers
    have added := OpenElements.covers_addLeaf here plain some_taken cut
      fun value text => absurd text (noText value)
    rw [← leaf] at added
    exact ih added rest read
  | case7 => cases read
  | case8 opened cursor nonempty lexeme next noElement noComment found inner followed ih =>
    obtain ⟨taken, some_taken, readAs, cut, rest⟩ := window_of_readLexeme nonempty window found
    have same := readAs.span
    have here : opened.Covers source start lexeme.span.start := by rw [same]; exact covers
    have covered := covers_follow here some_taken readAs window noElement noComment followed
    rw [same] at covered
    exact ih covered rest read

/-! ### Front matter -/

theorem unlines_cons {line : List Char} {lines : List (List Char)} (nonempty : lines ≠ []) :
    FrontMatter.unlines (line :: lines) = line ++ '\n' :: FrontMatter.unlines lines := by
  unfold FrontMatter.unlines
  rw [List.intercalate_cons_of_ne_nil nonempty, List.append_assoc, List.singleton_append]

theorem append_of_unlines {first : List (List Char)} (more : List (List Char)) (nonempty : first ≠ []) :
    ∃ tail, FrontMatter.unlines (first ++ more) = FrontMatter.unlines first ++ tail := by
  induction first with
  | nil => exact absurd rfl nonempty
  | cons line rest ih =>
    by_cases single : rest = []
    · subst single
      by_cases last : more = []
      · subst last
        exact ⟨[], by simp⟩
      · refine ⟨'\n' :: FrontMatter.unlines more, ?_⟩
        rw [List.singleton_append, unlines_cons last]
        simp [FrontMatter.unlines]
    · obtain ⟨tail, same⟩ := ih single
      refine ⟨tail, ?_⟩
      rw [List.cons_append, unlines_cons (List.append_ne_nil_of_left_ne_nil single more), same,
        unlines_cons single, List.append_assoc, List.cons_append]

theorem unlines_splitOnChars (cs : List Char) :
    FrontMatter.unlines (Text.splitOnChars (· = '\n') cs) = cs :=
  Text.intercalate_splitOnChars cs

theorem append_of_untilCloser {opener closer : String} {lines body : List (List Char)}
    {last : List Char} (found : FrontMatter.untilCloser opener lines = some (body, last, closer)) :
    ∃ more, lines = body ++ [last] ++ more := by
  induction lines generalizing body with
  | nil => cases found
  | cons line lines ih =>
    unfold FrontMatter.untilCloser at found
    split at found
    · cases found
      exact ⟨lines, rfl⟩
    · obtain ⟨⟨rest, last', closer'⟩, later, same⟩ := Option.map_eq_some_iff.mp found
      cases same
      obtain ⟨more, rfl⟩ := ih later
      exact ⟨more, rfl⟩

/-- A block of front matter stands at the front of the source. -/
theorem append_of_parse? {block : FrontMatter} (found : FrontMatter.parse? source = some block) :
    block.raw.toList ≠ [] ∧ ∃ rest, source = block.raw.toList ++ rest := by
  unfold FrontMatter.parse? at found
  simp only [Option.bind_eq_bind, Option.bind_eq_some_iff] at found
  obtain ⟨opener, -, ⟨first, after⟩, broken, ⟨body, last, closer⟩, closed, made⟩ := found
  obtain ⟨more, lines⟩ := append_of_untilCloser closed
  split at made
  · cases made
  · cases made
    have some_lines : body ++ [last] ≠ [] := by simp
    have whole : source = FrontMatter.unlines ((first :: (body ++ [last])) ++ more) := by
      rw [List.cons_append, ← lines,
        unlines_cons (Text.splitOnChars_ne_nil _ _), unlines_splitOnChars, Text.eq_of_breakOn broken]
      simp
    obtain ⟨tail, same⟩ := append_of_unlines more (List.cons_ne_nil first (body ++ [last]))
    rw [String.toList_ofList, List.cons_append]
    refine ⟨?_, tail, whole.trans same⟩
    rw [unlines_cons some_lines]
    simp

/-! ### Documents -/

/-- What is read of a source: all of it, or its front matter and all that follows. -/
inductive ReadsSource (options : ParseOptions) (source : List Char) : List Fragment → Prop where
  | all {opened : OpenElements} (found : readContent options {} ⟨0, source⟩ = .ok opened) :
      ReadsSource options source opened.finish
  | afterBlock {block : FrontMatter} {rest : List Char} {opened : OpenElements}
      (isBlock : FrontMatter.parse? source = some block) (nonempty : block.raw.toList ≠ [])
      (front : Cut source 0 (byteLength block.raw.toList) block.raw.toList)
      (window : Cut source (byteLength block.raw.toList) (byteLength source) rest)
      (found : readContent options {} ⟨byteLength block.raw.toList, rest⟩ = .ok opened) :
      ReadsSource options source (.leaf (.frontMatter block) ⟨0, byteLength block.raw.toList⟩ :: opened.finish)

theorem readsSource_of_readSource {options : ParseOptions} {content : List Fragment}
    (read : readSource options source = .ok content) : ReadsSource options source content := by
  unfold readSource at read
  dsimp only [bind, Except.bind] at read
  split at read
  · next block isBlock =>
    split at read
    · cases read
    next opened found =>
    cases read
    have isBlock : FrontMatter.parse? source = some block := by
      split at isBlock
      · exact isBlock
      · cases isBlock
    -- What follows front matter is what is left of the source after it.
    obtain ⟨nonempty, rest, same⟩ := append_of_parse? isBlock
    have whole : Cut source 0 (byteLength source) (block.raw.toList ++ rest) := same ▸ Cut.whole source
    obtain ⟨front, window⟩ := whole.of_append
    rw [Nat.zero_add] at front window
    have dropped : source.drop block.raw.toList.length = rest := by rw [same, List.drop_left]
    rw [dropped] at found
    exact .afterBlock isBlock nonempty front window found
  · split at read
    · cases read
    next opened found =>
    cases read
    exact .all found

/-- The nodes of a source tile it. -/
theorem tiles_of_readSource {options : ParseOptions} {content : List Fragment}
    (read : readSource options source = .ok content) : Tiles source content 0 (byteLength source) := by
  cases readsSource_of_readSource read with
  | all found =>
    have covers := covers_readContent (OpenElements.covers_empty source 0) (Cut.whole source) found
    exact OpenElements.tiles_finish covers
  | afterBlock isBlock nonempty front window found =>
    have covers := covers_readContent (OpenElements.covers_empty source _) window found
    exact ⟨rfl, Fragment.tiled_leaf rfl nonempty front nofun, OpenElements.tiles_finish covers⟩

/-- The nodes of a source, put together in document order, are the source; each of them lies inside
the one above it, apart from its neighbours, and each text is what its span covers. -/
theorem writtenAll_of_parse {source : String} {options : ParseOptions} {content : List Fragment}
    (parsed : parse source options = .ok content) :
    Fragment.writtenAll source.toList content = source.toList ∧
      Fragment.PlacedWithin source.toList content 0 (byteLength source.toList) := by
  unfold parse at parsed
  dsimp only at parsed
  have read : readSource options source.toList = .ok content := by
    split at parsed
    · cases parsed
    · cases found : readSource options source.toList with
      | error failure => rw [found] at parsed; cases parsed
      | ok read => rw [found] at parsed; cases parsed; rfl
  have tiles := tiles_of_readSource read
  have whole := Cut.whole source.toList
  exact ⟨(Fragment.Tiles.cut_writtenAll whole.nil_start tiles).unique whole,
    Fragment.Tiles.placedWithin tiles⟩

/-- Elements ended by a sibling, by a tag without a name and by an end tag around them, raw text that
holds part of its end tag, and a section that cannot be read. -/
def nestedSource : String :=
  "<ul><li>a<li><script>x</scrip</script><//></ul>é<!--[if IE]><i></b><![endif]-->"

theorem writtenAll_of_parse_nestedSource : ∃ content, parse nestedSource {} = .ok content ∧
    Fragment.writtenAll nestedSource.toList content = nestedSource.toList ∧
    Fragment.PlacedWithin nestedSource.toList content 0 (byteLength nestedSource.toList) := by
  cases parsed : parse nestedSource {} with
  | ok content => exact ⟨content, rfl, writtenAll_of_parse parsed⟩
  | error failure =>
    have readable : (parse nestedSource {}).isOk = true := by decide +kernel
    rw [parsed] at readable
    cases readable

end MarkupFormat.Markup
