import Mathlib.Control.Monad.Basic
import MarkupFormat.Proofs.Markup.Building
import MarkupFormat.Proofs.Markup.Outcome
import MarkupFormat.Proofs.Markup.Rollback

/-!
# Sections that cannot be read

A section of a conditional comment that cannot be read is kept as a text. `read_of_unreadSection` says that nothing else
is left of the attempt: wherever such a comment is met in a source, reading goes on with the table as it was, the
comment and the text added, and with the same open elements, and it ends as if the comment were not there.
-/

namespace MarkupFormat.Markup

open Text (Cut byteLength)

/-- A builder, and what is left for it to read. -/
structure Reading where
  builder : Builder
  cursor : Cursor

/-- A conditional comment with a section is next. -/
def Cursor.AtSection (options : ParseOptions) (cursor next : Cursor) (span : Span) (condition : String)
    (before body : List Char) : Prop :=
  ∃ value, readLexeme options cursor = .ok (.comment value span, next) ∧
    conditionalOf? options value = some (.block condition before body)

namespace Reading

/-- The reading of a source, which begins after the front matter. -/
def start (options : ParseOptions) (source : String) : Reading :=
  let chars := source.toList
  let builder : Builder := { tree := .empty source, base := Tree.rootId }
  match (if options.frontMatter then FrontMatter.parse? chars else none) with
  | some block =>
    let raw := block.raw.toList
    ⟨builder.add { kind := .frontMatter block, span := ⟨0, byteLength raw⟩ }, ⟨byteLength raw, chars.drop raw.length⟩⟩
  | none => ⟨builder, ⟨0, chars⟩⟩

/-- The reading of a section, below the node that is added for its comment. -/
def inside (builder : Builder) (span : Span) (condition : String) (before body : List Char) : Reading :=
  let (added, id) := builder.append (conditionalInfo span condition before body true)
  ⟨{ tree := added.tree, base := id }, ⟨sectionStart span before, body⟩⟩

/-- What there is at the end of a reading, and whether it failed. -/
def result (options : ParseOptions) (reading : Reading) : Builder × Except Failure Unit :=
  reading.builder.read options reading.cursor

/-- What there is after the section of a conditional comment, whether it could be read or not. -/
def afterSection (options : ParseOptions) (builder : Builder) (span : Span) (condition : String)
    (before body : List Char) : Builder :=
  let (added, id) := builder.append (conditionalInfo span condition before body true)
  added.endSection id condition body (sectionSpan span before body)
    ((inside builder span condition before body).result options)

/-- A reading that takes one lexeme, with the content of an element if that is raw text and the section of a
conditional comment. -/
inductive Advances (options : ParseOptions) : Reading → Reading → Prop where
  | element {builder after : Builder} {cursor next last : Cursor} {tag : StartTag} :
    cursor.rest ≠ [] → readLexeme options cursor = .ok (.startTag tag, next) →
    builder.readElement tag next = (after, .ok last) → Advances options ⟨builder, cursor⟩ ⟨after, last⟩
  | section {builder : Builder} {cursor next : Cursor} {span : Span} {condition : String} {before body : List Char} :
    cursor.AtSection options next span condition before body →
    Advances options ⟨builder, cursor⟩ ⟨afterSection options builder span condition before body, next⟩
  | comment {builder : Builder} {cursor next : Cursor} {span : Span} {value : List Char} :
    readLexeme options cursor = .ok (.comment value span, next) →
    (∀ condition before body, conditionalOf? options value ≠ some (.block condition before body)) →
    Advances options ⟨builder, cursor⟩
      ⟨builder.add (commentNode span value (conditionalOf? options value)).info, next⟩
  | follow {builder after : Builder} {cursor next : Cursor} {lexeme : Lexeme} :
    cursor.rest ≠ [] → readLexeme options cursor = .ok (lexeme, next) → (∀ tag, lexeme ≠ .startTag tag) →
    (∀ value span, lexeme ≠ .comment value span) → builder.follow lexeme = .ok after →
    Advances options ⟨builder, cursor⟩ ⟨after, next⟩

/-- The reading of a source, or of a section in it, that began with the first reading comes to the second one. -/
inductive Comes (options : ParseOptions) (source : String) : Reading → Reading → Prop where
  | source : Comes options source (start options source) (start options source)
  | inside {first : Reading} {builder : Builder} {cursor next : Cursor} {span : Span} {condition : String}
    {before body : List Char} :
    Comes options source first ⟨builder, cursor⟩ → cursor.AtSection options next span condition before body →
    Comes options source (inside builder span condition before body) (inside builder span condition before body)
  | further {first reading later : Reading} :
    Comes options source first reading → Advances options reading later → Comes options source first later

end Reading

variable {options : ParseOptions} {source : String} {first reading later : Reading} {builder : Builder}
  {cursor next : Cursor} {span : Span} {condition : String} {before body : List Char}

theorem nonempty_of_comment {value : List Char} (lexed : readLexeme options cursor = .ok (.comment value span, next)) :
    cursor.rest ≠ [] := by
  intro empty
  unfold readLexeme at lexed
  rw [empty] at lexed
  cases lexed

/-! ### Readings go on -/

theorem Builder.read_of_atSection (at_section : cursor.AtSection options next span condition before body) :
    builder.read options cursor =
      (Reading.afterSection options builder span condition before body).read options next := by
  obtain ⟨value, lexed, found⟩ := at_section
  exact Builder.read_of_section (nonempty_of_comment lexed) lexed found

namespace Reading

theorem result_of_advances (advances : Advances options reading later) :
    reading.result options = later.result options := by
  unfold result
  cases advances with
  | element nonempty lexed element => rw [Builder.read_of_startTag nonempty lexed, element]
  | «section» at_section => exact Builder.read_of_atSection at_section
  | comment lexed other => exact Builder.read_of_comment (nonempty_of_comment lexed) lexed other
  | follow nonempty lexed noElement noComment followed =>
    rw [Builder.read_of_follow nonempty lexed noElement noComment, followed]

theorem result_of_comes (comes : Comes options source first reading) :
    first.result options = reading.result options := by
  induction comes with
  | source => rfl
  | inside => rfl
  | further _ advances ih => exact ih.trans (result_of_advances advances)

end Reading

theorem Tree.read_eq_result (options : ParseOptions) (source : String) :
    Tree.read options source =
      ((Reading.start options source).result options).2.map fun _ =>
        ((Reading.start options source).result options).1.finish := by
  unfold Tree.read Reading.start Reading.result
  dsimp only
  generalize (if options.frontMatter = true then FrontMatter.parse? source.toList else none) = block
  cases block <;> rfl

/-! ### Where readings are -/

/-- The table of a reading tells of open elements, and what is left to read is a part of the source. -/
structure Reading.Placed (source : String) (reading : Reading) : Prop where
  tells : ∃ base outer opened, reading.builder.Tells source base outer opened
  window : ∃ stop, Cut source.toList reading.cursor.pos stop reading.cursor.rest

theorem Cursor.Reaches.window {last : Cursor} (reached : cursor.Reaches last)
    (window : ∃ stop, Cut source.toList cursor.pos stop cursor.rest) :
    ∃ stop, Cut source.toList last.pos stop last.rest := by
  obtain ⟨taken, takes⟩ := reached
  obtain ⟨stop, window⟩ := window
  exact ⟨stop, (takes.cut window).2⟩

theorem reaches_readLexeme {lexeme : Lexeme} (nonempty : cursor.rest ≠ [])
    (lexed : readLexeme options cursor = .ok (lexeme, next)) : cursor.Reaches next := by
  obtain ⟨taken, -, readAs⟩ := readAs_of_readLexeme nonempty lexed
  exact ⟨taken, readAs.takes⟩

theorem Cursor.AtSection.cut (at_section : cursor.AtSection options next span condition before body)
    (window : ∃ stop, Cut source.toList cursor.pos stop cursor.rest) :
    Cut source.toList (sectionSpan span before body).start (sectionSpan span before body).stop body := by
  obtain ⟨value, lexed, found⟩ := at_section
  obtain ⟨stop, window⟩ := window
  obtain ⟨taken, -, readAs, cut, -⟩ := window_of_readLexeme (nonempty_of_comment lexed) window lexed
  obtain rfl : span = cursor.spanTo next := readAs.span
  have cut : Cut source.toList (cursor.spanTo next).start (cursor.spanTo next).stop _ :=
    readAs.comment _ _ rfl ▸ cut
  exact (window_of_classify? cut (classify?_of_conditionalOf? found)).2.1

theorem Cursor.AtSection.reaches (at_section : cursor.AtSection options next span condition before body) :
    cursor.Reaches next := by
  obtain ⟨value, lexed, -⟩ := at_section
  exact reaches_readLexeme (nonempty_of_comment lexed) lexed

namespace Reading

theorem placed_start (options : ParseOptions) (source : String) : (start options source).Placed source := by
  have empty : ({ tree := .empty source, base := Tree.rootId } : Builder).Tells source
      { info := Tree.rootInfo source } [] {} :=
    ⟨{}, rfl, Tree.lists_empty source, rfl, rfl⟩
  unfold start
  dsimp only
  split
  · next block found =>
    have found : FrontMatter.parse? source.toList = some block := by
      split at found
      · exact found
      · cases found
    obtain ⟨-, rest, same⟩ := append_of_parse? found
    have whole : Cut source.toList 0 (byteLength source.toList) (block.raw.toList ++ rest) :=
      same ▸ Cut.whole source.toList
    have left : source.toList.drop block.raw.toList.length = rest := by rw [same, List.drop_left]
    refine ⟨⟨_, _, _, Builder.tells_add empty _⟩, byteLength source.toList, ?_⟩
    rw [left, ← Nat.zero_add (byteLength block.raw.toList)]
    exact whole.of_append.2
  · exact ⟨⟨_, _, _, empty⟩, _, Cut.whole source.toList⟩

theorem Placed.inside (placed : Placed source ⟨builder, cursor⟩)
    (at_section : cursor.AtSection options next span condition before body) :
    (inside builder span condition before body).Placed source := by
  obtain ⟨_, _, _, _, _, holds⟩ := placed.tells
  exact ⟨⟨_, _, _, holds.tells_inside _⟩, _, at_section.cut placed.window⟩

theorem tells_section {base : Growing} {outer : List Growing} {opened : OpenElements}
    (tells : builder.Tells source base outer opened) (options : ParseOptions) (span : Span) (condition : String)
    (before body : List Char) :
    ∃ node, (afterSection options builder span condition before body).Tells source base outer (opened.add node) := by
  obtain ⟨raw, rfl, holds⟩ := tells
  obtain ⟨content, inside, -⟩ := tells_read options ⟨sectionStart span before, body⟩
    (holds.tells_inside (conditionalInfo span condition before body true))
  exact ⟨_, tells_endSection holds inside⟩

theorem Placed.advances (placed : reading.Placed source) (advances : Advances options reading later) :
    later.Placed source := by
  obtain ⟨⟨base, outer, opened, tells⟩, window⟩ := placed
  cases advances with
  | element nonempty lexed element =>
    obtain ⟨after, read, same⟩ := tells_readElement tells _ _
    rw [element] at read same
    have reached := (reaches_readLexeme nonempty lexed).trans (reaches_readElement same)
    exact ⟨⟨base, outer, after, read⟩, reached.window window⟩
  | «section» at_section =>
    obtain ⟨node, ended⟩ := tells_section tells options _ _ _ _
    exact ⟨⟨base, outer, _, ended⟩, at_section.reaches.window window⟩
  | comment lexed =>
    have reached := reaches_readLexeme (nonempty_of_comment lexed) lexed
    exact ⟨⟨base, outer, _, Builder.tells_add tells _⟩, reached.window window⟩
  | @follow _ _ _ _ lexeme nonempty lexed _ _ followed =>
    have agree := Builder.agree_follow tells lexeme
    rw [followed] at agree
    generalize opened.follow lexeme = expected at agree
    cases agree with
    | ok followed => exact ⟨⟨base, outer, _, followed⟩, (reaches_readLexeme nonempty lexed).window window⟩

theorem placed_of_comes (comes : Comes options source first reading) : reading.Placed source := by
  induction comes with
  | source => exact placed_start options source
  | inside _ at_section placed => exact placed.inside at_section
  | further _ advances placed => exact placed.advances advances

theorem Placed.container_lt (placed : Placed source ⟨builder, cursor⟩) : builder.container < builder.tree.size := by
  obtain ⟨_, _, _, _, _, holds⟩ := placed.tells
  obtain ⟨innermost, around, same, container⟩ := holds.container_eq
  rw [holds.lists.size_eq, Growing.length_rows, same, container, Growing.count]
  exact Nat.lt_add_of_pos_right (Nat.add_pos_left Nat.one_pos _)

end Reading

/-! ### Sections that are kept as texts -/

/-- Apart from the comment and the section as its text, a table is as it was, and so are the open elements. -/
structure Builder.KeepsUnread (builder : Builder) (span : Span) (condition : String) (before body : List Char)
    (after : Builder) : Prop where
  base_eq : after.base = builder.base
  opened_eq : after.opened = builder.opened
  source_eq : after.tree.source = builder.tree.source
  lines_eq : after.tree.lines = builder.tree.lines
  size_eq : after.tree.size = builder.tree.size + 2
  earlier : ∀ id < builder.tree.size, after.tree.nodes[id]? = builder.tree.nodes[id]?.map fun node =>
    if builder.container = id then { node with children := node.children ++ [builder.tree.size] } else node
  comment : after.tree.nodes[builder.tree.size]? = some
    { toNodeInfo := conditionalInfo span condition before body false
      parent := some builder.container
      children := [builder.tree.size + 1] }
  text : after.tree.nodes[builder.tree.size + 1]? = some
    { kind := .text (String.ofList body)
      span := sectionSpan span before body
      parent := some builder.tree.size }

theorem Builder.keepsUnread_addUnread (placed : builder.container < builder.tree.size) (span : Span)
    (condition : String) (before body : List Char) :
    builder.KeepsUnread span condition before body (builder.addUnread span condition before body) := by
  let comment : Node := { toNodeInfo := conditionalInfo span condition before body false }
  let text : Node := { kind := .text (String.ofList body), span := sectionSpan span before body }
  have size : (builder.tree.append builder.container comment).1.size = builder.tree.size + 1 := Tree.size_append ..
  have first (id : NodeId) := Tree.getElem?_append builder.tree builder.container id comment
  have second (id : NodeId) :=
    Tree.getElem?_append (builder.tree.append builder.container comment).1 builder.tree.size id text
  refine ⟨rfl, rfl, rfl, rfl, ?_, fun id less => ?_, ?_, ?_⟩
  · exact (Tree.size_append ..).trans (congrArg (· + 1) size)
  · refine (second id).trans ?_
    rw [size, if_neg (Nat.ne_of_lt (Nat.lt_succ_of_lt less)), first, if_neg (Nat.ne_of_lt less)]
    simp only [Nat.ne_of_gt less, if_false]
    exact Option.map_id' ..
  · refine (second _).trans ?_
    rw [size, if_neg (Nat.ne_of_lt (Nat.lt_succ_self _)), first, if_pos rfl]
    simp only [Nat.ne_of_lt placed, if_false, if_true, Option.map_some]
    rfl
  · refine (second _).trans ?_
    rw [size, if_pos rfl]
    simp only [Nat.ne_of_lt (Nat.lt_succ_self builder.tree.size), if_false, Option.map_some]
    rfl

theorem Reading.afterSection_of_error {failure : Failure} (placed : builder.container < builder.tree.size)
    (unread : ((inside builder span condition before body).result options).2 = .error failure) :
    afterSection options builder span condition before body = builder.addUnread span condition before body := by
  have above := Builder.above_read options ⟨sectionStart span before, body⟩
    (builder.above_start (conditionalInfo span condition before body true))
  have failed : (inside builder span condition before body).result options =
      (((inside builder span condition before body).result options).1, .error failure) := Prod.ext rfl unread
  unfold afterSection
  rw [failed]
  exact Builder.endSection_of_error placed failure above

/-- How reading ends does not depend on a comment that came before, whatever was read of its section. -/
theorem Reading.outcome_afterSection (placed : Reading.Placed source ⟨builder, cursor⟩) (options : ParseOptions)
    (span : Span) (condition : String) (before body : List Char) (next : Cursor) :
    ((afterSection options builder span condition before body).read options next).2 =
      (builder.read options next).2 := by
  obtain ⟨base, outer, opened, tells⟩ := placed.tells
  obtain ⟨node, ended⟩ := tells_section tells options span condition before body
  obtain ⟨_, -, with_comment⟩ := tells_read options next ended
  obtain ⟨_, -, without⟩ := tells_read options next tells
  have forget (result : Except Failure Unit) (opened : OpenElements) :
      (result.map fun _ => opened).map (fun _ => ()) = result := by
    cases result <;> rfl
  have same := outcome_add options opened node next
  rw [with_comment, without, forget, forget] at same
  exact same

/-- A section that cannot be read leaves nothing but its text: wherever it is met in a source or in a section around
it, reading goes on after it with the comment and the text added to the table, the nodes from before and the open
elements unchanged, and it ends as if the comment were not there. -/
theorem read_of_unreadSection {failure : Failure} (comes : Reading.Comes options source first ⟨builder, cursor⟩)
    (at_section : cursor.AtSection options next span condition before body)
    (unread : ((Reading.inside builder span condition before body).result options).2 = .error failure) :
    ∃ after, builder.KeepsUnread span condition before body after ∧
      Text.slice source.toList (sectionSpan span before body).start (sectionSpan span before body).stop =
        String.ofList body ∧
      first.result options = after.read options next ∧
      (first.result options).2 = (builder.read options next).2 ∧
      (first = .start options source → Tree.read options source =
        (after.read options next).2.map fun _ => (after.read options next).1.finish) := by
  have placed := Reading.placed_of_comes comes
  have reads : first.result options = (Reading.afterSection options builder span condition before body).read options
      next :=
    (Reading.result_of_comes comes).trans (Builder.read_of_atSection at_section)
  have outcome := Reading.outcome_afterSection placed options span condition before body next
  rw [Reading.afterSection_of_error placed.container_lt unread] at reads outcome
  refine ⟨_, Builder.keepsUnread_addUnread placed.container_lt span condition before body,
    (at_section.cut placed.window).slice_eq, reads, ?_, ?_⟩
  · rw [reads, outcome]
  · rintro rfl
    rw [Tree.read_eq_result, reads]

/-- A paragraph with a section in which an element is ended by the end tag of another one. -/
def unreadSource : String := "<p><!--[if IE]><i>x</b><![endif]-->y"

theorem read_of_unreadSection_unreadSource : ∃ (builder after : Builder) (cursor next : Cursor),
    Reading.Comes {} unreadSource (.start {} unreadSource) ⟨builder, cursor⟩ ∧
      cursor.AtSection {} next ⟨3, 35⟩ "IE" "[if IE]>".toList "<i>x</b>".toList ∧
      ((Reading.inside builder ⟨3, 35⟩ "IE" "[if IE]>".toList "<i>x</b>".toList).result {}).2 =
        .error ⟨.unmatchedEnd "b", ⟨19, 23⟩⟩ ∧
      builder.KeepsUnread ⟨3, 35⟩ "IE" "[if IE]>".toList "<i>x</b>".toList after ∧
      Tree.read {} unreadSource = (after.read {} next).2.map fun _ => (after.read {} next).1.finish := by
  let tag : StartTag := ⟨⟨0, 3⟩, ⟨1, 2⟩, ⟨"p", none, "p"⟩, [], false⟩
  let cursor : Cursor := ⟨3, "<!--[if IE]><i>x</b><![endif]-->y".toList⟩
  let builder := ((Reading.start {} unreadSource).builder.readElement tag cursor).1
  have lexed : readLexeme {} (Reading.start {} unreadSource).cursor = .ok (.startTag tag, cursor) := by decide +kernel
  have comes : Reading.Comes {} unreadSource (.start {} unreadSource) ⟨builder, cursor⟩ :=
    .further .source (.element (by decide +kernel) lexed (Prod.ext rfl (by decide +kernel)))
  have at_section : cursor.AtSection {} ⟨35, "y".toList⟩ ⟨3, 35⟩ "IE" "[if IE]>".toList "<i>x</b>".toList :=
    ⟨"[if IE]><i>x</b><![endif]".toList, by decide +kernel, by decide +kernel⟩
  have unread : ((Reading.inside builder ⟨3, 35⟩ "IE" "[if IE]>".toList "<i>x</b>".toList).result {}).2 =
      .error ⟨.unmatchedEnd "b", ⟨19, 23⟩⟩ := by
    decide +kernel
  obtain ⟨after, keeps, _, _, _, whole⟩ := read_of_unreadSection comes at_section unread
  exact ⟨builder, after, cursor, _, comes, at_section, unread, keeps, whole rfl⟩

end MarkupFormat.Markup
