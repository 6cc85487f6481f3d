import Mathlib.Data.List.Chain
import MarkupFormat.Proofs.Markup.Attributes

/-!
# Attributes that touch

Whether attributes that touch are kept as one is decided by the first two characters of the one and of the other.
So what is left apart ends with a quote, and a template block in it is never at the front of either attribute
(`touching_of_parse`). A block further on does not join them (`brokenRun`).
-/

namespace MarkupFormat.Markup

open Text (byteLength isMarkupSpace opensBlock scan templateBlock?)

/-! ### Blocks in an attribute -/

/-- Whether a closed block stands in a text outside of what is quoted in it. -/
def holdsBlock : List Char → Bool
  | [] => false
  | c :: cs =>
    (templateBlock? (c :: cs)).isSome ||
      if c = '"' || c = '\'' then holdsBlock ((scan (atChar c) cs).2.drop 1) else holdsBlock cs
  termination_by cs => cs.length
  decreasing_by
    · have := Text.length_scan (atChar c) cs
      simp only [List.length_drop, List.length_cons]
      omega
    · simp

namespace Attribute

/-- Whether something stands between the value and the end of the attribute, which is a quote. -/
def isQuoted (attr : Attribute) : Bool :=
  attr.valueSpan.any (·.stop < attr.span.stop)

/-- Whether a closed block stands in a value that is not quoted. -/
def valueHoldsBlock (attr : Attribute) : Bool :=
  !attr.isQuoted && attr.value.any fun value => value.toList.tails.any fun cs => (templateBlock? cs).isSome

/-- Whether a closed block stands outside of a quoted value. -/
def holdsBlock (attr : Attribute) : Bool :=
  Markup.holdsBlock attr.rawName.toList || attr.valueHoldsBlock

/-- Whether a closed block stands outside of a quoted value and after the first character. -/
def holdsLaterBlock (attr : Attribute) : Bool :=
  Markup.holdsBlock (attr.rawName.toList.drop 1) || attr.valueHoldsBlock

/-- What is known of two attributes that touch. -/
structure Touching (first second : Attribute) : Prop where
  quoted : first.isQuoted = true
  firstPlain : opensBlock first.rawName.toList = false
  secondPlain : opensBlock second.rawName.toList = false
  /-- Without a block further on they are as apart as they should be. -/
  apart : first.holdsBlock = false ∧ second.holdsBlock = false ↔
    first.holdsLaterBlock = false ∧ second.holdsLaterBlock = false

end Attribute

theorem opensBlock_of_templateBlock? {cs block rest : List Char} (found : templateBlock? cs = some (block, rest)) :
    opensBlock block = true := by
  unfold templateBlock? at found
  split at found
  · simp only [Option.bind_eq_bind, Option.bind_eq_some_iff, Option.pure_def] at found
    obtain ⟨closer, isCloser, _, _, same⟩ := found
    cases same
    simp only [List.cons_append, opensBlock, isCloser, Option.isSome_some]
  · cases found

theorem opensBlock_append {cs : List Char} (opens : opensBlock cs = true) (ds : List Char) :
    opensBlock (cs ++ ds) = true := by
  unfold opensBlock at opens
  split at opens
  · exact opens
  · cases opens

theorem templateBlock?_eq_none {cs : List Char} (plain : opensBlock cs = false) : templateBlock? cs = none := by
  cases found : templateBlock? cs with
  | none => rfl
  | some parts =>
    have opens := opensBlock_append (opensBlock_of_templateBlock? found) parts.2
    rw [← Text.eq_of_templateBlock? found, plain] at opens
    cases opens

theorem holdsBlock_eq_holdsLaterBlock {attr : Attribute} (plain : opensBlock attr.rawName.toList = false)
    (named : atNameEnd attr.rawName.toList = false) : attr.holdsBlock = attr.holdsLaterBlock := by
  unfold Attribute.holdsBlock Attribute.holdsLaterBlock
  cases same : attr.rawName.toList with
  | nil => rw [same] at named; cases named
  | cons c cs =>
    rw [same] at plain named
    have noQuote : (c = '"' || c = '\'') = false := by
      simp only [atNameEnd, Bool.or_eq_false_iff] at named ⊢
      exact ⟨named.1.2, named.2⟩
    rw [holdsBlock, templateBlock?_eq_none plain, noQuote]
    rfl

/-! ### Where attributes end -/

variable {cursor next last : Cursor} {attr : Attribute} {attributes : List Attribute}

theorem atNameEnd_of_atBoundary {cs : List Char} (boundary : atBoundary cs = true) : atNameEnd cs = true := by
  unfold atBoundary at boundary
  split at boundary
  · rfl
  · rfl
  · rfl
  · simp only [atNameEnd, boundary, Bool.true_or]

theorem scan_atNameEnd (cs : List Char) : atNameEnd (scan atNameEnd cs).2 = true := by
  rcases Text.scan_stops atNameEnd cs with none | ends
  · rw [none]; rfl
  · exact ends

theorem gluedRun_atNameEnd (cs : List Char) : atNameEnd (gluedRun cs).2 = true := by
  fun_induction gluedRun cs with
  | case1 => rfl
  | case2 c cs block after found taken rest same ih => rw [same] at ih; exact ih
  | case3 c cs _ ends =>
    simp only [Bool.or_eq_true, decide_eq_true_eq] at ends
    rcases ends with boundary | rfl
    · exact atNameEnd_of_atBoundary boundary
    · rfl
  | case4 c cs _ _ _ inner taken rest same ih => rw [same] at ih; exact ih
  | case5 c cs _ _ _ taken rest same ih => rw [same] at ih; exact ih

theorem readValue_stops (cursor : Cursor) :
    (readValue cursor).2.1.stop < (readValue cursor).2.2.pos ∨ atNameEnd (readValue cursor).2.2.rest = true := by
  have quoted (quote : Char) (cs : List Char) :
      (readValue.quotedValue cursor quote cs).2.1.stop < (readValue.quotedValue cursor quote cs).2.2.pos ∨
        atNameEnd (readValue.quotedValue cursor quote cs).2.2.rest = true := by
    simp only [readValue.quotedValue, Cursor.skip, Cursor.spanTo]
    cases (scan (atChar quote) cs).2 with
    | nil => exact .inr rfl
    | cons c rest =>
      refine .inl ?_
      simp only [List.take_succ_cons, List.take_zero, Text.byteLength_cons, Text.byteLength_nil]
      have := c.utf8Size_pos
      omega
  unfold readValue
  split
  · exact quoted ..
  · exact quoted ..
  · refine .inr ?_
    rcases Text.scan_stops atBoundary cursor.rest with none | ends
    · simp only [Cursor.skip, none]; rfl
    · exact atNameEnd_of_atBoundary ends

theorem rest_skipSpace_of_pos (still : cursor.skipSpace.pos = cursor.pos) : cursor.skipSpace.rest = cursor.rest := by
  obtain ⟨blank, -, rest, pos⟩ := takes_skipSpace cursor
  have none : blank = [] := by
    by_contra some
    have := Text.byteLength_pos some
    omega
  rw [rest, none]
  rfl

theorem isQuoted_of_readSingle (noBlock : templateBlock? cursor.rest = none)
    (touches : (readSingle cursor).2.pos = (readSingle cursor).1.span.stop)
    (follows : atNameEnd (readSingle cursor).2.rest = false) : (readSingle cursor).1.isQuoted = true := by
  unfold readSingle at touches follows ⊢
  rw [noBlock] at touches follows ⊢
  dsimp only at touches follows ⊢
  generalize named : cursor.skip (scan atNameEnd cursor.rest).1 (scan atNameEnd cursor.rest).2 = name at *
  split at touches
  · next after sign =>
    simp only [sign] at follows ⊢
    rcases readValue_stops (name.skipSpace.skip ['='] after).skipSpace with quote | ends
    · exact decide_eq_true quote
    · rw [ends] at follows; cases follows
  · next noSign =>
    have ends : atNameEnd name.skipSpace.rest = true := by
      rw [rest_skipSpace_of_pos touches, ← named]
      exact scan_atNameEnd cursor.rest
    split at follows
    · next sign => exact absurd sign (noSign _)
    · rw [ends] at follows; cases follows

theorem Attribute.ReadFrom.begins {taken : List Char} (read : attr.ReadFrom cursor next) (left : next.rest ≠ [])
    (takes : cursor.Takes next taken) : attr.rawName ≠ "" ∧ ∃ more, taken = attr.rawName.toList ++ more := by
  rcases read with ⟨text, blank, takes', -, written, -⟩ | none
  · have same : taken = text ++ blank := List.append_cancel_right (takes.1.symm.trans takes'.1)
    rw [same]
    cases written with
    | bare named => exact ⟨named, blank, rfl⟩
    | valued named => exact ⟨named, _, by simp only [List.append_assoc]; rfl⟩
  · exact absurd none left

/-- If what was taken as an attribute does not open a block, a block in the attribute comes later. -/
theorem plain_of_readAttribute {taken : List Char} (begins : atNameEnd cursor.rest = false)
    (takes : cursor.Takes (readAttribute cursor).2 taken) (left : (readAttribute cursor).2.rest ≠ [])
    (plain : opensBlock taken = false) :
    opensBlock (readAttribute cursor).1.rawName.toList = false ∧
      (readAttribute cursor).1.holdsBlock = (readAttribute cursor).1.holdsLaterBlock := by
  obtain ⟨named, more, rfl⟩ := (readFrom_readAttribute begins).begins left takes
  rw [takes.1, List.append_assoc] at begins
  have plainName : opensBlock (readAttribute cursor).1.rawName.toList = false := by
    by_contra opens
    rw [opensBlock_append (Bool.not_eq_false _ ▸ opens)] at plain
    cases plain
  refine ⟨plainName, holdsBlock_eq_holdsLaterBlock plainName ?_⟩
  cases same : (readAttribute cursor).1.rawName.toList with
  | nil => exact absurd (String.toList_eq_nil_iff.mp same) named
  | cons c cs => rwa [same] at begins

theorem textTo_of_takes {taken : List Char} (takes : cursor.Takes next taken) : cursor.textTo next = taken := by
  unfold Cursor.textTo
  rw [takes.1, List.length_append, Nat.add_sub_cancel, List.take_left]

/-- Only where neither opens a block is an attribute left apart from what touches it. -/
theorem apart_of_readAttribute (touches : (readAttribute cursor).2.pos = (readAttribute cursor).1.span.stop)
    (follows : atNameEnd (readAttribute cursor).2.rest = false) :
    (readAttribute cursor).1.isQuoted = true ∧ opensBlock (cursor.textTo (readAttribute cursor).2) = false ∧
      opensBlock (readAttribute cursor).2.rest = false := by
  unfold readAttribute at touches follows ⊢
  dsimp only at touches follows ⊢
  split at touches
  · next glued =>
    have ends := gluedRun_atNameEnd (readSingle cursor).2.rest
    rw [if_pos glued] at follows
    exact absurd ends (Bool.not_eq_true _ ▸ follows)
  · next apart =>
    rw [if_neg apart] at follows ⊢
    dsimp only at touches follows ⊢
    have within : atBoundary (readSingle cursor).2.rest = false := by
      by_contra boundary
      rw [atNameEnd_of_atBoundary (Bool.not_eq_false _ ▸ boundary)] at follows
      cases follows
    simp only [touches, within, decide_true, Bool.not_false, Bool.and_self, Bool.true_and, Bool.or_eq_true, not_or,
      Bool.not_eq_true] at apart
    refine ⟨isQuoted_of_readSingle ?_ touches follows, apart⟩
    cases found : templateBlock? cursor.rest with
    | none => rfl
    | some parts =>
      have block : (readSingle cursor).2 = cursor.skip parts.1 parts.2 := by
        unfold readSingle
        rw [found]
      rw [block, textTo_of_takes (Cursor.takes_skip (Text.eq_of_templateBlock? found)),
        opensBlock_of_templateBlock? found] at apart
      cases apart.1

/-! ### All attributes of a tag -/

theorem Attribute.ReadFrom.span_le (read : attr.ReadFrom cursor next) (left : next.rest ≠ []) :
    attr.span.start = cursor.pos ∧ attr.span.stop ≤ next.pos := by
  rcases read with ⟨text, blank, takes, -, -, span⟩ | none
  · have ends := takes.2
    rw [Text.byteLength_append] at ends
    rw [span]
    refine ⟨rfl, ?_⟩
    dsimp only
    omega
  · exact absurd none left

theorem ReadsAttributes.pos_le (reads : ReadsAttributes cursor attributes last) :
    ∀ attr ∈ attributes.head?, cursor.pos ≤ attr.span.start := by
  have spaced (cursor : Cursor) : cursor.pos ≤ cursor.skipSpace.pos := Nat.le_add_right ..
  induction reads with
  | closed => exact fun _ member => nomatch member
  | selfClosed => exact fun _ member => nomatch member
  | @slash cursor last rest attributes _ _ ih =>
    intro attr member
    have later := ih attr member
    have := spaced cursor
    simp only [Cursor.skip] at later
    omega
  | @cons cursor last attributes begins others =>
    rintro attr ⟨⟩
    have start := ((readFrom_readAttribute begins).span_le others.rest_ne_nil).1
    have := spaced cursor
    omega

/-- The first attribute is read at once, or something stands before it. -/
theorem ReadsAttributes.first (reads : ReadsAttributes cursor (attr :: attributes) last) :
    (attr = (readAttribute cursor).1 ∧ atNameEnd cursor.rest = false ∧ (readAttribute cursor).2.rest ≠ []) ∨
      cursor.pos < attr.span.start := by
  cases reads with
  | @slash _ _ rest _ _ others =>
    have later := others.pos_le attr rfl
    simp only [Cursor.skip, Cursor.skipSpace, Text.byteLength_cons, Text.byteLength_nil] at later
    have := Char.utf8Size_pos '/'
    exact .inr (by omega)
  | cons begins others =>
    by_cases still : cursor.skipSpace.pos = cursor.pos
    · have same : cursor.skipSpace = cursor := congrArg₂ Cursor.mk still (rest_skipSpace_of_pos still)
      rw [same] at begins others ⊢
      exact .inl ⟨rfl, begins, others.rest_ne_nil⟩
    · have start := ((readFrom_readAttribute begins).span_le others.rest_ne_nil).1
      have : cursor.pos ≤ cursor.skipSpace.pos := Nat.le_add_right ..
      exact .inr (by omega)

theorem touching_of_first {second : Attribute} (begins : atNameEnd cursor.rest = false)
    (reads : ReadsAttributes (readAttribute cursor).2 (second :: attributes) last)
    (touch : (readAttribute cursor).1.span.stop = second.span.start) : (readAttribute cursor).1.Touching second := by
  have left := reads.rest_ne_nil
  obtain ⟨-, before⟩ := (readFrom_readAttribute begins).span_le left
  rcases reads.first with ⟨rfl, follows, left'⟩ | later
  · obtain ⟨start, -⟩ := (readFrom_readAttribute follows).span_le left'
    obtain ⟨quoted, plain, plain'⟩ := apart_of_readAttribute (touch.trans start).symm follows
    obtain ⟨taken, takes⟩ := reaches_readAttribute cursor
    obtain ⟨taken', takes'⟩ := reaches_readAttribute (readAttribute cursor).2
    rw [textTo_of_takes takes] at plain
    have front : opensBlock taken' = false := by
      by_contra opens
      rw [takes'.1, opensBlock_append (Bool.not_eq_false _ ▸ opens)] at plain'
      cases plain'
    obtain ⟨firstPlain, firstLater⟩ := plain_of_readAttribute begins takes left plain
    obtain ⟨secondPlain, secondLater⟩ := plain_of_readAttribute follows takes' left' front
    exact ⟨quoted, firstPlain, secondPlain, by rw [firstLater, secondLater]⟩
  · omega

theorem ReadsAttributes.touching (reads : ReadsAttributes cursor attributes last) :
    attributes.IsChain fun first second => first.span.stop = second.span.start → first.Touching second := by
  induction reads with
  | closed => exact .nil
  | selfClosed => exact .nil
  | slash _ _ ih => exact ih
  | @cons cursor last attributes begins others ih =>
    refine List.isChain_cons.mpr ⟨?_, ih⟩
    intro second member
    obtain ⟨rest, rfl⟩ : ∃ rest, attributes = second :: rest := List.head?_eq_some_iff.mp member
    exact touching_of_first begins others

/-- Attributes that touch were not joined because the first ends with a quote and neither opens a block; only a block
further on, in either of them, may still be there. -/
theorem touching_of_parse {source : String} {options : ParseOptions} {content : List Fragment}
    (parsed : parse source options = .ok content) :
    ∀ node ∈ content, node.ElementsSay fun _ element => element.attributes.IsChain fun first second =>
      first.span.stop = second.span.start → first.Touching second := by
  refine elementsSay_of_parse (fun tag read parent => ?_) parsed
  obtain ⟨cursor, next, -, -, -, read⟩ := read
  unfold readStartTag at read
  dsimp only [bind, Except.bind] at read
  split at read
  · cases read
  · next found attributes =>
    cases read
    exact (readsAttributes_of_readAttributes attributes).touching

/-- The block at the end is not joined to what is before it. -/
def brokenRun : String := "<p a=\"v\"b\x7b\x7bx\x7d\x7d>"

theorem touching_of_parse_brokenRun :
    let first : Attribute := ⟨"a", some "v", ⟨3, 8⟩, some ⟨6, 7⟩⟩
    let second : Attribute := ⟨"b\x7b\x7bx\x7d\x7d", none, ⟨8, 14⟩, none⟩
    ∃ node, parse brokenRun {} = .ok [node] ∧ node.attributes? = some [first, second] ∧ first.Touching second ∧
      second.holdsBlock = true := by
  intro first second
  have read : (parse brokenRun {}).toOption.map (·.map Fragment.attributes?) = some [some [first, second]] := by
    decide +kernel
  obtain ⟨node, parsed, found⟩ := exists_parse_of_attributes? read
  obtain ⟨-, element, chain, same⟩ :=
    exists_said_of_attributes? (touching_of_parse parsed node (List.mem_singleton_self node)) found
  rw [same] at chain
  exact ⟨node, parsed, found, (List.isChain_pair.mp chain) rfl, by decide +kernel⟩

end MarkupFormat.Markup
