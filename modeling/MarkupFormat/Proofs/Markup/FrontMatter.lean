import MarkupFormat.Proofs.Annotate.Trimmed
import MarkupFormat.Proofs.Markup.Declaration
import MarkupFormat.Proofs.Markup.TextsRead

/-!
# Front matter

A block of front matter is recognised by its lines, and no line after the closing one matters. So it is found again
before any other rest, also if blanks that end the closing line are gone (`FrontMatter.parse?_dropEnd`). Only a source
that begins with a block has a node of front matter at its front (`parse?_of_parse`).
-/

namespace MarkupFormat.Text

theorem isWhiteSpace_of_isLineBlank {c : Char} (blank : isLineBlank c = true) : isWhiteSpace c = true := by
  unfold isLineBlank at blank
  rcases Bool.or_eq_true_iff.mp blank with same | same
  · rw [of_decide_eq_true same]
    rfl
  · rw [of_decide_eq_true same]
    rfl

end MarkupFormat.Text

namespace MarkupFormat.Markup

open Text (dropEnd isLineBlank isWhiteSpace splitOnChars takeEnd)

namespace FrontMatter

/-! ### Lines -/

variable {source first last line more : List Char} {lines body : List (List Char)} {opener closer delimiter : String}
  {block : FrontMatter}

theorem isDelimiterLine_iff :
    isDelimiterLine delimiter line = true ↔ ∃ rest, line = delimiter.toList ++ rest ∧ rest.all isWhiteSpace = true := by
  unfold isDelimiterLine Text.dropPrefix?
  constructor
  · intro closes
    split at closes
    · next rest found =>
      split at found
      · next starts =>
        cases found
        exact ⟨_, Text.isPrefixOf_append_drop starts, closes⟩
      · cases found
    · cases closes
  · rintro ⟨rest, rfl, blank⟩
    rw [if_pos (List.isPrefixOf_iff_prefix.mpr (List.prefix_append _ _))]
    simpa using blank

theorem isDelimiterLine_dropEnd (solid : ∀ c ∈ delimiter.toList, isLineBlank c = false) (line : List Char) :
    isDelimiterLine delimiter (dropEnd isLineBlank line) = isDelimiterLine delimiter line := by
  have parts : dropEnd isLineBlank line ++ takeEnd isLineBlank line = line :=
    Text.dropEnd_append_takeEnd isLineBlank line
  rw [Bool.eq_iff_iff, isDelimiterLine_iff, isDelimiterLine_iff]
  constructor
  · rintro ⟨rest, same, blank⟩
    refine ⟨rest ++ takeEnd isLineBlank line, ?_, ?_⟩
    · rw [← List.append_assoc, ← same, parts]
    · rw [List.all_append, blank, Bool.true_and, List.all_eq_true]
      intro c member
      exact Text.isWhiteSpace_of_isLineBlank (List.all_eq_true.mp (Text.all_takeEnd isLineBlank line) c member)
  · rintro ⟨rest, rfl, blank⟩
    refine ⟨dropEnd isLineBlank rest, Text.dropEnd_append_of_last (fun c isLast => solid c (List.mem_of_getLast? isLast))
      rest, List.all_eq_true.mpr fun c member => ?_⟩
    exact List.all_eq_true.mp blank c (Text.dropEnd_subset _ _ member)

theorem solid_delimiter (known : delimiter ∈ ["---", "+++", "..."]) :
    ∀ c ∈ delimiter.toList, isLineBlank c = false ∧ c ≠ '\n' := by
  have all : ∀ one ∈ ["---", "+++", "..."], one.toList.all (fun c => !isLineBlank c && c != '\n') = true := by decide
  intro c member
  simpa using List.all_eq_true.mp (all delimiter known) c member

theorem closer?_dropEnd (known : opener ∈ ["---", "+++"]) (line : List Char) :
    closer? opener (dropEnd isLineBlank line) = closer? opener line := by
  have solid (delimiter : String) (is_known : delimiter ∈ [opener, "..."]) :
      ∀ c ∈ delimiter.toList, isLineBlank c = false := by
    refine fun c member => (solid_delimiter ?_ c member).1
    rcases List.mem_cons.mp is_known with rfl | dots
    · exact List.mem_append_left ["..."] known
    · rw [List.mem_singleton.mp dots]
      decide
  unfold closer?
  simp only [List.find?_cons, List.find?_nil, isDelimiterLine_dropEnd (solid opener List.mem_cons_self),
    isDelimiterLine_dropEnd (solid "..." (List.mem_cons_of_mem _ List.mem_cons_self))]

theorem dropEnd_ne_nil (known : opener ∈ ["---", "+++"]) (closes : closer? opener line = some closer) :
    dropEnd isLineBlank line ≠ [] := by
  intro gone
  have stays : ∀ opener ∈ ["---", "+++"], closer? opener [] = none := by decide
  rw [← closer?_dropEnd known, gone, stays opener known] at closes
  cases closes

theorem untilCloser_iff : untilCloser opener lines = some (body, last, closer) ↔
    (∃ more, lines = body ++ last :: more) ∧ (∀ line ∈ body, closer? opener line = none) ∧
      closer? opener last = some closer := by
  induction lines generalizing body with
  | nil => simp [untilCloser]
  | cons line lines ih =>
    rw [untilCloser]
    constructor
    · intro found
      split at found
      · next closes =>
        cases found
        exact ⟨⟨lines, rfl⟩, by simp, closes⟩
      · next opens =>
        obtain ⟨⟨rest, last', closer'⟩, later, same⟩ := Option.map_eq_some_iff.mp found
        cases same
        obtain ⟨⟨more, rfl⟩, inside, closes⟩ := ih.mp later
        exact ⟨⟨more, rfl⟩, List.forall_mem_cons.mpr ⟨opens, inside⟩, closes⟩
    · rintro ⟨⟨more, same⟩, inside, closes⟩
      cases body with
      | nil =>
        obtain ⟨rfl, rfl⟩ := List.cons.inj same
        rw [closes]
      | cons first rest =>
        obtain ⟨rfl, rfl⟩ := List.cons.inj same
        obtain ⟨opens, inside⟩ := List.forall_mem_cons.mp inside
        rw [opens]
        exact Option.map_eq_some_iff.mpr ⟨_, ih.mpr ⟨⟨more, rfl⟩, inside, closes⟩, rfl⟩

/-! ### Blocks -/

/-- A block that is made up of these lines. -/
structure Laid (block : FrontMatter) (first : List Char) (body : List (List Char)) (last : List Char) : Prop where
  opened : opener? first = some block.startDelimiter
  inside : ∀ line ∈ body, closer? block.startDelimiter line = none
  closed : closer? block.startDelimiter last = some block.endDelimiter
  lines : ∀ line ∈ first :: (body ++ [last]), '\n' ∉ line
  language : block.language = languageOf block.startDelimiter (first.drop 3)
  dots : block.language = "yaml" ∨ block.startDelimiter = block.endDelimiter
  value : block.value = String.ofList (unlines body)
  raw : block.raw = String.ofList (unlines (first :: (body ++ [last])))
  explicit : block.explicitLanguage = String.ofList (first.drop 3)

theorem opener?_append (first more : List Char) : opener? (first ++ '\n' :: more) = opener? first := by
  have split : first ++ '\n' :: more = first ++ ['\n'] ++ more := by simp
  unfold opener?
  rw [split, isPrefixOf_append_of_not_mem (by decide), isPrefixOf_append_of_not_mem (by decide)]

theorem exists_laid (found : parse? source = some block) : ∃ first body last, block.Laid first body last := by
  unfold parse? at found
  simp only [Option.bind_eq_bind, Option.bind_eq_some_iff] at found
  obtain ⟨opener, opens, ⟨first, rest⟩, broken, ⟨body, last, closer⟩, closed, made⟩ := found
  obtain ⟨⟨more, lines⟩, inside, closes⟩ := untilCloser_iff.mp closed
  have whole : source = first ++ '\n' :: rest := by simpa using Text.eq_of_breakOn broken
  have clean : ∀ line ∈ first :: (body ++ [last]), '\n' ∉ line := by
    intro line member
    rcases List.mem_cons.mp member with rfl | member
    · exact not_mem_of_breakOn broken
    · have isLine : line ∈ splitOnChars (· = '\n') rest := by
        rw [lines, List.append_cons]
        exact List.mem_append_left more member
      intro feed
      simpa using Text.eq_false_of_mem_splitOnChars isLine '\n' feed
  rw [whole, opener?_append] at opens
  dsimp only at made
  split at made
  · cases made
  · next allowed =>
    cases made
    refine ⟨first, body, last, opens, inside, closes, clean, rfl, ?_, rfl, rfl, rfl⟩
    by_cases default : languageOf opener (first.drop 3) = "yaml"
    · exact .inl default
    · exact .inr (Decidable.byContradiction fun other => allowed ⟨default, other⟩)

theorem splitOnChars_unlines (clean : ∀ line ∈ lines, '\n' ∉ line) (more : List Char) :
    splitOnChars (· = '\n') (lines.flatMap (· ++ ['\n']) ++ more) = lines ++ splitOnChars (· = '\n') more := by
  induction lines with
  | nil => rfl
  | cons line lines ih =>
    obtain ⟨here, others⟩ := List.forall_mem_cons.mp clean
    have solid : ∀ c ∈ line, decide (c = '\n') = false := by
      intro c member
      refine decide_eq_false ?_
      rintro rfl
      exact here member
    rw [List.flatMap_cons, List.append_assoc, List.append_assoc, List.singleton_append,
      Text.splitOnChars_append (by decide), Text.splitOnChars_of_none solid, ih others, List.singleton_append,
      List.cons_append]

/-- Each line but the last one ends with a line feed. -/
theorem unlines_concat (lines : List (List Char)) (last : List Char) :
    unlines (lines ++ [last]) = lines.flatMap (· ++ ['\n']) ++ last := by
  induction lines with
  | nil => simp [unlines]
  | cons line lines ih =>
    rw [List.cons_append, unlines_cons (by simp), ih]
    simp

/-- A block is found before any rest, as long as a line feed ends its last line. -/
theorem Laid.parse? (laid : block.Laid first body last) (more : List Char) :
    parse? (block.raw.toList ++ '\n' :: more) = some block := by
  obtain ⟨clean, others⟩ := List.forall_mem_cons.mp laid.lines
  have raw : block.raw.toList ++ '\n' :: more =
      first ++ ['\n'] ++ ((body ++ [last]).flatMap (· ++ ['\n']) ++ more) := by
    rw [laid.raw, String.toList_ofList, ← List.cons_append, unlines_concat]
    simp
  have broken := breakOn_of_not_mem clean ((body ++ [last]).flatMap (· ++ ['\n']) ++ more)
  have closed : untilCloser block.startDelimiter
      (splitOnChars (· = '\n') ((body ++ [last]).flatMap (· ++ ['\n']) ++ more)) =
        some (body, last, block.endDelimiter) := by
    rw [splitOnChars_unlines others, List.append_assoc]
    exact untilCloser_iff.mpr ⟨⟨_, rfl⟩, laid.inside, laid.closed⟩
  have opened : opener? (first ++ ['\n'] ++ ((body ++ [last]).flatMap (· ++ ['\n']) ++ more)) =
      some block.startDelimiter := by
    rw [List.append_assoc, List.singleton_append, opener?_append, laid.opened]
  have allowed : ¬(languageOf block.startDelimiter (first.drop 3) ≠ "yaml" ∧
      block.startDelimiter ≠ block.endDelimiter) := by
    rw [← laid.language]
    exact fun both => laid.dots.elim both.1 both.2
  rw [raw]
  unfold FrontMatter.parse?
  rw [opened, broken]
  simp only [Option.bind_eq_bind, Option.bind_some]
  rw [closed]
  simp only [Option.bind_some]
  rw [if_neg allowed, ← laid.language, ← laid.value, ← laid.explicit, List.cons_append, ← laid.raw]

theorem Laid.dropEnd (laid : block.Laid first body last) :
    { block with raw := String.ofList (Text.dropEnd isLineBlank block.raw.toList) }.Laid first body
      (Text.dropEnd isLineBlank last) := by
  have known : block.startDelimiter ∈ ["---", "+++"] := opener?_mem laid.opened
  refine { laid with closed := ?_, lines := ?_, raw := ?_ }
  · rw [closer?_dropEnd known]
    exact laid.closed
  · intro line member
    rw [← List.cons_append] at member
    rcases List.mem_append.mp member with inside | isLast
    · exact laid.lines line (List.mem_append_left [last] inside)
    · rw [List.mem_singleton.mp isLast]
      exact fun feed => laid.lines last (by simp) (Text.dropEnd_subset _ _ feed)
  · dsimp only
    rw [laid.raw, String.toList_ofList, ← List.cons_append, ← List.cons_append, unlines_concat, unlines_concat,
      Text.dropEnd_append (dropEnd_ne_nil known laid.closed)]

/-- A block is found again before any rest when blanks at its end are dropped and a line feed ends it. -/
theorem parse?_dropEnd (found : FrontMatter.parse? source = some block) (more : List Char) :
    FrontMatter.parse? (Text.dropEnd isLineBlank block.raw.toList ++ '\n' :: more) =
      some { block with raw := String.ofList (Text.dropEnd isLineBlank block.raw.toList) } := by
  obtain ⟨first, body, last, laid⟩ := exists_laid found
  have again := laid.dropEnd.parse? more
  rwa [String.toList_ofList] at again

end FrontMatter

/-! ### Sources -/

variable {source : List Char} {cursor next : Cursor} {block : FrontMatter}

namespace OpenElements

/-- No node outside of the open elements is front matter. -/
def NoBlock (opened : OpenElements) : Prop :=
  ∀ node ∈ opened.nodes, ∀ block, node.kind ≠ .frontMatter block

variable {opened after : OpenElements}

theorem noBlock_empty : NoBlock {} :=
  fun _ member => absurd member List.not_mem_nil

theorem noBlock_add {node : Fragment} (none : opened.NoBlock) (other : ∀ block, node.kind ≠ .frontMatter block) :
    (opened.add node).NoBlock := by
  unfold add
  split
  · exact List.forall_mem_cons.mpr ⟨other, none⟩
  · exact none

theorem noBlock_close (none : opened.NoBlock) (endSpan : Option Span) : (opened.close endSpan).NoBlock := by
  unfold close
  split
  · exact none
  · next innermost outer same =>
    have around : NoBlock { opened with stack := outer } := none
    exact noBlock_add around fun _ => NodeKind.noConfusion

theorem noBlock_startTag (none : opened.NoBlock) (tag : StartTag) : (opened.startTag tag).1.NoBlock := by
  have ended : (opened.endedBy tag.name.name).NoBlock := endedBy_keeps none (noBlock_close none _) _
  rw [startTag_eq_startElement]
  unfold startElement
  split
  · exact noBlock_add ended fun _ => NodeKind.noConfusion
  · exact ended

theorem noBlock_follow {lexeme : Lexeme} (none : opened.NoBlock) (followed : opened.follow lexeme = .ok after) :
    after.NoBlock := by
  cases lexeme with
  | text | cdata | doctype | directive =>
    cases followed
    exact noBlock_add none fun _ => NodeKind.noConfusion
  | endTag tag =>
    change opened.endTag tag = .ok after at followed
    unfold endTag at followed
    split at followed
    · cases followed
    split at followed
    · next closed =>
      cases followed
      exact closeNamed?_keeps none (fun none => noBlock_close none _) (fun none => noBlock_close none _) closed
    · cases followed
  | componentEnd span =>
    change opened.componentEnd span = .ok after at followed
    unfold componentEnd at followed
    split at followed
    · cases followed
    · cases followed
      exact noBlock_close none _
  | startTag | comment =>
    cases followed
    exact none

end OpenElements

open OpenElements (NoBlock noBlock_add noBlock_close noBlock_empty)

variable {opened after : OpenElements}

theorem noBlock_readContent {options : ParseOptions} (none : opened.NoBlock)
    (found : readContent options opened cursor = .ok after) : after.NoBlock := by
  fun_induction readContent options opened cursor generalizing after with
  | case1 opened cursor empty =>
    cases found
    exact none
  | case2 => cases found
  | case3 => cases found
  | case4 opened cursor nonempty tag next lexed inner later element ih =>
    refine ih (readElement_keeps (motive := NoBlock) (OpenElements.noBlock_startTag none tag) ?_ noBlock_close element)
      found
    exact fun none _ _ => noBlock_add none fun _ => NodeKind.noConfusion
  | case5 opened cursor nonempty value span next lexed condition before body classified content ihInside =>
    rename_i ih
    refine ih (noBlock_add none fun block => ?_) found
    unfold conditionalNode
    cases content with
    | ok inner => exact NodeKind.noConfusion
    | error failure => exact NodeKind.noConfusion
  | case6 opened cursor nonempty value span next lexed _ ih =>
    refine ih (noBlock_add none fun block => ?_) found
    unfold commentNode
    split
    · exact NodeKind.noConfusion
    · exact NodeKind.noConfusion
    · exact NodeKind.noConfusion
  | case7 => cases found
  | case8 opened cursor nonempty lexeme next noElement noComment lexed inner followed ih =>
    exact ih (OpenElements.noBlock_follow none followed) found

/-- A source has front matter at its front only if it begins with the block. -/
theorem parse?_of_parse {source : String} {options : ParseOptions} {front : Fragment} {rest : List Fragment}
    (read : parse source options = .ok (front :: rest)) (isBlock : front.kind = .frontMatter block) :
    FrontMatter.parse? source.toList = some block := by
  rw [← String.ofList_toList (s := source)] at read
  have found := (parse_eq_ok_iff.mp read).1
  generalize same : front :: rest = content at found
  cases readsSource_of_readSource found with
  | all content =>
    have none : OpenElements.NoBlock _ := noBlock_readContent noBlock_empty content
    have ended := OpenElements.closeAll_keeps (motive := NoBlock) none fun none => noBlock_close none _
    have member : front ∈ OpenElements.finish _ := same ▸ List.mem_cons_self
    exact absurd isBlock (ended front (List.mem_reverse.mp member) block)
  | afterBlock begins nonempty front window content =>
    obtain ⟨rfl, -⟩ := List.cons.inj same
    rw [begins, NodeKind.frontMatter.inj isBlock]

end MarkupFormat.Markup
