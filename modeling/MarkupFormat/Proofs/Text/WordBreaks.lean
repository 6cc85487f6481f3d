import Mathlib.Data.List.Chain
import Mathlib.Data.List.Flatten
import MarkupFormat.Proofs.Text.LineEndings
import MarkupFormat.Proofs.Text.QuoteEntities
import MarkupFormat.Text.Words

/-!
# Breaking a text into words

Words take the text apart at white space outside of its blocks, and nothing else is lost: runs without white space stay
in one piece, and so do the blocks.

Breaking a text into words never breaks a run of characters without white space, wherever it stands: it is in one of
the words as it is (`exists_word_of_infix`).

The words of a text are the text with single spaces, cut at the spaces that stand in none of its blocks. So they make up
that text again, no block is cut, and cutting the text with single spaces gives the same words (`flowsAs_words`). A text
without blocks is broken at all of its white space, whatever that is made of.
-/

namespace MarkupFormat.Text

variable {cs ds run : List Char} {c : Char}

/-- What stands in two texts one after the other is in one of them, if it does not hold the character between them. -/
theorem infix_of_infix_append (inside : run <:+: cs ++ ds) (apart : ∀ c ∈ ds.head?, c ∉ run) :
    run <:+: cs ∨ run <:+: ds := by
  obtain ⟨front, back, same⟩ := inside
  obtain ⟨between, rfl, -⟩ | ⟨between, first, second⟩ := List.append_eq_append_iff.mp same
  · exact .inl ⟨front, between, rfl⟩
  · cases between with
    | nil => exact .inl ⟨front, [], by rw [List.append_nil]; exact first.trans (List.append_nil _)⟩
    | cons d between =>
      obtain ⟨rest, rfl, tail⟩ | ⟨rest, -, whole⟩ := List.append_eq_append_iff.mp first
      · exact absurd (tail ▸ List.mem_append_right rest List.mem_cons_self) (apart d (by rw [second]; rfl))
      · exact .inr ⟨rest, back, by rw [second, whole]⟩

section SolidRun

variable (solid : ∀ c ∈ run, isMarkupSpace c = false) (nonempty : run ≠ [])

include solid nonempty

theorem ends_of_unbroken : '\n' ∉ run ∧ ∃ last, run.getLast? = some last ∧ isLineBlank last = false := by
  refine ⟨fun member => Bool.noConfusion (solid _ member), _, List.getLast?_eq_some_getLast nonempty, ?_⟩
  refine Bool.eq_false_iff.mpr fun blank => ?_
  have space := solid _ (List.getLast_mem nonempty)
  unfold isLineBlank at blank
  unfold isMarkupSpace at space
  grind

theorem infix_collapseRuns (inside : run <:+: cs) (pending : Bool) : run <:+: collapseRuns pending cs := by
  obtain ⟨front, back, rfl⟩ := inside
  induction front generalizing pending with
  | nil =>
    rw [List.nil_append, collapseRuns_word solid nonempty]
    exact ⟨leadOf pending, collapseRuns false back, List.append_assoc ..⟩
  | cons c front ih =>
    rw [List.cons_append, List.cons_append, collapseRuns]
    split
    · exact ih true
    · split
      · exact List.infix_cons (List.infix_cons (ih false))
      · exact List.infix_cons (ih false)

theorem exists_word_of_infix (inside : run <:+: cs) : ∃ word ∈ words cs, run <:+: word := by
  fun_induction words cs with
  | case1 => exact absurd (List.infix_nil.mp inside) nonempty
  | case2 c cs space ih =>
    have apart : ∀ d ∈ [c], d ∉ run := by
      rintro d member among
      rw [List.mem_singleton.mp member] at among
      rw [solid c among] at space
      cases space
    obtain here | later := List.infix_cons_iff.mp inside
    · obtain ⟨d, rest, rfl⟩ := List.exists_cons_of_ne_nil nonempty
      exact absurd List.mem_cons_self (apart d (List.mem_singleton.mpr (List.cons_prefix_cons.mp here).1))
    · exact ih later
  | case3 c cs _ ih =>
    rw [← scan_append startsBlank (c :: cs)] at inside
    have apart : ∀ d ∈ (scan startsBlank (c :: cs)).2.head?, d ∉ run := by
      intro d head among
      rcases scan_stops startsBlank (c :: cs) with none | blank
      · rw [none] at head
        cases head
      · have begins : startsBlank (scan startsBlank (c :: cs)).2 = isMarkupSpace d :=
          congrArg (Option.any isMarkupSpace) head
        rw [begins, solid d among] at blank
        cases blank
    obtain here | later := infix_of_infix_append inside apart
    · exact ⟨_, List.mem_cons_self, infix_collapseRuns solid nonempty here false⟩
    · obtain ⟨word, member, there⟩ := ih later
      exact ⟨word, List.mem_cons_of_mem _ member, there⟩

end SolidRun

variable {block rest : List Char}

/-! ### Scans up to white space -/

theorem collapseRuns_append_block (found : templateBlock? cs = some (block, rest)) (more : List Char) :
    collapseRuns false (block ++ more) = collapseRuns false block ++ collapseRuns false more :=
  eq_of_templateBlock? (blockwise_collapseRuns.templateBlock? (templateBlock?_append found more))

theorem startsBlank_collapseRuns (blank : isMarkupSpace c = true) (cs : List Char) :
    collapseRuns false (c :: cs) = [] ∨ ∃ ds, collapseRuns false (c :: cs) = ' ' :: ds := by
  rw [collapseRuns, if_pos blank]
  obtain none | ⟨d, ds, -, same⟩ := collapseRuns_true_cases cs
  · exact .inl none
  · exact .inr ⟨_, same⟩

theorem ne_brace_of_isMarkupSpace (blank : isMarkupSpace c = true) : c ≠ '{' := by
  rintro rfl
  cases blank

/-- White space is found where it was when every run of it is written as one space. -/
theorem scan_collapseRuns (cs : List Char) :
    scan startsBlank (collapseRuns false cs) =
      (collapseRuns false (scan startsBlank cs).1, collapseRuns false (scan startsBlank cs).2) := by
  induction cs using block_induction with
  | nil => simp [collapseRuns, scan]
  | block cs block rest found ih =>
    have passed : scan startsBlank (cs ++ []) = _ := scan_append_of_some found []
    have passed' : scan startsBlank (collapseRuns false cs ++ []) = _ :=
      scan_append_of_some (blockwise_collapseRuns.templateBlock? found) []
    rw [List.append_nil, List.append_nil] at passed passed'
    rw [passed, passed', ih, collapseRuns_append_block found]
  | cons c cs absent ih =>
    have absent' := (blockwise_collapseRuns.rewrites (c :: cs)).templateBlock?_eq_none absent
    cases solid : isMarkupSpace c with
    | true =>
      rw [scan_stop (ne_brace_of_isMarkupSpace solid) solid]
      obtain none | ⟨ds, same⟩ := startsBlank_collapseRuns solid cs
      · rw [none]
        simp [collapseRuns, scan]
      · rw [same, scan_stop (by decide) rfl]
        rfl
    | false =>
      rw [collapseRuns_cons solid] at absent' ⊢
      have passes (ds : List Char) : ¬startsBlank (c :: ds) = true := fun stops => by
        rw [show startsBlank (c :: ds) = isMarkupSpace c from rfl, solid] at stops
        cases stops
      rw [scan_of_none absent, if_neg (passes cs), collapseRuns_cons solid]
      exact (scan_of_none absent').trans (by rw [if_neg (passes _), ih]; rfl)

theorem templateBlock?_scan_cons {stop : List Char → Bool} (absent : templateBlock? (c :: cs) = none) :
    templateBlock? (c :: (scan stop cs).1) = none := by
  refine Option.eq_none_iff_forall_ne_some.mpr fun parts found => ?_
  have longer := templateBlock?_append_of_some found (scan stop cs).2
  rw [List.cons_append, scan_append, absent] at longer
  cases longer

theorem blocks_scan (stop : List Char → Bool) (cs : List Char) :
    blocks cs = blocks (scan stop cs).1 ++ blocks (scan stop cs).2 := by
  induction cs using block_induction with
  | nil => simp [scan, blocks]
  | block cs block rest found ih =>
    have passed : scan stop (cs ++ []) = _ := scan_append_of_some found []
    rw [List.append_nil, List.append_nil] at passed
    rw [passed, blocks_of_templateBlock? found, blocks_of_templateBlock? (templateBlock?_append found _), ih,
      List.cons_append]
  | cons c cs absent ih =>
    rw [scan_of_none absent]
    split
    · rw [blocks, List.nil_append]
    · rw [blocks_cons absent, blocks_cons (templateBlock?_scan_cons absent), ih]

/-! ### Where white space stands -/

/-- The characters of a text that are in none of its closed blocks. -/
def besideBlocks : List Char → List Char
  | [] => []
  | c :: cs =>
    match _h : templateBlock? (c :: cs) with
    | some (_, rest) => besideBlocks rest
    | none => c :: besideBlocks cs
  termination_by cs => cs.length
  decreasing_by
    · exact length_lt_of_templateBlock? _h
    · simp

theorem besideBlocks_of_templateBlock? (found : templateBlock? cs = some (block, rest)) :
    besideBlocks cs = besideBlocks rest := by
  cases cs with
  | nil => cases found
  | cons c cs =>
    rw [besideBlocks]
    split
    · next same =>
      rw [found] at same
      cases same
      rfl
    · next none =>
      rw [found] at none
      cases none

theorem besideBlocks_cons (absent : templateBlock? (c :: cs) = none) :
    besideBlocks (c :: cs) = c :: besideBlocks cs := by
  rw [besideBlocks]
  split
  · next found =>
    rw [absent] at found
    cases found
  · rfl

/-- A scan up to white space takes no white space but that in blocks. -/
theorem besideBlocks_scan (cs : List Char) :
    ∀ d ∈ besideBlocks (scan startsBlank cs).1, isMarkupSpace d = false := by
  induction cs using block_induction with
  | nil => simp [scan, besideBlocks]
  | block cs block rest found ih =>
    have passed : scan startsBlank (cs ++ []) = _ := scan_append_of_some found []
    rw [List.append_nil, List.append_nil] at passed
    rw [passed, besideBlocks_of_templateBlock? (templateBlock?_append found _)]
    exact ih
  | cons c cs absent ih =>
    rw [scan_of_none absent]
    split
    · simp [besideBlocks]
    · next passes =>
      rw [besideBlocks_cons (templateBlock?_scan_cons absent)]
      exact List.forall_mem_cons.mpr ⟨Bool.eq_false_iff.mpr passes, ih⟩

/-- White space stands in a text as single spaces only. -/
structure SingleSpaced (cs : List Char) : Prop where
  spaces : ∀ c ∈ cs, isMarkupSpace c = true → c = ' '
  apart : cs.IsChain fun c d => isMarkupSpace c = false ∨ isMarkupSpace d = false

theorem singleSpaced_collapseRuns (pending : Bool) (cs : List Char) : SingleSpaced (collapseRuns pending cs) := by
  -- A space that is pending is written before a character that is none.
  induction cs generalizing pending with
  | nil => exact ⟨nofun, .nil⟩
  | cons c cs ih =>
    cases solid : isMarkupSpace c with
    | true =>
      rw [collapseRuns, if_pos solid]
      exact ih true
    | false =>
      obtain ⟨spaces, apart⟩ := ih false
      have here : SingleSpaced (c :: collapseRuns false cs) := by
        refine ⟨List.forall_mem_cons.mpr ⟨fun blank => ?_, spaces⟩,
          List.isChain_cons.mpr ⟨fun _ _ => .inl solid, apart⟩⟩
        rw [solid] at blank
        cases blank
      rw [collapseRuns_cons solid]
      cases pending with
      | false => exact here
      | true =>
        refine ⟨List.forall_mem_cons.mpr ⟨fun _ => rfl, here.spaces⟩, List.isChain_cons.mpr ⟨?_, here.apart⟩⟩
        intro d first
        obtain rfl : c = d := Option.some.inj first
        exact .inr solid

theorem singleSpaced_of_mem_blocks (member : block ∈ blocks (collapseRuns false cs)) : SingleSpaced block := by
  rw [blockwise_collapseRuns.blocks] at member
  obtain ⟨inner, -, rfl⟩ := List.mem_map.mp member
  exact singleSpaced_collapseRuns false inner

/-! ### Words -/

theorem words_blank (blank : isMarkupSpace c = true) (cs : List Char) : words (c :: cs) = words cs := by
  rw [words, dif_pos blank]

theorem words_solid (solid : isMarkupSpace c = false) (cs : List Char) :
    words (c :: cs) = (scan startsBlank (collapseRuns false (c :: cs))).1 :: words (scan startsBlank (c :: cs)).2 := by
  rw [words, dif_neg (by rw [solid]; decide), scan_collapseRuns]

theorem collapse_blank (blank : isMarkupSpace c = true) (cs : List Char) : collapse (c :: cs) = collapse cs := by
  rw [collapse_eq, collapse_eq, List.dropWhile_cons_of_pos blank]

theorem collapse_solid (solid : isMarkupSpace c = false) (cs : List Char) :
    collapse (c :: cs) = collapseRuns false (c :: cs) := by
  rw [collapse_eq, List.dropWhile_cons_of_neg (by rw [solid]; decide)]

theorem collapseRuns_true (cs : List Char) :
    collapseRuns true cs = if collapse cs = [] then [] else ' ' :: collapse cs := by
  induction cs with
  | nil => rfl
  | cons c cs ih =>
    cases solid : isMarkupSpace c with
    | true => rw [collapseRuns, if_pos solid, collapse_blank solid, ih]
    | false =>
      rw [collapse_solid solid, collapseRuns_cons solid, collapseRuns_cons solid]
      exact (if_neg (List.cons_ne_nil c _)).symm

theorem exists_of_mem_words {word : List Char} (member : word ∈ words cs) :
    ∃ c ds, isMarkupSpace c = false ∧ word = (scan startsBlank (collapseRuns false (c :: ds))).1 := by
  fun_induction words cs with
  | case1 => cases member
  | case2 c cs _ ih => exact ih member
  | case3 c cs solid ih =>
    obtain rfl | later := List.mem_cons.mp member
    · exact ⟨c, cs, Bool.eq_false_iff.mpr solid, by rw [scan_collapseRuns]⟩
    · exact ih later

theorem ne_nil_of_mem_words {word : List Char} (member : word ∈ words cs) : word ≠ [] := by
  obtain ⟨c, ds, solid, rfl⟩ := exists_of_mem_words member
  rw [collapseRuns_cons solid]
  exact scan_fst_ne_nil solid

theorem intercalate_words (cs : List Char) : [' '].intercalate (words cs) = collapse cs := by
  fun_induction words cs with
  | case1 => rfl
  | case2 c cs blank ih => rw [ih, collapse_blank blank]
  | case3 c cs solid ih =>
    have solid := Bool.eq_false_iff.mpr solid
    have parts := scan_append startsBlank (collapseRuns false (c :: cs))
    rw [scan_collapseRuns] at parts
    rw [collapse_solid solid, ← parts]
    -- Behind the word there is nothing or white space, which is one space if a word follows.
    have behind : collapseRuns false (scan startsBlank (c :: cs)).2 =
        if collapse (scan startsBlank (c :: cs)).2 = [] then []
        else ' ' :: collapse (scan startsBlank (c :: cs)).2 := by
      obtain none | blank := scan_stops startsBlank (c :: cs)
      · rw [none]
        rfl
      · obtain ⟨d, ds, same⟩ : ∃ d ds, (scan startsBlank (c :: cs)).2 = d :: ds := by
          refine List.exists_cons_of_ne_nil fun none => ?_
          rw [none] at blank
          cases blank
        rw [same] at blank ⊢
        have blank : isMarkupSpace d = true := blank
        rw [collapse_blank blank, collapseRuns, if_pos blank, collapseRuns_true]
    rw [behind, ← ih]
    cases others : words (scan startsBlank (c :: cs)).2 with
    | nil => simp
    | cons word more =>
      have nonempty : [' '].intercalate (word :: more) ≠ [] := by
        have some := ne_nil_of_mem_words (others ▸ List.mem_cons_self)
        cases more with
        | nil => simpa using some
        | cons => simp [List.intercalate_cons_cons]
      rw [if_neg nonempty, List.intercalate_cons_cons]
      simp

theorem words_collapseRuns (pending : Bool) (cs : List Char) : words (collapseRuns pending cs) = words cs := by
  fun_induction words cs generalizing pending with
  | case1 => rw [collapseRuns, words]
  | case2 c cs blank ih => rw [collapseRuns, if_pos blank, ih]
  | case3 c cs solid ih =>
    have solid := Bool.eq_false_iff.mpr solid
    have single : collapseRuns false (c :: cs) = c :: collapseRuns false cs := collapseRuns_cons solid
    have unled : words (collapseRuns pending (c :: cs)) = words (c :: collapseRuns false cs) := by
      rw [collapseRuns_cons solid]
      cases pending with
      | false => rfl
      | true => exact words_blank rfl _
    rw [unled, words_solid solid, ← single, collapseRuns_collapseRuns, scan_collapseRuns, ih]

theorem words_collapse (cs : List Char) : words (collapse cs) = words cs := by
  rw [collapse_eq, words_collapseRuns]
  induction cs with
  | nil => rfl
  | cons c cs ih =>
    cases solid : isMarkupSpace c with
    | true => rw [List.dropWhile_cons_of_pos solid, words_blank solid, ih]
    | false => rw [List.dropWhile_cons_of_neg (by rw [solid]; decide)]

theorem blocks_words (cs : List Char) : (words cs).flatMap blocks = (blocks cs).map collapse := by
  have single (cs : List Char) : (blocks cs).map (collapseRuns false) = (blocks cs).map collapse := by
    refine List.map_congr_left fun block member => ?_
    obtain ⟨-, inner, rfl⟩ := of_mem_blocks member
    exact (collapse_brace _).symm
  fun_induction words cs with
  | case1 => simp [blocks]
  | case2 c cs blank ih => rw [ih, blocks_cons (templateBlock?_eq_none (ne_brace_of_isMarkupSpace blank))]
  | case3 c cs solid ih =>
    rw [List.flatMap_cons, ih, blockwise_collapseRuns.blocks, single, ← List.map_append, ← blocks_scan]

/-- How a text is broken: the pieces with single spaces between them make up the text with single spaces. No piece is
empty, and white space in it are the single spaces of its closed blocks. The blocks of the text, with single spaces, are
those of the first piece, then those of the second one, and so on, so each of them is in one piece. -/
structure FlowsAs (cs : List Char) (pieces : List (List Char)) : Prop where
  joined : [' '].intercalate pieces = collapse cs
  nonempty : ∀ piece ∈ pieces, piece ≠ []
  beside : ∀ piece ∈ pieces, ∀ c ∈ besideBlocks piece, isMarkupSpace c = false
  inside : ∀ piece ∈ pieces, ∀ block ∈ blocks piece, SingleSpaced block
  blocks : pieces.flatMap blocks = (blocks cs).map collapse

/-- A text flows as its words, and a text with single spaces has the same words. -/
theorem flowsAs_words (cs : List Char) : FlowsAs cs (words cs) ∧ words (collapse cs) = words cs := by
  refine ⟨⟨intercalate_words cs, fun word => ne_nil_of_mem_words, fun word member => ?_, fun word member => ?_,
    blocks_words cs⟩, words_collapse cs⟩
  · obtain ⟨c, ds, -, rfl⟩ := exists_of_mem_words member
    exact besideBlocks_scan _
  · obtain ⟨c, ds, -, rfl⟩ := exists_of_mem_words member
    rw [scan_collapseRuns]
    exact fun block => singleSpaced_of_mem_blocks

/-- A block that is left open is broken, one that looks nested ends at the first closing. -/
example : (words "a \x7b%  b\n%\x7dc \x7b\x7b \x7b%% d".toList).map String.ofList =
    ["a", "\x7b% b %\x7dc", "\x7b\x7b", "\x7b%%", "d"] := by
  decide +kernel

/-! ### Runs between white space -/

/-- The runs of a text between white space. -/
def runs (cs : List Char) : List (List Char) :=
  (splitOnChars isMarkupSpace cs).filter (· ≠ [])

theorem runs_blank (blank : isMarkupSpace c = true) (cs : List Char) : runs (c :: cs) = runs cs := by
  simp [runs, splitOnChars, blank]

theorem runs_append {run : List Char} (solid : ∀ c ∈ run, isMarkupSpace c = false) (nonempty : run ≠ [])
    (ends : rest = [] ∨ startsBlank rest = true) : runs (run ++ rest) = run :: runs rest := by
  have alone := splitOnChars_of_none solid
  cases rest with
  | nil => simp [runs, alone, nonempty, splitOnChars]
  | cons c rest =>
    have blank : isMarkupSpace c = true := ends.resolve_left (List.cons_ne_nil c rest)
    rw [runs_blank blank, runs, splitOnChars_append blank, alone]
    simp [runs, nonempty]

theorem runs_eq_nil_iff : runs cs = [] ↔ cs.all isMarkupSpace = true := by
  induction cs with
  | nil => exact ⟨fun _ => rfl, fun _ => rfl⟩
  | cons c cs ih =>
    cases blank : isMarkupSpace c with
    | true => rw [runs_blank blank, ih, List.all_cons, blank, Bool.true_and]
    | false =>
      obtain ⟨first, others, pieces⟩ := List.exists_cons_of_ne_nil (splitOnChars_ne_nil isMarkupSpace cs)
      simp [runs, splitOnChars, blank, pieces]

/-- Between the pieces of a text stands one character each. -/
theorem length_flatMap_splitOnChars (split : Char → Bool) (cs : List Char) :
    ((splitOnChars split cs).flatMap (' ' :: ·)).length = 1 + cs.length := by
  fun_induction splitOnChars split cs with
  | case1 => rfl
  | case2 c cs _ ih =>
    rw [List.flatMap_cons, List.length_append, ih, List.length_singleton, List.length_cons]
    omega
  | case3 c cs _ none => exact absurd none (splitOnChars_ne_nil split cs)
  | case4 c cs _ piece pieces same ih =>
    rw [same, List.flatMap_cons, List.length_append, List.length_cons] at ih
    rw [List.flatMap_cons, List.length_append, List.length_cons, List.length_cons, List.length_cons]
    omega

theorem length_flatMap_runs_le (cs : List Char) : ((runs cs).flatMap (' ' :: ·)).length ≤ 1 + cs.length := by
  rw [← length_flatMap_splitOnChars isMarkupSpace cs]
  exact (List.filter_sublist.flatMap _).length_le

theorem runs_normalizeChars (cs : List Char) : runs (normalizeChars cs) = runs cs := by
  -- The first piece is the same, and so are the others that are not empty.
  have pieces : ∃ first others others', splitOnChars isMarkupSpace cs = first :: others ∧
      splitOnChars isMarkupSpace (normalizeChars cs) = first :: others' ∧
      others'.filter (· ≠ []) = others.filter (· ≠ []) := by
    have more (first : List Char) {others others' : List (List Char)}
        (rest : others'.filter (· ≠ []) = others.filter (· ≠ [])) :
        (first :: others').filter (· ≠ []) = (first :: others).filter (· ≠ []) := by
      rw [List.filter_cons, List.filter_cons, rest]
    fun_induction normalizeChars cs with
    | case1 => exact ⟨[], [], [], rfl, rfl, rfl⟩
    | case2 cs ih =>
      obtain ⟨first, others, others', same, same', rest⟩ := ih
      refine ⟨[], [] :: first :: others, first :: others', ?_, ?_, ?_⟩
      · simp [splitOnChars, isMarkupSpace, same]
      · simp [splitOnChars, isMarkupSpace, same']
      · exact (more first rest).trans rfl
    | case3 cs _ ih =>
      obtain ⟨first, others, others', same, same', rest⟩ := ih
      refine ⟨[], first :: others, first :: others', ?_, ?_, more first rest⟩
      · simp [splitOnChars, isMarkupSpace, same]
      · simp [splitOnChars, isMarkupSpace, same']
    | case4 c cs _ _ ih =>
      obtain ⟨first, others, others', same, same', rest⟩ := ih
      cases blank : isMarkupSpace c with
      | true =>
        refine ⟨[], first :: others, first :: others', ?_, ?_, more first rest⟩
        · simp [splitOnChars, blank, same]
        · simp [splitOnChars, blank, same']
      | false => exact ⟨c :: first, others, others', by simp [splitOnChars, blank, same],
          by simp [splitOnChars, blank, same'], rest⟩
  obtain ⟨first, others, others', same, same', rest⟩ := pieces
  unfold runs
  rw [same, same', List.filter_cons, List.filter_cons, rest]

theorem scan_startsBlank (noBlock : ∀ c ∈ cs, c ≠ '{') :
    scan startsBlank cs = (cs.takeWhile (!isMarkupSpace ·), cs.dropWhile (!isMarkupSpace ·)) := by
  induction cs with
  | nil => simp [scan]
  | cons c cs ih =>
    obtain ⟨here, behind⟩ := List.forall_mem_cons.mp noBlock
    have starts : startsBlank (c :: cs) = isMarkupSpace c := rfl
    cases blank : isMarkupSpace c with
    | true => simp [scan_stop here (starts.trans blank), blank]
    | false => simp [scan_cons here (starts.trans blank), ih behind, blank]

theorem words_eq_runs (noBlock : ∀ c ∈ cs, c ≠ '{') : words cs = runs cs := by
  fun_induction words cs with
  | case1 => rfl
  | case2 c cs blank ih => rw [runs_blank blank, ih (List.forall_mem_cons.mp noBlock).2]
  | case3 c cs stays ih =>
    have parts := scan_append startsBlank (c :: cs)
    have taken : ∀ d ∈ (scan startsBlank (c :: cs)).1, isMarkupSpace d = false := by
      rw [scan_startsBlank noBlock]
      intro d member
      simpa using List.all_eq_true.mp List.all_takeWhile d member
    have nonempty : (scan startsBlank (c :: cs)).1 ≠ [] := scan_fst_ne_nil (Bool.eq_false_iff.mpr stays)
    have split := runs_append taken nonempty (scan_stops startsBlank (c :: cs))
    rw [parts] at split
    have single := collapseRuns_word taken nonempty false []
    rw [List.append_nil] at single
    rw [split, single, ih fun d member => noBlock d (parts ▸ List.mem_append_right _ member)]
    exact congrArg (· :: _) (List.append_nil _)

theorem words_dropEnds (cs : List Char) : words (dropEnds isMarkupSpace cs) = words cs := by
  rw [← words_collapseRuns false]
  exact words_collapse cs

end MarkupFormat.Text
