import MarkupFormat.Proofs.Layout.Built
import MarkupFormat.Proofs.Layout.CurrentColumn
import MarkupFormat.Proofs.Layout.Level

/-!
# Greedy lines

A fill of words is wrapped greedily: a word goes on the current line if it fits there after a space, and begins a new
line otherwise. `wrapped` makes such lines out of the words alone. They are a greedy layout of the words
(`isGreedy_wrapped`), and a fill is rendered as these lines (`exists_run_fill`).
-/

namespace MarkupFormat.Layout

open Text (Ordinary Ruler Within displayWidth dropEnd isControl isLineBlank totalColumns)

/-! ### Words and lines -/

structure FillWord where
  /-- Whether the line before the word is a forced one. -/
  forced : Bool
  content : String

/-- A word is not empty and has neither blanks nor control characters. -/
structure FillWord.IsSolid (word : FillWord) : Prop where
  nonempty : word.content.toList ≠ []
  solid : ∀ c ∈ word.content.toList, isLineBlank c = false ∧ isControl c = false

/-- Words on one line. The first of them starts at a column, and there is a space between two of them. -/
structure WordLine where
  start : Nat
  first : FillWord
  others : List FillWord

namespace WordLine

def words (line : WordLine) : List FillWord :=
  line.first :: line.others

def text (line : WordLine) : List Char :=
  List.replicate line.start ' ' ++ line.first.content.toList ++ line.others.flatMap (' ' :: ·.content.toList)

/-- The column at the end of the line. -/
def width (ruler : Ruler) (line : WordLine) : Nat :=
  line.others.foldl (fun columns word => columns + 1 + displayWidth word.content ruler)
    (line.start + displayWidth line.first.content ruler)

def add (line : WordLine) (word : FillWord) : WordLine :=
  { line with others := line.others ++ [word] }

end WordLine

/-- The columns of words on one line, each with a space before it. -/
def wordColumns (ruler : Ruler) (words : List FillWord) : Nat :=
  words.foldr (fun word columns => 1 + displayWidth word.content ruler + columns) 0

/-- The lines of words that follow those on a line. Later lines start at a column. -/
def wrapAfter (config : Config) (start : Nat) (line : WordLine) : List FillWord → List WordLine
  | [] => [line]
  | word :: words =>
    if word.forced = false ∧ line.width config.ruler + 1 + displayWidth word.content config.ruler ≤
        config.printWidth then wrapAfter config start (line.add word) words
    else line :: wrapAfter config start ⟨start, word, []⟩ words

/-- The lines of some words, the first of which starts at the first column. -/
def wrapped (config : Config) (start : Nat) : List FillWord → List WordLine
  | [] => []
  | word :: words => wrapAfter config start ⟨0, word, []⟩ words

/-- One line stands before another, which starts at a column and, unless it is forced, begins with a word that the first
one cannot take. -/
def WordLine.Precedes (config : Config) (start : Nat) (line next : WordLine) : Prop :=
  next.start = start ∧ (next.first.forced = false →
    config.printWidth < line.width config.ruler + 1 + displayWidth next.first.content config.ruler)

section

variable {config : Config} {start : Nat} {line : WordLine} {words : List FillWord}

theorem WordLine.text_add (line : WordLine) (word : FillWord) :
    (line.add word).text = line.text ++ ' ' :: word.content.toList := by
  simp [text, add]

theorem WordLine.width_add (ruler : Ruler) (line : WordLine) (word : FillWord) :
    (line.add word).width ruler = line.width ruler + 1 + displayWidth word.content ruler :=
  List.foldl_append

theorem exists_wrapAfter (config : Config) (start : Nat) (line : WordLine) (words : List FillWord) :
    ∃ head lines, wrapAfter config start line words = head :: lines ∧ head.start = line.start ∧
      head.first = line.first := by
  induction words generalizing line with
  | nil => exact ⟨line, [], rfl, rfl, rfl⟩
  | cons word words ih =>
    rw [wrapAfter]
    split
    · exact ih (line.add word)
    · exact ⟨line, _, rfl, rfl, rfl⟩

theorem foldl_width (ruler : Ruler) (columns more : Nat) (words : List FillWord) :
    words.foldl (fun columns word => columns + 1 + displayWidth word.content ruler) (columns + more) =
      columns + words.foldl (fun columns word => columns + 1 + displayWidth word.content ruler) more := by
  induction words generalizing more with
  | nil => rfl
  | cons word words ih =>
    rw [List.foldl_cons, List.foldl_cons, ← ih]
    exact congrArg (words.foldl _) (by omega)

theorem wordColumns_cons (ruler : Ruler) (word : FillWord) (words : List FillWord) :
    wordColumns ruler (word :: words) = 1 + displayWidth word.content ruler + wordColumns ruler words :=
  rfl

theorem WordLine.width_eq (ruler : Ruler) (line : WordLine) :
    line.width ruler = line.start + displayWidth line.first.content ruler + wordColumns ruler line.others := by
  have grows (columns : Nat) (words : List FillWord) :
      words.foldl (fun columns word => columns + 1 + displayWidth word.content ruler) columns =
        columns + wordColumns ruler words := by
    induction words generalizing columns with
    | nil => rfl
    | cons word words ih =>
      rw [List.foldl_cons, ih, wordColumns_cons]
      omega
  exact grows _ _

/-- Words that are not forced stay on one line as long as they fit. -/
theorem wrapAfter_of_fits (free : ∀ word ∈ words, word.forced = false)
    (fits : words.foldl (fun columns word => columns + 1 + displayWidth word.content config.ruler)
      (line.width config.ruler) ≤ config.printWidth) :
    wrapAfter config start line words = [{ line with others := line.others ++ words }] := by
  induction words generalizing line with
  | nil => simp [wrapAfter]
  | cons word words ih =>
    obtain ⟨here, others⟩ := List.forall_mem_cons.mp free
    rw [List.foldl_cons] at fits
    have room : line.width config.ruler + 1 + displayWidth word.content config.ruler ≤ config.printWidth := by
      have grows := foldl_width config.ruler
        (line.width config.ruler + 1 + displayWidth word.content config.ruler) 0 words
      rw [Nat.add_zero] at grows
      omega
    rw [← WordLine.width_add] at fits
    rw [wrapAfter, if_pos ⟨here, room⟩, ih others fits]
    simp [WordLine.add]

theorem wrapAfter_of_forced (forced : ∀ word ∈ words, word.forced = true) :
    wrapAfter config start line words = line :: words.map (⟨start, ·, []⟩) := by
  induction words generalizing line with
  | nil => rfl
  | cons word words ih =>
    obtain ⟨here, others⟩ := List.forall_mem_cons.mp forced
    rw [wrapAfter, if_neg fun free => Bool.false_ne_true (free.1.symm.trans here), ih others]
    rfl

theorem flatMap_words_wrapAfter :
    (wrapAfter config start line words).flatMap WordLine.words = line.words ++ words := by
  induction words generalizing line with
  | nil => simp [wrapAfter]
  | cons word words ih =>
    rw [wrapAfter]
    split
    · rw [ih]
      simp [WordLine.words, WordLine.add]
    · rw [List.flatMap_cons, ih]
      rfl

/-- A property of lines that words keep which fit holds of all lines, if it holds of lines with one word. -/
theorem forall_wrapAfter {p : WordLine → Prop} (single : ∀ start word, p ⟨start, word, []⟩)
    (grows : ∀ line word, p line → word.forced = false →
      line.width config.ruler + 1 + displayWidth word.content config.ruler ≤ config.printWidth →
      p (line.add word))
    (holds : p line) : ∀ other ∈ wrapAfter config start line words, p other := by
  induction words generalizing line with
  | nil =>
    intro other member
    rw [wrapAfter, List.mem_singleton] at member
    exact member ▸ holds
  | cons word words ih =>
    rw [wrapAfter]
    split
    · next fits => exact ih (grows line word holds fits.1 fits.2)
    · intro other member
      rcases List.mem_cons.mp member with rfl | member
      · exact holds
      · exact ih (single start word) other member

theorem isChain_wrapAfter : (wrapAfter config start line words).IsChain (WordLine.Precedes config start) := by
  induction words generalizing line with
  | nil => exact .singleton line
  | cons word words ih =>
    rw [wrapAfter]
    split
    · exact ih
    · next full =>
      obtain ⟨head, lines, same, isStart, isFirst⟩ := exists_wrapAfter config start ⟨start, word, []⟩ words
      have later := @ih ⟨start, word, []⟩
      rw [same] at later ⊢
      refine .cons_cons ⟨isStart, fun free => ?_⟩ later
      rw [isFirst] at free ⊢
      by_contra fits
      exact full ⟨free, Nat.le_of_not_lt fits⟩

/-! ### Greedy layouts -/

/-- Lines are a greedy layout of words: the words stand on them in order, a forced line begins a new one, another line
does so only before a word that the line cannot take, and only a single word is too wide for its line. -/
structure IsGreedy (config : Config) (start : Nat) (words : List FillWord) (lines : List WordLine) : Prop where
  words : lines.flatMap WordLine.words = words
  begins : ∀ line ∈ lines.head?, line.start = 0
  breaks : lines.IsChain (WordLine.Precedes config start)
  joins : ∀ line ∈ lines, ∀ word ∈ line.others, word.forced = false
  fits : ∀ line ∈ lines, config.printWidth < line.width config.ruler → line.others = []

theorem isGreedy_wrapped (config : Config) (start : Nat) (words : List FillWord) :
    IsGreedy config start words (wrapped config start words) := by
  cases words with
  | nil => exact ⟨rfl, nofun, .nil, nofun, nofun⟩
  | cons word words =>
    refine ⟨flatMap_words_wrapAfter, ?_, isChain_wrapAfter, ?_, ?_⟩
    · obtain ⟨head, lines, same, isStart, -⟩ := exists_wrapAfter config start ⟨0, word, []⟩ words
      rw [wrapped, same]
      intro line member
      obtain rfl := Option.some.inj member
      exact isStart
    · refine forall_wrapAfter (p := fun line => ∀ word ∈ line.others, word.forced = false) (fun _ _ => nofun) ?_ nofun
      intro line word free isFree _ other member
      rcases List.mem_append.mp member with member | member
      · exact free other member
      · exact List.mem_singleton.mp member ▸ isFree
    · refine forall_wrapAfter (p := fun line => config.printWidth < line.width config.ruler → line.others = [])
        (fun _ _ _ => rfl) ?_ fun _ => rfl
      intro line word _ _ room full
      rw [WordLine.width_add] at full
      omega

theorem totalColumns_word {word : FillWord} (solid : word.IsSolid) (ruler : Ruler) :
    Within Ordinary word.content.toList ∧
      totalColumns ruler word.content.toList = displayWidth word.content ruler := by
  have ordinary : Within Ordinary word.content.toList := fun c member => .inr (solid.solid c member).2
  refine ⟨ordinary, ?_⟩
  rw [← Text.displayWidth_eq_totalColumns ruler ordinary, String.ofList_toList]

theorem totalColumns_others {others : List FillWord} (solid : ∀ word ∈ others, word.IsSolid) (ruler : Ruler) (columns : Nat) :
    Within Ordinary (others.flatMap (' ' :: ·.content.toList)) ∧
      others.foldl (fun columns word => columns + 1 + displayWidth word.content ruler) columns =
        columns + totalColumns ruler (others.flatMap (' ' :: ·.content.toList)) := by
  induction others generalizing columns with
  | nil => exact ⟨nofun, rfl⟩
  | cons word others ih =>
    obtain ⟨here, behind⟩ := List.forall_mem_cons.mp solid
    obtain ⟨ordinary, grown⟩ := ih behind (columns + 1 + displayWidth word.content ruler)
    obtain ⟨ordinaryWord, columnsWord⟩ := totalColumns_word here ruler
    have space : Ordinary ' ' ∧ ruler.columns ' ' = 1 := ⟨.inr (by decide), Text.columns_space ruler⟩
    rw [List.flatMap_cons]
    refine ⟨Text.within_append (List.forall_mem_cons.mpr ⟨space.1, ordinaryWord⟩) ordinary, ?_⟩
    rw [List.foldl_cons, grown, Text.totalColumns_append, Text.totalColumns_cons, columnsWord, space.2]
    omega

theorem displayWidth_text (ruler : Ruler) (solid : ∀ word ∈ line.words, word.IsSolid) :
    displayWidth (String.ofList line.text) ruler = line.width ruler := by
  obtain ⟨solidFirst, solidOthers⟩ := List.forall_mem_cons.mp solid
  obtain ⟨ordinaryFirst, columnsFirst⟩ := totalColumns_word solidFirst ruler
  obtain ⟨ordinaryOthers, columnsOthers⟩ :=
    totalColumns_others solidOthers ruler (line.start + displayWidth line.first.content ruler)
  have ordinary : Within Ordinary line.text := by
    refine Text.within_append (Text.within_append ?_ ordinaryFirst) ordinaryOthers
    intro c member
    rw [List.eq_of_mem_replicate member]
    exact .inr (by decide)
  rw [Text.displayWidth_eq_totalColumns ruler ordinary, WordLine.text, Text.totalColumns_append,
    Text.totalColumns_append, Text.totalColumns_replicate, columnsFirst, Text.columns_space, Nat.mul_one, ← columnsOthers]
  rfl

end

/-! ### Parts of a fill -/

/-- A line between two words of a fill, forced or not. -/
inductive Parting : Bool → Doc → Prop
  | line (mark : Mark) : Parting false (.line mark .plain)
  | hardline (mark lineMark breakMark : Mark) :
    Parting true (.concat mark [.line lineMark .hard, .breakParent breakMark])

/-- Words as the parts of a fill, with the lines between them. -/
inductive Interleaved : List FillWord → List Doc → Prop
  | nil : Interleaved [] []
  | single (word : FillWord) (mark : Mark) : Interleaved [word] [.text mark word.content]
  | cons {word next : FillWord} {words : List FillWord} {separator doc : Doc} {parts : List Doc} (mark : Mark)
      (parting : Parting next.forced separator) (later : Interleaved (next :: words) (doc :: parts)) :
    Interleaved (word :: next :: words) (.text mark word.content :: separator :: doc :: parts)

theorem Interleaved.badSeparator?_eq_none {words : List FillWord} {parts : List Doc}
    (interleaved : Interleaved words parts) (index : Nat) : Build.badSeparator? index parts = none := by
  induction interleaved generalizing index with
  | nil => rfl
  | single => rfl
  | cons mark parting later ih =>
    have isLine : ∀ forced separator, Parting forced separator → separator.isLineSeparator = true := by
      rintro _ _ (_ | _)
      · rfl
      · rfl
    rw [Build.badSeparator?, if_pos (isLine _ _ parting)]
    exact ih (index + 2)

/-- A document that is written as a word. -/
structure Doc.Spells (ruler : Ruler) (word : FillWord) (doc : Doc) : Prop where
  texts : doc.isTexts = true
  content : doc.content = word.content.toList
  width : doc.levelWidth ruler = displayWidth word.content ruler

/-- Documents that are written as words, with the lines between them. -/
inductive Alternate (ruler : Ruler) : List FillWord → List Doc → Prop
  | nil : Alternate ruler [] []
  | single {word : FillWord} {doc : Doc} (spells : doc.Spells ruler word) : Alternate ruler [word] [doc]
  | cons {word next : FillWord} {words : List FillWord} {doc separator other : Doc} {parts : List Doc}
      (spells : doc.Spells ruler word) (parting : Parting next.forced separator)
      (later : Alternate ruler (next :: words) (other :: parts)) :
    Alternate ruler (word :: next :: words) (doc :: separator :: other :: parts)

theorem Alternate.head {ruler : Ruler} {word : FillWord} {words : List FillWord} {doc : Doc} {parts : List Doc}
    (alternate : Alternate ruler (word :: words) (doc :: parts)) : doc.Spells ruler word := by
  cases alternate with
  | single spells => exact spells
  | cons spells => exact spells

theorem Alternate.exists_cons {ruler : Ruler} {word : FillWord} {words : List FillWord} {parts : List Doc}
    (alternate : Alternate ruler (word :: words) parts) : ∃ doc docs, parts = doc :: docs := by
  cases alternate with
  | single => exact ⟨_, _, rfl⟩
  | cons => exact ⟨_, _, rfl⟩

theorem Alternate.level {ruler : Ruler} {breaks : BreakSet} {words : List FillWord} {parts : List Doc}
    (alternate : Alternate ruler words parts) (free : ∀ word ∈ words, word.forced = false) :
    Doc.areLevel breaks parts = true ∧ ∀ word later, words = word :: later →
      Doc.levelWidths ruler parts = (⟨0, word, later⟩ : WordLine).width ruler := by
  induction alternate with
  | nil => exact ⟨rfl, nofun⟩
  | single spells =>
    refine ⟨by simp [Doc.areLevel, Doc.isLevel_of_isTexts _ spells.texts], ?_⟩
    rintro word later ⟨⟩
    simp [Doc.levelWidths, spells.width, WordLine.width]
  | @cons word next words doc separator other parts spells parting later ih =>
    obtain ⟨_, others⟩ := List.forall_mem_cons.mp free
    obtain ⟨level, width⟩ := ih others
    rw [others next List.mem_cons_self] at parting
    cases parting with
    | line mark =>
      refine ⟨?_, ?_⟩
      · simp only [Doc.areLevel, Doc.isLevel_of_isTexts _ spells.texts, Bool.true_and] at level ⊢
        simp [Doc.isLevel, LineKind.isHard, level]
      · rintro _ _ ⟨⟩
        have columns := width next words rfl
        have moved := foldl_width ruler (displayWidth word.content ruler + 1) (displayWidth next.content ruler)
          words
        rw [Doc.levelWidths] at columns
        simp only [Doc.levelWidths, Doc.levelWidth, spells.width, columns, WordLine.width, Nat.zero_add,
          List.foldl_cons, moved]
        omega

theorem Interleaved.alternate {words : List FillWord} {parts : List Doc} (interleaved : Interleaved words parts)
    (ruler : Ruler) : Alternate ruler words parts := by
  induction interleaved with
  | nil => exact .nil
  | single word mark => exact .single ⟨rfl, rfl, rfl⟩
  | cons mark parting _ ih => exact .cons ⟨rfl, rfl, rfl⟩ parting ih

/-! ### Ended lines -/

/-- Lines that were ended, all but the last one, lose the blanks at their ends. -/
def trimEnded : List (List Char) → List (List Char)
  | [] => []
  | [last] => [last]
  | line :: next :: lines => dropEnd isLineBlank line :: trimEnded (next :: lines)

theorem intercalate_trimEnded (between line next : List Char) (lines : List (List Char)) :
    between.intercalate (trimEnded (line :: next :: lines)) =
      dropEnd isLineBlank line ++ between ++ between.intercalate (trimEnded (next :: lines)) := by
  cases lines <;> simp [trimEnded]

theorem trimEnded_of_solid {lines : List (List Char)}
    (solid : ∀ line ∈ lines, ∀ c ∈ line.getLast?, isLineBlank c = false) : trimEnded lines = lines := by
  induction lines with
  | nil => rfl
  | cons line lines ih =>
    cases lines with
    | nil => rfl
    | cons next lines =>
      obtain ⟨here, behind⟩ := List.forall_mem_cons.mp solid
      rw [trimEnded, Text.dropEnd_of_last here, ih behind]

theorem WordLine.solid_text {line : WordLine} (solid : ∀ word ∈ line.words, word.IsSolid) :
    ∀ c ∈ line.text.getLast?, isLineBlank c = false := by
  obtain ⟨first, others⟩ := List.forall_mem_cons.mp solid
  have ends {word : FillWord} (isSolid : word.IsSolid) :
      ∃ last, word.content.toList.getLast? = some last ∧ isLineBlank last = false := by
    refine ⟨_, List.getLast?_eq_some_getLast isSolid.nonempty, ?_⟩
    exact (isSolid.solid _ (List.getLast_mem isSolid.nonempty)).1
  intro c member
  rcases List.eq_nil_or_concat' line.others with none | ⟨before, last, split⟩
  · obtain ⟨last, isLast, noBlank⟩ := ends first
    rw [text, none, List.flatMap_nil, List.append_nil, List.getLast?_append, isLast] at member
    exact Option.some.inj member ▸ noBlank
  · obtain ⟨final, isFinal, noBlank⟩ := ends (others last (by simp [split]))
    have shown : (' ' :: last.content.toList).getLast? = some final := by
      rw [List.getLast?_cons, isFinal]
      rfl
    rw [text, split, List.flatMap_append, List.flatMap_singleton, ← List.append_assoc, List.getLast?_append,
      shown] at member
    exact Option.some.inj member ▸ noBlank

theorem dropEnd_intercalate_trimEnded {lines : List (List Char)} (nonempty : lines ≠ []) {before : List Char}
    (solid : ∀ c ∈ before.getLast?, isLineBlank c = false) :
    dropEnd isLineBlank (before ++ ['\n'].intercalate (trimEnded lines)) =
      before ++ ['\n'].intercalate (lines.map (dropEnd isLineBlank)) := by
  induction lines generalizing before with
  | nil => exact absurd rfl nonempty
  | cons line lines ih =>
    cases lines with
    | nil => simpa [trimEnded] using Text.dropEnd_append_of_last solid line
    | cons next lines =>
      have solidNext : ∀ c ∈ (before ++ dropEnd isLineBlank line ++ ['\n']).getLast?, isLineBlank c = false := by
        intro c member
        rw [List.getLast?_concat] at member
        exact Option.some.inj member ▸ rfl
      have later := ih (List.cons_ne_nil next lines) solidNext
      rw [intercalate_trimEnded, ← List.append_assoc, ← List.append_assoc, later]
      simp

/-! ### Rendering a fill of words -/

namespace RenderContext

variable {context : RenderContext} {state : RenderState} {indentation : Indentation} {mode : Mode}

theorem chars_breakLine {kind : LineKind} (indented : kind ≠ .literal) :
    (context.breakLine state kind indentation).out.chars = dropEnd isLineBlank state.out.chars ++
      context.config.lineEnding.text.toList ++ indentation.value.toList := by
  unfold breakLine
  rw [if_neg indented]
  simp only [Emitter.newline, Emitter.chars_emit, Emitter.chars_trim]

theorem run_flatLine (mark : Mark) (rest : List Command) :
    context.run state (⟨indentation, .flat, .line mark .plain⟩ :: rest) = context.run (state.wrote [' '] 1) rest :=
  run_eq_of_reaches (.step (.refl _))

/-- A line between two words that is forced or broken ends the current line. -/
theorem exists_run_parting {forced : Bool} {separator : Doc} (parting : Parting forced separator)
    (breaks : forced = true ∨ mode = .broken) (state : RenderState) (rest : List Command) :
    ∃ remeasure, context.run state (⟨indentation, mode, separator⟩ :: rest) =
      context.run (context.breakLine { state with remeasure := remeasure } .hard indentation) rest := by
  have reached : ∃ remeasure, context.Reaches ⟨state, ⟨indentation, mode, separator⟩ :: rest⟩
      ⟨context.breakLine { state with remeasure := remeasure } .hard indentation, rest⟩ := by
    cases parting with
    | line mark =>
      obtain rfl : mode = .broken := breaks.resolve_left Bool.false_ne_true
      exact ⟨state.remeasure, .step (.refl _)⟩
    | hardline mark lineMark breakMark =>
      cases mode with
      | broken => exact ⟨state.remeasure, .step (.step (.step (.refl _)))⟩
      | flat => exact ⟨true, .step (.step (.step (.refl _)))⟩
  obtain ⟨remeasure, reached⟩ := reached
  exact ⟨remeasure, run_eq_of_reaches reached⟩

theorem fits_pair {word next : FillWord} {doc other : Doc} (spells : doc.Spells context.config.ruler word)
    (spellsNext : other.Spells context.config.ruler next)
    (told : context.config.Tells (state.column + displayWidth word.content context.config.ruler + 1 +
      displayWidth next.content context.config.ruler)) (mark : Mark) (command : Command) :
    context.fits state true ([doc, .line mark .plain, other].map (command.on .flat)) =
      decide (state.column + displayWidth word.content context.config.ruler + 1 +
        displayWidth next.content context.config.ruler ≤ context.config.printWidth) := by
  have level : Doc.areLevel context.breaks [doc, .line mark .plain, other] = true := by
    simp [Doc.areLevel, Doc.isLevel, LineKind.isHard, Doc.isLevel_of_isTexts _ spells.texts,
      Doc.isLevel_of_isTexts _ spellsNext.texts]
  have columns : state.column + Doc.levelWidths context.config.ruler [doc, .line mark .plain, other] =
      state.column + displayWidth word.content context.config.ruler + 1 +
        displayWidth next.content context.config.ruler := by
    simp only [Doc.levelWidths, Doc.levelWidth, spells.width, spellsNext.width]
    omega
  rw [fits_levels level (columns ▸ told), columns]

theorem isLineBlank_getLast_lineEnding (before : List Char) (ending : Text.LineEnding) :
    ∀ c ∈ (before ++ ending.text.toList).getLast?, isLineBlank c = false := by
  have feed : ∃ last, ending.text.toList.getLast? = some last ∧ isLineBlank last = false := by
    cases ending <;> exact ⟨_, rfl, by decide⟩
  obtain ⟨last, isLast, noBlank⟩ := feed
  intro c member
  rw [List.getLast?_append, isLast] at member
  exact Option.some.inj member ▸ noBlank

section

variable {word next : FillWord} {words : List FillWord} {doc separator nextDoc : Doc} {parts : List Doc}

theorem run_fillCons (mark : Mark) (texts : doc.isTexts = true) (clean : '\n' ∉ doc.content) (rest : List Command) :
    context.run state (⟨indentation, mode, .fill mark (doc :: separator :: nextDoc :: parts)⟩ :: rest) =
      context.run (state.wrote doc.content (doc.levelWidth context.config.ruler))
        (⟨indentation, if context.fits state true ([doc, separator, nextDoc].map ((⟨indentation, mode,
          .fill mark (doc :: separator :: nextDoc :: parts)⟩ : Command).on .flat)) then .flat else .broken, separator⟩ ::
          ⟨indentation, mode, .fill mark (nextDoc :: parts)⟩ :: rest) := by
  rw [run_cons]
  exact run_texts doc state indentation _ _ texts clean

/-- The next word of a fill is put on the line of the word before it if it fits there after a space. -/
theorem run_fillFitting (mark lineMark : Mark) (spells : doc.Spells context.config.ruler word)
    (spellsNext : nextDoc.Spells context.config.ruler next) (clean : '\n' ∉ doc.content)
    (told : context.config.Tells (state.column + displayWidth word.content context.config.ruler + 1 +
      displayWidth next.content context.config.ruler))
    (room : state.column + displayWidth word.content context.config.ruler + 1 +
      displayWidth next.content context.config.ruler ≤ context.config.printWidth) (rest : List Command) :
    context.run state (⟨indentation, mode, .fill mark (doc :: .line lineMark .plain :: nextDoc :: parts)⟩ :: rest) =
      context.run ((state.wrote doc.content (doc.levelWidth context.config.ruler)).wrote [' '] 1)
        (⟨indentation, mode, .fill mark (nextDoc :: parts)⟩ :: rest) := by
  rw [run_fillCons mark spells.texts clean, fits_pair spells spellsNext told, decide_eq_true room, if_pos rfl,
    run_flatLine]

/-- The next word of a fill begins a line if it has to or does not fit. -/
theorem exists_run_fillBreaking (mark : Mark) (spells : doc.Spells context.config.ruler word)
    (spellsNext : nextDoc.Spells context.config.ruler next) (clean : '\n' ∉ doc.content)
    (parting : Parting next.forced separator)
    (told : next.forced = false → context.config.Tells (state.column + displayWidth word.content context.config.ruler +
      1 + displayWidth next.content context.config.ruler))
    (full : ¬(next.forced = false ∧ state.column + displayWidth word.content context.config.ruler + 1 +
      displayWidth next.content context.config.ruler ≤ context.config.printWidth)) (rest : List Command) :
    ∃ remeasure,
      context.run state (⟨indentation, mode, .fill mark (doc :: separator :: nextDoc :: parts)⟩ :: rest) =
        context.run (context.breakLine { state.wrote doc.content (doc.levelWidth context.config.ruler) with
          remeasure := remeasure } .hard indentation) (⟨indentation, mode, .fill mark (nextDoc :: parts)⟩ :: rest) := by
  rw [run_fillCons mark spells.texts clean]
  refine exists_run_parting parting ?_ _ _
  cases forced : next.forced with
  | true => exact .inl rfl
  | false =>
    rw [forced] at parting
    cases parting with
    | line lineMark =>
      rw [fits_pair spells spellsNext (told forced), decide_eq_false fun room => full ⟨forced, room⟩]
      exact .inr rfl

end

/-- A fill of words writes the lines that the words are wrapped to, when the first of them is next on a line. Blanks are
removed where a line ends, but not from what stands before the first line. Unless all lines are forced, looking ahead has
to tell the columns that the words can take. -/
theorem exists_run_fill {words : List FillWord} {parts : List Doc} {start bound : Nat} (mark : Mark)
    (spaces : indentation.value.toList = List.replicate start ' ') (columns : indentation.length = start)
    (alternate : Alternate context.config.ruler words parts) (clean : ∀ word ∈ words, '\n' ∉ word.content.toList)
    {word : FillWord} {later : List FillWord} (split : words = word :: later) {line : WordLine} {before : List Char}
    (solid : ∀ c ∈ before.getLast?, isLineBlank c = false)
    (written : state.out.chars ++ word.content.toList = before ++ line.text)
    (column : state.column + displayWidth word.content context.config.ruler = line.width context.config.ruler)
    (told : (∀ other ∈ later, other.forced = true) ∨ context.config.Tells bound)
    (onLine : line.width context.config.ruler + wordColumns context.config.ruler later ≤ bound)
    (onNext : start + wordColumns context.config.ruler later ≤ bound) (rest : List Command) :
    ∃ after, context.run state (⟨indentation, mode, .fill mark parts⟩ :: rest) = context.run after rest ∧
      after.out.chars = before ++ context.config.lineEnding.text.toList.intercalate
        (trimEnded ((wrapAfter context.config start line later).map WordLine.text)) := by
  -- `line` is the line that the next word is put on, and `before` what stands before this line.
  induction alternate generalizing word later line before state with
  | nil => cases split
  | @single other doc spells =>
    cases split
    have here : '\n' ∉ doc.content := spells.content ▸ clean other List.mem_cons_self
    refine ⟨state.wrote doc.content (doc.levelWidth context.config.ruler), ?_, ?_⟩
    · rw [run_cons]
      simp only [renderStep, openFill]
      split
      · exact run_texts doc state indentation .flat rest spells.texts here
      · exact run_texts doc state indentation .broken rest spells.texts here
    · rw [RenderState.chars_wrote, spells.content, written, wrapAfter]
      simp [trimEnded]
  | @cons other next words doc separator nextDoc parts spells parting later ih =>
    cases split
    obtain ⟨here, others⟩ := List.forall_mem_cons.mp clean
    rw [← spells.content] at here
    let wrote := state.wrote doc.content (doc.levelWidth context.config.ruler)
    have chars : wrote.out.chars = before ++ line.text := by
      rw [RenderState.chars_wrote, spells.content, written]
    have tells : next.forced = false → context.config.Tells (state.column +
        displayWidth other.content context.config.ruler + 1 + displayWidth next.content context.config.ruler) := by
      intro free
      refine (told.resolve_left fun forced => ?_).of_le ?_
      · exact Bool.false_ne_true (free.symm.trans (forced next List.mem_cons_self))
      · rw [wordColumns_cons] at onLine
        omega
    have toldLater : (∀ other ∈ words, other.forced = true) ∨ context.config.Tells bound :=
      told.imp_left fun forced other member => forced other (List.mem_cons_of_mem _ member)
    rw [wordColumns_cons] at onLine onNext
    rw [wrapAfter]
    by_cases fits : next.forced = false ∧ line.width context.config.ruler + 1 +
        displayWidth next.content context.config.ruler ≤ context.config.printWidth
    · obtain ⟨free, room⟩ := fits
      rw [free] at parting
      cases parting with
      | line lineMark =>
        rw [run_fillFitting mark lineMark spells later.head here (tells free) (column.symm ▸ room),
          if_pos ⟨free, room⟩]
        refine ih others rfl solid ?_ ?_ toldLater ?_ ?_
        · rw [RenderState.chars_wrote, chars, WordLine.text_add]
          simp
        · rw [RenderState.column_wrote, RenderState.column_wrote, spells.width, column, WordLine.width_add]
        · rw [WordLine.width_add]
          omega
        · omega
    · obtain ⟨remeasure, ran⟩ := exists_run_fillBreaking mark spells later.head here parting tells
        (column.symm ▸ fits) rest
      let broken := context.breakLine { wrote with remeasure := remeasure } .hard indentation
      let ended := before ++ dropEnd isLineBlank line.text ++ context.config.lineEnding.text.toList
      have charsBroken : broken.out.chars = ended ++ List.replicate start ' ' := by
        show (context.breakLine { wrote with remeasure := remeasure } .hard indentation).out.chars = _
        have ends : dropEnd isLineBlank wrote.out.chars = before ++ dropEnd isLineBlank line.text := by
          rw [chars, Text.dropEnd_append_of_last solid]
        rw [chars_breakLine (by decide : LineKind.hard ≠ .literal), spaces, ends]
      have writtenNext : broken.out.chars ++ next.content.toList = ended ++ (⟨start, next, []⟩ : WordLine).text := by
        simp [charsBroken, WordLine.text]
      have columnBroken : broken.column = start := columns
      have columnNext : broken.column + displayWidth next.content context.config.ruler =
          (⟨start, next, []⟩ : WordLine).width context.config.ruler := by
        rw [columnBroken]
        rfl
      have onNew : (⟨start, next, []⟩ : WordLine).width context.config.ruler =
          start + displayWidth next.content context.config.ruler := rfl
      obtain ⟨after, ranLater, charsAfter⟩ :=
        ih others rfl (isLineBlank_getLast_lineEnding _ _) writtenNext columnNext toldLater
          (by omega) (by omega)
      obtain ⟨head, lines, wraps, -⟩ := exists_wrapAfter context.config start ⟨start, next, []⟩ words
      refine ⟨after, ran.trans ranLater, ?_⟩
      rw [if_neg fits, charsAfter, wraps]
      simp only [List.map_cons, intercalate_trimEnded, List.append_assoc]

end RenderContext

theorem align_width (config : Config) (start : Nat) :
    (Indentation.none.align config (.width start)).value.toList = List.replicate start ' ' ∧
      (Indentation.none.align config (.width start)).length = start := by
  unfold Indentation.align
  dsimp only
  split
  · next zero => exact ⟨by simp [zero, Indentation.none], zero.symm⟩
  · simp [Indentation.push, Indentation.ofSteps, Indentation.none, Indentation.Replay.step,
      Indentation.Replay.flushSpaces, Indentation.Replay.addSpaces, Indentation.Replay.run]

/-- A fill of words, aligned at a column, is rendered as a greedy layout of the words, with a line ending and the
alignment before each line but the first. Looking ahead has to tell the columns that all the words would take. -/
theorem render_align_fill {words : List FillWord} {parts : List Doc} (interleaved : Interleaved words parts)
    (solid : ∀ word ∈ words, word.IsSolid) (config : Config) (start : Nat)
    (told : config.Tells (start + wordColumns config.ruler words)) (mark fillMark : Mark) :
    Build.badSeparator? 0 parts = none ∧
    (Doc.align mark (.width start) (.fill fillMark parts)).render config =
      String.ofList (config.lineEnding.text.toList.intercalate ((wrapped config start words).map WordLine.text)) ∧
    IsGreedy config start words (wrapped config start words) ∧
    ∀ line ∈ wrapped config start words,
      displayWidth (String.ofList line.text) config.ruler = line.width config.ruler := by
  have greedy := isGreedy_wrapped config start words
  refine ⟨interleaved.badSeparator?_eq_none 0, ?_, greedy, ?_⟩
  · obtain ⟨spaces, columns⟩ := align_width config start
    have opened : (Doc.align mark (.width start) (.fill fillMark parts)).render config =
        (RenderContext.run ⟨config, (Doc.align mark (.width start) (.fill fillMark parts)).breaks⟩ {}
          [⟨Indentation.none.align config (.width start), .broken, .fill fillMark parts⟩]).out.text := by
      unfold Doc.render Doc.renderInto
      rw [RenderContext.run]
      rfl
    rw [opened, Emitter.text]
    refine congrArg String.ofList ?_
    cases words with
    | nil =>
      cases interleaved
      rw [RenderContext.run]
      simp [RenderContext.renderStep, RenderContext.openFill, RenderContext.run, wrapped, Emitter.chars]
    | cons word later =>
      have written : ({} : RenderState).out.chars ++ word.content.toList =
          [] ++ (⟨0, word, []⟩ : WordLine).text := by
        simp [WordLine.text, Emitter.chars]
      have column : ({} : RenderState).column + displayWidth word.content config.ruler =
          (⟨0, word, []⟩ : WordLine).width config.ruler := by
        simp [WordLine.width]
      have clean : ∀ other ∈ word :: later, '\n' ∉ other.content.toList :=
        fun other member feed => absurd ((solid other member).solid _ feed).2 (by decide)
      have nothing : ∀ c ∈ ([] : List Char).getLast?, isLineBlank c = false := by simp
      have solidLines : ∀ text ∈ (wrapAfter config start ⟨0, word, []⟩ later).map WordLine.text,
          ∀ c ∈ text.getLast?, isLineBlank c = false := by
        intro text member
        obtain ⟨line, isLine, rfl⟩ := List.mem_map.mp member
        refine WordLine.solid_text fun other isWord => solid other ?_
        rw [← greedy.words]
        exact List.mem_flatMap.mpr ⟨line, isLine, isWord⟩
      have onLine : (⟨0, word, []⟩ : WordLine).width config.ruler + wordColumns config.ruler later ≤
          start + wordColumns config.ruler (word :: later) := by
        rw [← column, wordColumns_cons, Nat.zero_add]
        omega
      have onNext : start + wordColumns config.ruler later ≤ start + wordColumns config.ruler (word :: later) := by
        rw [wordColumns_cons]
        omega
      obtain ⟨after, ran, chars⟩ := @RenderContext.exists_run_fill
        ⟨config, (Doc.align mark (.width start) (.fill fillMark parts)).breaks⟩ _ _ _ _ _ _ _ fillMark spaces columns
        (interleaved.alternate config.ruler) clean _ _ rfl _ _ nothing written column (.inr told) onLine onNext []
      rw [ran, RenderContext.run, chars, trimEnded_of_solid solidLines]
      rfl
  · intro line member
    refine displayWidth_text config.ruler fun word isWord => solid word ?_
    rw [← greedy.words]
    exact List.mem_flatMap.mpr ⟨line, member, isWord⟩

def fourWords : List FillWord :=
  [⟨false, "ab"⟩, ⟨false, "c"⟩, ⟨true, "d"⟩, ⟨false, "efghi"⟩]

def fourParts : List Doc :=
  [.text 2 "ab", .line 3 .plain, .text 4 "c", .concat 5 [.line 6 .hard, .breakParent 7], .text 8 "d",
    .line 9 .plain, .text 10 "efghi"]

theorem render_align_fill_fourWords :
    (Doc.align 0 (.width 1) (.fill 1 fourParts)).render { printWidth := 4 } = "ab c\n d\n efghi" := by
  have interleaved : Interleaved fourWords fourParts :=
    .cons 2 (.line 3) (.cons 4 (.hardline 5 6 7) (.cons 8 (.line 9) (.single _ 10)))
  have solid : ∀ word ∈ fourWords, word.IsSolid := by
    simp only [fourWords, List.forall_mem_cons]
    refine ⟨⟨by decide, ?_⟩, ⟨by decide, ?_⟩, ⟨by decide, ?_⟩, ⟨by decide, ?_⟩, nofun⟩
    all_goals simp [isLineBlank, isControl]
  rw [(render_align_fill interleaved solid { printWidth := 4 } 1 (.inl (by decide)) 0 1).2.1]
  decide

end MarkupFormat.Layout
