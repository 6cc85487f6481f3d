import MarkupFormat.Proofs.Text.Blocks
import MarkupFormat.Proofs.Text.Characters

/-!
# Quotes and their entities

Reading the entities of quotes leaves none, and what has none is found again behind the quotes that are written as
entities (`unescapeQuotes_escapeQuote`). Neither of the two, nor writing white space as single spaces, makes or breaks
a template block: the blocks of a text become those of what it is changed to.
-/

namespace MarkupFormat.Text

variable {cs ds : List Char} {c quote : Char}

/-- A double or a single quote. -/
def IsQuoteChar (c : Char) : Prop :=
  c = '"' ∨ c = '\''

theorem IsQuoteChar.unmarked (isQuote : IsQuoteChar quote) : isMark quote = false := by
  rcases isQuote with rfl | rfl <;> decide

theorem isQuoteChar_preferredQuote (cs : List Char) : IsQuoteChar (preferredQuote cs) := by
  unfold preferredQuote
  split
  · exact .inr rfl
  · exact .inl rfl

/-! ### Entities -/

/-- Whether the entity of a quote is at the front. -/
def BeginsEntity (cs : List Char) : Prop :=
  ∃ quote, IsQuoteChar quote ∧ quoteEntity quote <+: cs

/-- No entity of a quote is in a text. -/
def EntityFree (cs : List Char) : Prop :=
  ∀ quote, IsQuoteChar quote → ¬quoteEntity quote <:+: cs

theorem quoteEntity_eq (isQuote : IsQuoteChar quote) :
    ∃ name, quoteEntity quote = '&' :: name ∧ '&' ∉ name ∧ ∀ c ∈ quoteEntity quote, ¬IsQuoteChar c ∧
      isMark c = false ∧ isMarkupSpace c = false := by
  have all : ∀ c ∈ "&quot;&apos;".toList, ¬(c = '"' ∨ c = '\'') ∧ isMark c = false ∧ isMarkupSpace c = false := by
    simp [isMark, isMarkupSpace]
  rcases isQuote with rfl | rfl
  · exact ⟨"quot;".toList, rfl, by decide, fun c member => all c (List.mem_append_left "&apos;".toList member)⟩
  · exact ⟨"apos;".toList, rfl, by decide, fun c member => all c (List.mem_append_right "&quot;".toList member)⟩

theorem quoteEntity_injective (isQuote : IsQuoteChar quote) {other : Char} (isOther : IsQuoteChar other)
    (same : quoteEntity quote = quoteEntity other) : quote = other := by
  have different : quoteEntity '"' ≠ quoteEntity '\'' := by decide
  rcases isQuote with rfl | rfl <;> rcases isOther with rfl | rfl
  · rfl
  · exact absurd same different
  · exact absurd same.symm different
  · rfl

theorem length_quoteEntity (isQuote : IsQuoteChar quote) : (quoteEntity quote).length = 6 := by
  rcases isQuote with rfl | rfl <;> decide

theorem quoteEntity_ne_nil (quote : Char) : quoteEntity quote ≠ [] := by
  unfold quoteEntity
  split <;> exact List.cons_ne_nil _ _

theorem entityFree_nil : EntityFree [] :=
  fun _ _ inside => quoteEntity_ne_nil _ (List.infix_nil.mp inside)

theorem entityFree_cons : EntityFree (c :: cs) ↔ ¬BeginsEntity (c :: cs) ∧ EntityFree cs := by
  constructor
  · intro free
    refine ⟨fun ⟨quote, isQuote, begins⟩ => free quote isQuote begins.isInfix, fun quote isQuote inside => ?_⟩
    exact free quote isQuote (List.infix_cons inside)
  · rintro ⟨noEntity, free⟩ quote isQuote inside
    rcases List.infix_cons_iff.mp inside with begins | later
    · exact noEntity ⟨quote, isQuote, begins⟩
    · exact free quote isQuote later

theorem not_beginsEntity (other : c ≠ '&') : ¬BeginsEntity (c :: cs) := by
  rintro ⟨quote, isQuote, begins⟩
  obtain ⟨name, same, _⟩ := quoteEntity_eq isQuote
  rw [same, List.cons_prefix_cons] at begins
  exact other begins.1.symm

theorem not_prefix_entity (isQuote : IsQuoteChar quote) {other : Char} (isOther : IsQuoteChar other)
    (different : other ≠ quote) (cs : List Char) : ¬quoteEntity other <+: quoteEntity quote ++ cs := by
  rintro ⟨rest, whole⟩
  have lengths := (length_quoteEntity isOther).trans (length_quoteEntity isQuote).symm
  exact different (quoteEntity_injective isOther isQuote (List.append_inj_left whole lengths))

/-! ### Reading entities -/

theorem unescapeQuotes_entity (isQuote : IsQuoteChar quote) (cs : List Char) :
    unescapeQuotes (quoteEntity quote ++ cs) = quote :: unescapeQuotes cs := by
  rcases isQuote with rfl | rfl <;> rfl

theorem unescapeQuotes_cons (plain : ¬BeginsEntity (c :: cs)) :
    unescapeQuotes (c :: cs) = c :: unescapeQuotes cs := by
  rw [unescapeQuotes]
  · rintro rest rfl rfl
    exact plain ⟨'\'', .inr rfl, rest, rfl⟩
  · rintro rest rfl rfl
    exact plain ⟨'"', .inl rfl, rest, rfl⟩

theorem entity_induction {motive : List Char → Prop} (nil : motive [])
    (entity : ∀ quote cs, IsQuoteChar quote → motive cs → motive (quoteEntity quote ++ cs))
    (plain : ∀ c cs, ¬BeginsEntity (c :: cs) → motive cs → motive (c :: cs)) (cs : List Char) : motive cs := by
  fun_induction unescapeQuotes cs with
  | case1 cs ih => exact entity '\'' cs (.inr rfl) ih
  | case2 cs ih => exact entity '"' cs (.inl rfl) ih
  | case3 c cs noSingle noDouble ih =>
    refine plain c cs ?_ ih
    rintro ⟨quote, rfl | rfl, rest, same⟩
    · cases same
      exact noDouble rest rfl rfl
    · cases same
      exact noSingle rest rfl rfl
  | case4 => exact nil

/-- Reading entities makes quotes only. -/
theorem prefix_of_prefix_unescapeQuotes {front : List Char} (noQuote : ∀ c ∈ front, ¬IsQuoteChar c)
    (begins : front <+: unescapeQuotes cs) : front <+: cs := by
  induction cs using entity_induction generalizing front with
  | nil => exact begins
  | entity quote cs isQuote ih =>
    rw [unescapeQuotes_entity isQuote] at begins
    cases front with
    | nil => exact List.nil_prefix
    | cons c front =>
      rw [(List.cons_prefix_cons.mp begins).1] at noQuote
      exact absurd isQuote (noQuote quote List.mem_cons_self)
  | plain c cs plain ih =>
    rw [unescapeQuotes_cons plain] at begins
    cases front with
    | nil => exact List.nil_prefix
    | cons d front =>
      obtain ⟨rfl, later⟩ := List.cons_prefix_cons.mp begins
      refine List.cons_prefix_cons.mpr ⟨rfl, ih (fun c member => noQuote c (List.mem_cons_of_mem _ member)) later⟩

theorem beginsEntity_of_tail {ds : List Char} (same : ∀ front, (∀ c ∈ front, ¬IsQuoteChar c) → '&' ∉ front →
    (∀ c ∈ front, isMarkupSpace c = false) → front <+: ds → front <+: cs) (begins : BeginsEntity (c :: ds)) :
    BeginsEntity (c :: cs) := by
  obtain ⟨quote, isQuote, begins⟩ := begins
  obtain ⟨name, isEntity, noAmpersand, chars⟩ := quoteEntity_eq isQuote
  rw [isEntity] at begins chars
  obtain ⟨rfl, later⟩ := List.cons_prefix_cons.mp begins
  obtain ⟨_, chars⟩ := List.forall_mem_cons.mp chars
  refine ⟨quote, isQuote, ?_⟩
  rw [isEntity]
  exact List.cons_prefix_cons.mpr ⟨rfl, same name (fun c member => (chars c member).1) noAmpersand
    (fun c member => (chars c member).2.2) later⟩

theorem entityFree_unescapeQuotes (cs : List Char) : EntityFree (unescapeQuotes cs) := by
  induction cs using entity_induction with
  | nil => exact entityFree_nil
  | entity quote cs isQuote ih =>
    rw [unescapeQuotes_entity isQuote]
    refine entityFree_cons.mpr ⟨not_beginsEntity ?_, ih⟩
    rcases isQuote with rfl | rfl <;> decide
  | plain c cs plain ih =>
    rw [unescapeQuotes_cons plain]
    refine entityFree_cons.mpr ⟨fun begins => plain ?_, ih⟩
    exact beginsEntity_of_tail (fun front noQuote _ _ => prefix_of_prefix_unescapeQuotes noQuote) begins

/-! ### Writing entities -/

theorem escapeQuote_cons (quote c : Char) (cs : List Char) :
    escapeQuote quote (c :: cs) = (if c = quote then quoteEntity quote else [c]) ++ escapeQuote quote cs :=
  rfl

theorem escapeQuote_append (quote : Char) (cs ds : List Char) :
    escapeQuote quote (cs ++ ds) = escapeQuote quote cs ++ escapeQuote quote ds :=
  List.flatMap_append

theorem not_mem_escapeQuote (isQuote : IsQuoteChar quote) (cs : List Char) : quote ∉ escapeQuote quote cs := by
  intro member
  obtain ⟨c, -, inside⟩ := List.mem_flatMap.mp member
  split at inside
  · obtain ⟨_, _, _, chars⟩ := quoteEntity_eq isQuote
    exact (chars quote inside).1 isQuote
  · next other => exact other (List.mem_singleton.mp inside).symm

theorem prefix_of_prefix_escapeQuote (isQuote : IsQuoteChar quote) {front : List Char} (noAmpersand : '&' ∉ front)
    (begins : front <+: escapeQuote quote cs) : front <+: cs := by
  induction cs generalizing front with
  | nil => exact begins
  | cons c cs ih =>
    rw [escapeQuote_cons] at begins
    cases front with
    | nil => exact List.nil_prefix
    | cons d front =>
      rw [List.mem_cons, not_or] at noAmpersand
      split at begins
      · obtain ⟨name, same, _⟩ := quoteEntity_eq isQuote
        rw [same, List.cons_append] at begins
        exact absurd (List.cons_prefix_cons.mp begins).1.symm noAmpersand.1
      · obtain ⟨rfl, later⟩ := List.cons_prefix_cons.mp begins
        exact List.cons_prefix_cons.mpr ⟨rfl, ih noAmpersand.2 later⟩

theorem unescapeQuotes_escapeQuote (isQuote : IsQuoteChar quote) (free : EntityFree cs) :
    unescapeQuotes (escapeQuote quote cs) = cs := by
  induction cs with
  | nil => rfl
  | cons c cs ih =>
    obtain ⟨plain, free⟩ := entityFree_cons.mp free
    rw [escapeQuote_cons]
    split
    · next same => rw [unescapeQuotes_entity isQuote, ih free, same]
    · rw [List.singleton_append, unescapeQuotes_cons, ih free]
      intro begins
      exact plain (beginsEntity_of_tail (fun front _ noAmpersand _ => prefix_of_prefix_escapeQuote isQuote noAmpersand)
        begins)

/-! ### Texts that are written again as they are -/

/-- Neither the quote nor the entity of the other quote is in a text. -/
structure QuotesKept (quote : Char) (cs : List Char) : Prop where
  noQuote : quote ∉ cs
  noEntity : ∀ other, IsQuoteChar other → other ≠ quote → ¬quoteEntity other <:+: cs

theorem QuotesKept.of_isInfix (kept : QuotesKept quote cs) (inside : ds <:+: cs) : QuotesKept quote ds :=
  ⟨fun member => kept.noQuote (inside.subset member),
    fun other isQuote different here => kept.noEntity other isQuote different (here.trans inside)⟩

theorem infix_of_infix_entity {other : Char} (isQuote : IsQuoteChar quote) (isOther : IsQuoteChar other)
    (different : other ≠ quote) (inside : quoteEntity other <:+: quoteEntity quote ++ cs) :
    quoteEntity other <:+: cs := by
  obtain ⟨name, same, _⟩ := quoteEntity_eq isOther
  have skip {word : List Char} (noAmpersand : '&' ∉ word) (inside : quoteEntity other <:+: word ++ cs) :
      quoteEntity other <:+: cs := by
    induction word with
    | nil => exact inside
    | cons c word ih =>
      rw [List.mem_cons, not_or] at noAmpersand
      rcases List.infix_cons_iff.mp inside with begins | later
      · rw [same] at begins
        exact absurd (List.cons_prefix_cons.mp begins).1 noAmpersand.1
      · exact ih noAmpersand.2 later
  have differs := not_prefix_entity isQuote isOther different cs
  obtain ⟨name', same', noAmpersand, _⟩ := quoteEntity_eq isQuote
  rw [same', List.cons_append] at inside differs
  rcases List.infix_cons_iff.mp inside with begins | later
  · exact absurd begins differs
  · exact skip noAmpersand later

/-- What is written with its quotes as entities. -/
theorem quotesKept_escapeQuote (isQuote : IsQuoteChar quote) (free : EntityFree cs) :
    QuotesKept quote (escapeQuote quote cs) := by
  refine ⟨not_mem_escapeQuote isQuote cs, fun other isOther different inside => ?_⟩
  induction cs with
  | nil => exact entityFree_nil other isOther inside
  | cons c cs ih =>
    obtain ⟨plain, free⟩ := entityFree_cons.mp free
    rw [escapeQuote_cons] at inside
    split at inside
    · exact ih free (infix_of_infix_entity isQuote isOther different inside)
    · rcases List.infix_cons_iff.mp inside with begins | later
      · exact plain (beginsEntity_of_tail
          (fun front _ noAmpersand _ => prefix_of_prefix_escapeQuote isQuote noAmpersand) ⟨other, isOther, begins⟩)
      · exact ih free later

theorem QuotesKept.escapeQuote_unescapeQuotes (kept : QuotesKept quote cs) :
    escapeQuote quote (unescapeQuotes cs) = cs := by
  induction cs using entity_induction with
  | nil => rfl
  | entity other cs isOther ih =>
    have same : other = quote := Decidable.byContradiction fun different =>
      kept.noEntity other isOther different (List.prefix_append _ cs).isInfix
    rw [unescapeQuotes_entity isOther, escapeQuote_cons, if_pos same, same,
      ih (kept.of_isInfix (List.suffix_append _ cs).isInfix)]
  | plain c cs plain ih =>
    have other : c ≠ quote := fun same => kept.noQuote (same ▸ List.mem_cons_self)
    rw [unescapeQuotes_cons plain, escapeQuote_cons, if_neg other,
      ih (kept.of_isInfix (List.infix_cons List.infix_rfl)), List.singleton_append]

/-! ### Writing white space as single spaces -/

theorem collapseRuns_blank {blank : List Char} (all : ∀ c ∈ blank, isMarkupSpace c = true) (nonempty : blank ≠ [])
    (pending : Bool) (cs : List Char) : collapseRuns pending (blank ++ cs) = collapseRuns true cs := by
  induction blank generalizing pending with
  | nil => exact absurd rfl nonempty
  | cons c blank ih =>
    obtain ⟨first, others⟩ := List.forall_mem_cons.mp all
    rw [List.cons_append, collapseRuns, if_pos first]
    cases blank with
    | nil => rfl
    | cons d blank => exact ih others (List.cons_ne_nil d blank) true

theorem collapseRuns_true_of_blank (all : ∀ c ∈ cs, isMarkupSpace c = true) (pending : Bool) :
    collapseRuns pending cs = [] := by
  induction cs generalizing pending with
  | nil => rfl
  | cons c cs ih =>
    obtain ⟨first, others⟩ := List.forall_mem_cons.mp all
    rw [collapseRuns, if_pos first, ih others]

/-- What is written for the white space before a character that is none. -/
def leadOf (pending : Bool) : List Char :=
  if pending then [' '] else []

theorem collapseRuns_cons {pending : Bool} (solid : isMarkupSpace c = false) :
    collapseRuns pending (c :: cs) = leadOf pending ++ c :: collapseRuns false cs := by
  rw [collapseRuns, if_neg (by rw [solid]; decide)]
  cases pending <;> rfl

/-- A word stays as it is. -/
theorem collapseRuns_word {word : List Char} (solid : ∀ c ∈ word, isMarkupSpace c = false) (nonempty : word ≠ [])
    (pending : Bool) (cs : List Char) :
    collapseRuns pending (word ++ cs) = leadOf pending ++ (word ++ collapseRuns false cs) := by
  induction word generalizing pending with
  | nil => exact absurd rfl nonempty
  | cons c word ih =>
    obtain ⟨first, others⟩ := List.forall_mem_cons.mp solid
    have later : collapseRuns false (word ++ cs) = word ++ collapseRuns false cs := by
      cases word with
      | nil => rfl
      | cons d word => exact ih others (List.cons_ne_nil d word) false
    rw [List.cons_append, collapseRuns_cons first, later, List.cons_append]

theorem collapseRuns_append_blank {blank : List Char} (all : ∀ c ∈ blank, isMarkupSpace c = true) (pending : Bool)
    (cs : List Char) : collapseRuns pending (cs ++ blank) = collapseRuns pending cs := by
  induction cs generalizing pending with
  | nil => exact collapseRuns_true_of_blank all pending
  | cons c cs ih =>
    rw [List.cons_append, collapseRuns, collapseRuns]
    split
    · exact ih true
    · rw [ih false]

theorem collapse_eq (cs : List Char) : collapse cs = collapseRuns false (cs.dropWhile isMarkupSpace) := by
  unfold collapse dropEnds dropEnd
  generalize cs.dropWhile isMarkupSpace = ds
  have whole : ds = (ds.reverse.dropWhile isMarkupSpace).reverse ++ (ds.reverse.takeWhile isMarkupSpace).reverse := by
    rw [← List.reverse_append, List.takeWhile_append_dropWhile, List.reverse_reverse]
  have blank : ∀ c ∈ (ds.reverse.takeWhile isMarkupSpace).reverse, isMarkupSpace c = true :=
    fun c member => List.all_eq_true.mp List.all_takeWhile c (List.mem_reverse.mp member)
  exact ((congrArg (collapseRuns false) whole).trans (collapseRuns_append_blank blank false _)).symm

theorem collapseRuns_collapseRuns (pending : Bool) (cs : List Char) :
    collapseRuns false (collapseRuns pending cs) = collapseRuns pending cs := by
  induction cs generalizing pending with
  | nil => rfl
  | cons c cs ih =>
    cases solid : isMarkupSpace c with
    | true => rw [collapseRuns, if_pos solid, ih]
    | false =>
      have again (pending : Bool) : collapseRuns pending (c :: collapseRuns false cs) =
          leadOf pending ++ c :: collapseRuns false cs := by
        rw [collapseRuns_cons solid, ih]
      rw [collapseRuns_cons solid]
      cases pending with
      | false => exact again false
      | true => exact again true

theorem dropWhile_collapse (cs : List Char) : (collapse cs).dropWhile isMarkupSpace = collapse cs := by
  rw [collapse_eq]
  cases same : cs.dropWhile isMarkupSpace with
  | nil => rfl
  | cons c ds =>
    have solid : isMarkupSpace c = false := by
      have first := List.head?_dropWhile_not isMarkupSpace cs
      rw [same] at first
      exact first
    rw [collapseRuns_cons solid]
    exact List.dropWhile_cons_of_neg (by rw [solid]; decide)

theorem collapse_collapse (cs : List Char) : collapse (collapse cs) = collapse cs := by
  rw [collapse_eq (collapse cs), dropWhile_collapse, collapse_eq, collapseRuns_collapseRuns]

theorem collapseRuns_true_cases (cs : List Char) :
    collapseRuns true cs = [] ∨
      ∃ c rest, isMarkupSpace c = false ∧ collapseRuns true cs = ' ' :: c :: collapseRuns false rest := by
  induction cs with
  | nil => exact .inl rfl
  | cons c cs ih =>
    cases solid : isMarkupSpace c with
    | true => rwa [collapseRuns, if_pos solid]
    | false => exact .inr ⟨c, cs, solid, collapseRuns_cons solid⟩

theorem prefix_of_prefix_collapseRuns {front : List Char} (noSpace : ∀ c ∈ front, isMarkupSpace c = false)
    (begins : front <+: collapseRuns false cs) : front <+: cs := by
  induction cs generalizing front with
  | nil => exact begins
  | cons c cs ih =>
    cases front with
    | nil => exact List.nil_prefix
    | cons d front =>
      obtain ⟨first, others⟩ := List.forall_mem_cons.mp noSpace
      cases solid : isMarkupSpace c with
      | false =>
        rw [collapseRuns_cons solid] at begins
        obtain ⟨rfl, later⟩ := List.cons_prefix_cons.mp begins
        exact List.cons_prefix_cons.mpr ⟨rfl, ih others later⟩
      | true =>
        rw [collapseRuns, if_pos solid] at begins
        rcases collapseRuns_true_cases cs with nothing | ⟨e, rest, -, same⟩
        · rw [nothing] at begins
          cases List.prefix_nil.mp begins
        · rw [same] at begins
          rw [(List.cons_prefix_cons.mp begins).1] at first
          cases first

/-- An entity holds no white space, so none is made when white space is written anew. -/
theorem beginsEntity_of_collapseRuns (begins : BeginsEntity (c :: collapseRuns false cs)) : BeginsEntity (c :: cs) :=
  beginsEntity_of_tail (fun _ _ _ noSpace => prefix_of_prefix_collapseRuns noSpace) begins

theorem not_beginsEntity_of_isMarkupSpace (blank : isMarkupSpace c = true) : ¬BeginsEntity (c :: cs) := by
  refine not_beginsEntity ?_
  rintro rfl
  cases blank

theorem entityFree_collapseRuns (free : EntityFree cs) (pending : Bool) : EntityFree (collapseRuns pending cs) := by
  induction cs generalizing pending with
  | nil => exact entityFree_nil
  | cons c cs ih =>
    obtain ⟨plain, free⟩ := entityFree_cons.mp free
    cases solid : isMarkupSpace c with
    | true =>
      rw [collapseRuns, if_pos solid]
      exact ih free true
    | false =>
      have here := entityFree_cons.mpr ⟨mt beginsEntity_of_collapseRuns plain, ih free false⟩
      rw [collapseRuns_cons solid]
      cases pending with
      | false => exact here
      | true => exact entityFree_cons.mpr ⟨not_beginsEntity_of_isMarkupSpace (by decide), here⟩

theorem entityFree_collapse (free : EntityFree cs) : EntityFree (collapse cs) := by
  rw [collapse_eq]
  refine entityFree_collapseRuns (fun quote isQuote inside => free quote isQuote ?_) false
  exact inside.trans (List.dropWhile_suffix isMarkupSpace).isInfix

theorem IsQuoteChar.solid (isQuote : IsQuoteChar quote) : isMarkupSpace quote = false := by
  rcases isQuote with rfl | rfl <;> decide

theorem solid_quoteEntity (isQuote : IsQuoteChar quote) : ∀ c ∈ quoteEntity quote, isMarkupSpace c = false := by
  obtain ⟨_, _, _, chars⟩ := quoteEntity_eq isQuote
  exact fun c member => (chars c member).2.2

theorem collapseRuns_unescapeQuotes (pending : Bool) (cs : List Char) :
    collapseRuns pending (unescapeQuotes cs) = unescapeQuotes (collapseRuns pending cs) := by
  have lead (pending : Bool) (cs : List Char) :
      unescapeQuotes (leadOf pending ++ cs) = leadOf pending ++ unescapeQuotes cs := by
    cases pending with
    | false => rfl
    | true => exact unescapeQuotes_cons (not_beginsEntity (by decide))
  induction cs using entity_induction generalizing pending with
  | nil => rfl
  | entity quote cs isQuote ih =>
    rw [unescapeQuotes_entity isQuote, collapseRuns_cons isQuote.solid, ih,
      collapseRuns_word (solid_quoteEntity isQuote) (quoteEntity_ne_nil quote), lead, unescapeQuotes_entity isQuote]
  | plain c cs plain ih =>
    rw [unescapeQuotes_cons plain]
    cases solid : isMarkupSpace c with
    | true => rw [collapseRuns, if_pos solid, collapseRuns, if_pos solid, ih]
    | false =>
      rw [collapseRuns_cons solid, collapseRuns_cons solid, ih, lead,
        unescapeQuotes_cons (mt beginsEntity_of_collapseRuns plain)]

theorem collapseRuns_escapeQuote (isQuote : IsQuoteChar quote) (pending : Bool) (cs : List Char) :
    collapseRuns pending (escapeQuote quote cs) = escapeQuote quote (collapseRuns pending cs) := by
  have lead (pending : Bool) : escapeQuote quote (leadOf pending) = leadOf pending := by
    rcases isQuote with rfl | rfl <;> cases pending <;> rfl
  induction cs generalizing pending with
  | nil => rfl
  | cons c cs ih =>
    rw [escapeQuote_cons]
    by_cases same : c = quote
    · subst same
      rw [if_pos rfl, collapseRuns_word (solid_quoteEntity isQuote) (quoteEntity_ne_nil c), ih,
        collapseRuns_cons isQuote.solid, escapeQuote_append, lead, escapeQuote_cons, if_pos rfl]
    · rw [if_neg same, List.singleton_append]
      cases solid : isMarkupSpace c with
      | true => rw [collapseRuns, if_pos solid, collapseRuns, if_pos solid, ih]
      | false =>
        rw [collapseRuns_cons solid, collapseRuns_cons solid, ih, escapeQuote_append, lead, escapeQuote_cons,
          if_neg same, List.singleton_append]

/-! ### What becomes of blocks -/

theorem prefix_of_prefix_append_cons {front : List Char} (absent : c ∉ front) (begins : front <+: cs ++ c :: ds) :
    front <+: cs := by
  induction front generalizing cs with
  | nil => exact List.nil_prefix
  | cons d front ih =>
    rw [List.mem_cons, not_or] at absent
    cases cs with
    | nil => exact absurd (List.cons_prefix_cons.mp begins).1.symm absent.1
    | cons e cs =>
      obtain ⟨rfl, later⟩ := List.cons_prefix_cons.mp begins
      exact List.cons_prefix_cons.mpr ⟨rfl, ih absent.2 later⟩

theorem unmarked_quoteEntity (isQuote : IsQuoteChar quote) : Unmarked (quoteEntity quote) := by
  obtain ⟨_, _, _, chars⟩ := quoteEntity_eq isQuote
  exact fun c member => (chars c member).2.1

theorem unmarked_of_blank (blank : ∀ c ∈ cs, isMarkupSpace c = true) : Unmarked cs := by
  intro c member
  have space := blank c member
  refine Bool.eq_false_iff.mpr fun mark => ?_
  simp only [isMark, Bool.or_eq_true, decide_eq_true_eq] at mark
  rcases mark with ((rfl | rfl) | rfl) | rfl <;> cases space

theorem blockwise_unescapeQuotes : Blockwise unescapeQuotes where
  step cs := by
    induction cs using entity_induction with
    | nil => exact .last unmarked_nil unmarked_nil
    | entity quote cs isQuote =>
      exact .change (quoteEntity_ne_nil quote) (List.cons_ne_nil quote []) (unmarked_quoteEntity isQuote)
        (unmarked_cons.mpr ⟨isQuote.unmarked, unmarked_nil⟩) (unescapeQuotes_entity isQuote cs)
    | plain c cs plain => exact .keep (unescapeQuotes_cons plain)
  nil := rfl
  anew front := by
    induction front using entity_induction with
    | nil => exact ⟨[], fun cs => unescapeQuotes_cons (not_beginsEntity (by decide))⟩
    | entity quote front isQuote ih =>
      obtain ⟨changed, same⟩ := ih
      refine ⟨quote :: changed, fun cs => ?_⟩
      rw [List.append_assoc, unescapeQuotes_entity isQuote, same, List.cons_append]
    | plain c front plain ih =>
      obtain ⟨changed, same⟩ := ih
      refine ⟨c :: changed, fun cs => ?_⟩
      -- No entity goes on over a closing brace.
      have plain' : ¬BeginsEntity (c :: front ++ '}' :: cs) := by
        rintro ⟨quote, isQuote, begins⟩
        refine plain ⟨quote, isQuote, prefix_of_prefix_append_cons (fun brace => ?_) begins⟩
        cases unmarked_quoteEntity isQuote '}' brace
      rw [List.cons_append] at plain' ⊢
      rw [unescapeQuotes_cons plain', same, List.cons_append]

theorem blockwise_escapeQuote (isQuote : IsQuoteChar quote) : Blockwise (escapeQuote quote) where
  step
    | [] => .last unmarked_nil unmarked_nil
    | c :: cs => by
      have first := escapeQuote_cons quote c cs
      by_cases same : c = quote
      · subst same
        rw [if_pos rfl] at first
        exact .change (List.cons_ne_nil c []) (quoteEntity_ne_nil c)
          (unmarked_cons.mpr ⟨isQuote.unmarked, unmarked_nil⟩) (unmarked_quoteEntity isQuote) first
      · rw [if_neg same] at first
        exact .keep first
  nil := rfl
  anew front := by
    refine ⟨escapeQuote quote front, fun cs => ?_⟩
    have other : '}' ≠ quote := by
      rintro rfl
      cases isQuote.unmarked
    rw [escapeQuote_append, escapeQuote_cons, if_neg other, List.singleton_append]

theorem blockwise_collapseRuns : Blockwise (collapseRuns false) where
  step cs := by
    cases blank : cs.takeWhile isMarkupSpace with
    | nil =>
      cases cs with
      | nil => exact .last unmarked_nil unmarked_nil
      | cons c cs =>
        refine .keep (collapseRuns_cons (Bool.eq_false_iff.mpr fun space => ?_))
        rw [List.takeWhile_cons_of_pos space] at blank
        cases blank
    | cons c front =>
      have all : ∀ d ∈ c :: front, isMarkupSpace d = true := by
        rw [← blank]
        exact List.all_eq_true.mp List.all_takeWhile
      have whole := List.takeWhile_append_dropWhile (p := isMarkupSpace) (l := cs)
      have first := List.head?_dropWhile_not isMarkupSpace cs
      rw [blank] at whole
      generalize cs.dropWhile isMarkupSpace = rest at whole first
      subst whole
      have run := collapseRuns_blank all (List.cons_ne_nil c front) false rest
      cases rest with
      | nil => exact .last (by rw [List.append_nil]; exact unmarked_of_blank all) (by rw [run]; exact unmarked_nil)
      | cons d rest =>
        have solid : isMarkupSpace d = false := first
        have space : Unmarked [' '] := unmarked_cons.mpr ⟨by decide, unmarked_nil⟩
        refine .change (List.cons_ne_nil c front) (List.cons_ne_nil ' ' []) (unmarked_of_blank all) space ?_
        rw [run, collapseRuns_cons solid, collapseRuns_cons solid]
        rfl
  nil := rfl
  anew front := by
    have any (pending : Bool) : ∃ changed, ∀ cs,
        collapseRuns pending (front ++ '}' :: cs) = changed ++ '}' :: collapseRuns false cs := by
      induction front generalizing pending with
      | nil => exact ⟨leadOf pending, fun cs => collapseRuns_cons (by decide)⟩
      | cons c front ih =>
        cases solid : isMarkupSpace c with
        | true =>
          obtain ⟨changed, same⟩ := ih true
          refine ⟨changed, fun cs => ?_⟩
          rw [List.cons_append, collapseRuns, if_pos solid, same]
        | false =>
          obtain ⟨changed, same⟩ := ih false
          refine ⟨leadOf pending ++ c :: changed, fun cs => ?_⟩
          rw [List.cons_append, collapseRuns_cons solid, same, List.append_assoc, List.cons_append]
    exact any false

theorem blocks_dropWhile (cs : List Char) : blocks (cs.dropWhile isMarkupSpace) = blocks cs := by
  have whole := List.takeWhile_append_dropWhile (p := isMarkupSpace) (l := cs)
  have blank : Unmarked (cs.takeWhile isMarkupSpace) := unmarked_of_blank (List.all_eq_true.mp List.all_takeWhile)
  conv => rhs; rw [← whole]
  exact (blocks_append_of_unmarked blank _).symm

theorem collapse_brace (cs : List Char) : collapse ('{' :: cs) = collapseRuns false ('{' :: cs) := by
  rw [collapse_eq, List.dropWhile_cons_of_neg (by decide)]

theorem blocks_collapse (cs : List Char) : blocks (collapse cs) = (blocks cs).map collapse := by
  rw [collapse_eq, blockwise_collapseRuns.blocks, blocks_dropWhile]
  refine List.map_congr_left fun block member => ?_
  obtain ⟨-, inner, rfl⟩ := of_mem_blocks member
  exact (collapse_brace _).symm

theorem occursIn_collapse {a b : Char} (first : isMark a = true) (second : isMark b = true) (cs : List Char) :
    occursIn [a, b] (collapse cs) = occursIn [a, b] cs := by
  have whole := List.takeWhile_append_dropWhile (p := isMarkupSpace) (l := cs)
  have blank : Unmarked (cs.takeWhile isMarkupSpace) := unmarked_of_blank (List.all_eq_true.mp List.all_takeWhile)
  rw [collapse_eq, ← (blockwise_collapseRuns.rewrites _).occursIn_eq first second]
  conv => rhs; rw [← whole]
  exact (occursIn_append_of_unmarked blank first [b] _).symm

/-! ### Parts of a text with single spaces -/

theorem collapseRuns_of_suffix {front : List Char} (single : collapseRuns false (front ++ cs) = front ++ cs) :
    collapseRuns false cs = cs := by
  induction front with
  | nil => exact single
  | cons c front ih =>
    refine ih ?_
    rw [List.cons_append] at single
    cases solid : isMarkupSpace c with
    | false =>
      rw [collapseRuns_cons solid] at single
      exact (List.cons.inj single).2
    | true =>
      rw [collapseRuns, if_pos solid] at single
      rcases collapseRuns_true_cases (front ++ cs) with nothing | ⟨d, rest, solid', same⟩
      · rw [nothing] at single
        cases single
      · rw [same] at single
        rw [← (List.cons.inj single).2, collapseRuns_cons solid', collapseRuns_collapseRuns]
        rfl

theorem collapseRuns_of_infix (single : collapseRuns false cs = cs) (inside : ds ++ ['}'] <:+: cs) :
    collapseRuns false (ds ++ ['}']) = ds ++ ['}'] := by
  obtain ⟨front, back, rfl⟩ := inside
  rw [List.append_assoc, List.append_assoc] at single
  have here := collapseRuns_of_suffix single
  have behind : collapseRuns false back = back := by
    rw [← List.append_assoc] at here
    exact collapseRuns_of_suffix here
  obtain ⟨changed, anew⟩ := blockwise_collapseRuns.anew ds
  have whole : changed ++ '}' :: back = ds ++ '}' :: back := by
    have split := anew back
    rw [behind] at split
    exact split.symm.trans here
  rw [anew, List.append_cancel_right whole]
  rfl

end MarkupFormat.Text
