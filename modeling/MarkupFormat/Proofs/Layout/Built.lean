import Mathlib.Data.List.Forall2
import MarkupFormat.Layout.Strip
import MarkupFormat.Layout.Transform
import MarkupFormat.Proofs.Text.Characters
import MarkupFormat.Proofs.Text.LineEndings

/-!
# What is built

Building comes to an end with a document, unless a fill is given parts that do not alternate. `Makes` says that a
computation succeeds and what it makes; there is one lemma for each builder, and `makes_bind` puts them together.
What is followed through all of them are the characters of the texts.
-/

namespace MarkupFormat.Layout

variable {p : Char → Prop}

namespace Doc

/-! ### The characters of a document -/

mutual

/-- The texts of a document are made up of some characters. -/
def TextsIn (p : Char → Prop) : Doc → Prop
  | text _ content => Text.Within p content.toList
  | concat _ parts | fill _ parts => AllTextsIn p parts
  | indent _ body | align _ _ body | group _ _ body | indentIfBreak _ body _ _ | label _ _ body => body.TextsIn p
  | choice _ _ body first others => body.TextsIn p ∧ first.TextsIn p ∧ AllTextsIn p others
  | ifBreak _ broken flat _ => broken.TextsIn p ∧ flat.TextsIn p
  | line .. | breakParent _ | trim _ => True

/-- The texts of several documents are made up of some characters. -/
def AllTextsIn (p : Char → Prop) : List Doc → Prop
  | [] => True
  | doc :: docs => doc.TextsIn p ∧ AllTextsIn p docs

end

theorem allTextsIn_iff {docs : List Doc} : AllTextsIn p docs ↔ ∀ doc ∈ docs, doc.TextsIn p := by
  induction docs with
  | nil => simp [AllTextsIn]
  | cons doc docs ih => simp [AllTextsIn, ih]

mutual

theorem textsIn_of_all (all : ∀ c, p c) : ∀ doc : Doc, doc.TextsIn p
  | text .. => fun c _ => all c
  | concat _ parts | fill _ parts => allTextsIn_of_all all parts
  | indent _ body | align _ _ body | group _ _ body | indentIfBreak _ body _ _ | label _ _ body =>
    textsIn_of_all all body
  | choice _ _ body first others =>
    ⟨textsIn_of_all all body, textsIn_of_all all first, allTextsIn_of_all all others⟩
  | ifBreak _ broken flat _ => ⟨textsIn_of_all all broken, textsIn_of_all all flat⟩
  | line .. | breakParent _ | trim _ => trivial

theorem allTextsIn_of_all (all : ∀ c, p c) : ∀ docs : List Doc, AllTextsIn p docs
  | [] => trivial
  | doc :: docs => ⟨textsIn_of_all all doc, allTextsIn_of_all all docs⟩

end

theorem allTextsIn_append {docs more : List Doc} (first : AllTextsIn p docs) (second : AllTextsIn p more) :
    AllTextsIn p (docs ++ more) :=
  allTextsIn_iff.mpr (List.forall_mem_append.mpr ⟨allTextsIn_iff.mp first, allTextsIn_iff.mp second⟩)

theorem allTextsIn_intersperse {docs : List Doc} {separator : Doc} (all : AllTextsIn p docs)
    (between : separator.TextsIn p) : AllTextsIn p (docs.intersperse separator) := by
  induction docs with
  | nil => exact all
  | cons doc rest ih =>
    cases rest with
    | nil => exact all
    | cons next rest =>
      rw [List.intersperse_cons_cons]
      exact ⟨all.1, between, ih all.2⟩

/-! ### Parts of a fill -/

/-- Contents with lines between them, beginning and ending with a content. -/
def Alternating : List Doc → Prop
  | [] => False
  | [_] => True
  | _ :: separator :: parts => separator.isLineSeparator = true ∧ Alternating parts

theorem alternating_intersperse {separator : Doc} (line : separator.isLineSeparator = true) (doc : Doc)
    (docs : List Doc) : Alternating ((doc :: docs).intersperse separator) := by
  induction docs generalizing doc with
  | nil => exact trivial
  | cons next docs ih =>
    rw [List.intersperse_cons_cons]
    exact ⟨line, ih next⟩

theorem badSeparator?_eq_none {parts : List Doc} (index : Nat) (alternating : Alternating parts) :
    Build.badSeparator? index parts = none := by
  fun_induction Build.badSeparator? index parts with
  | case1 index content separator parts line ih => exact ih alternating.2
  | case2 index content separator parts noLine => exact absurd alternating.1 noLine
  | case3 => rfl

end Doc

namespace Build

open Doc (TextsIn AllTextsIn Alternating)
open Text (Within)

variable {ε α β : Type} {build : StateT Supply (Except ε) α} {holds : α → Prop}

/-! ### Computations that succeed -/

/-- A computation succeeds, and its result has a property. -/
def Makes (build : StateT Supply (Except ε) α) (holds : α → Prop) : Prop :=
  ∀ supply, ∃ result, build.run supply = .ok result ∧ holds result.1

theorem makes_pure {value : α} (here : holds value) : Makes (pure value : StateT Supply (Except ε) α) holds :=
  fun supply => ⟨(value, supply), rfl, here⟩

theorem makes_bind {next : α → StateT Supply (Except ε) β} {after : β → Prop} (first : Makes build holds)
    (then_ : ∀ value, holds value → Makes (next value) after) : Makes (build >>= next) after := by
  intro supply
  obtain ⟨middle, ran, here⟩ := first supply
  obtain ⟨result, ranNext, there⟩ := then_ middle.1 here middle.2
  refine ⟨result, ?_, there⟩
  rw [StateT.run_bind, ran]
  exact ranNext

theorem Makes.mono {after : α → Prop} (makes : Makes build holds) (weaker : ∀ value, holds value → after value) :
    Makes build after := by
  intro supply
  obtain ⟨result, ran, here⟩ := makes supply
  exact ⟨result, ran, weaker _ here⟩

theorem makes_mapM {values : List β} {make : β → StateT Supply (Except ε) α} {holds : β → α → Prop}
    (each : ∀ value ∈ values, Makes (make value) (holds value)) :
    Makes (values.mapM make) (List.Forall₂ holds values) := by
  induction values with
  | nil => exact makes_pure .nil
  | cons value rest ih =>
    rw [List.mapM_cons]
    refine makes_bind (each value List.mem_cons_self) fun first here => ?_
    refine makes_bind (ih fun other member => each other (List.mem_cons_of_mem _ member)) fun others there => ?_
    exact makes_pure (.cons here there)

theorem makes_freshMark : Makes freshMark fun _ => True :=
  fun _ => ⟨_, rfl, trivial⟩

theorem makes_freshGroup {name : String} : Makes (freshGroup name) fun _ => True :=
  fun _ => ⟨_, rfl, trivial⟩

/-! ### Builders -/

/-- A document is made whose texts are made up of some characters. -/
abbrev Spells (p : Char → Prop) (build : Build Doc) : Prop :=
  Makes build (TextsIn p)

abbrev SpellsAll (p : Char → Prop) (build : Build (List Doc)) : Prop :=
  Makes build (AllTextsIn p)

theorem spells_text {content : String} (chars : Within p content.toList) : Spells p (text content) :=
  makes_bind makes_freshMark fun _ _ => makes_pure chars

theorem spells_empty : Spells p empty :=
  spells_text nofun

theorem spells_concat {parts : List Doc} (all : AllTextsIn p parts) : Spells p (concat parts) :=
  makes_bind makes_freshMark fun _ _ => makes_pure all

theorem spells_seq {parts : List (Build Doc)} (each : ∀ part ∈ parts, Spells p part) : Spells p (seq parts) := by
  refine makes_bind (makes_mapM each) fun docs made => spells_concat ?_
  induction made with
  | nil => exact trivial
  | cons here _ ih => exact ⟨here, ih fun part member => each part (List.mem_cons_of_mem _ member)⟩

theorem spells_pair {first second : Build Doc} (before : Spells p first) (after : Spells p second) :
    Spells p (seq [first, second]) :=
  spells_seq (List.forall_mem_cons.mpr ⟨before, List.forall_mem_singleton.mpr after⟩)

theorem spells_triple {first second third : Build Doc} (before : Spells p first) (between : Spells p second)
    (after : Spells p third) : Spells p (seq [first, second, third]) :=
  spells_seq (List.forall_mem_cons.mpr ⟨before, List.forall_mem_cons.mpr ⟨between,
    List.forall_mem_singleton.mpr after⟩⟩)

variable {body : Doc}

theorem spells_indent (inside : body.TextsIn p) : Spells p (indent body) :=
  makes_bind makes_freshMark fun _ _ => makes_pure inside

theorem spells_align (kind : AlignKind) (inside : body.TextsIn p) : Spells p (align kind body) :=
  makes_bind makes_freshMark fun _ _ => makes_pure inside

theorem spells_groupWith (id : Option GroupId) (mustBreak : Bool) (inside : body.TextsIn p) :
    Spells p (groupWith body id mustBreak) :=
  makes_bind makes_freshMark fun _ _ => makes_pure inside

theorem spells_group (inside : body.TextsIn p) : Spells p (group body) :=
  spells_groupWith none false inside

theorem spells_choiceWith {first : Doc} {others : List Doc} (id : Option GroupId) (mustBreak : Bool)
    (inside : first.TextsIn p) (all : AllTextsIn p others) : Spells p (choiceWith (first :: others) id mustBreak) :=
  makes_bind makes_freshMark fun _ _ => makes_pure ⟨inside, inside, all⟩

theorem spells_fill {parts : List Doc} (alternating : Alternating parts) (all : AllTextsIn p parts) :
    Spells p (fill parts) := by
  unfold fill
  rw [Doc.badSeparator?_eq_none 0 alternating]
  exact makes_bind makes_freshMark fun _ _ => makes_pure all

theorem spells_ifBreakFor {broken flat : Doc} (id : Option GroupId) (first : broken.TextsIn p)
    (second : flat.TextsIn p) : Spells p (ifBreakFor broken flat id) :=
  makes_bind makes_freshMark fun _ _ => makes_pure ⟨first, second⟩

theorem spells_indentIfBreak (id : GroupId) (negate : Bool) (inside : body.TextsIn p) :
    Spells p (indentIfBreak body id negate) :=
  makes_bind makes_freshMark fun _ _ => makes_pure inside

theorem spells_label (name : String) (inside : body.TextsIn p) : Spells p (label name body) :=
  makes_bind makes_freshMark fun _ _ => makes_pure inside

/-- A line is made that a fill takes between its contents. -/
abbrev Separates (p : Char → Prop) (build : Build Doc) : Prop :=
  Makes build fun doc => doc.isLineSeparator = true ∧ doc.TextsIn p

theorem separates_bareLine (kind : LineKind) : Separates p (bareLine kind) :=
  makes_bind makes_freshMark fun _ _ => makes_pure ⟨rfl, trivial⟩

theorem spells_breakParent : Spells p breakParent :=
  makes_bind makes_freshMark fun _ _ => makes_pure trivial

theorem makes_bareLine (kind : LineKind) : Makes (bareLine kind) fun doc => ∃ mark, doc = .line mark kind :=
  makes_bind makes_freshMark fun mark _ => makes_pure ⟨mark, rfl⟩

theorem makes_breakParent : Makes breakParent fun doc => ∃ mark, doc = .breakParent mark :=
  makes_bind makes_freshMark fun mark _ => makes_pure ⟨mark, rfl⟩

theorem separates_forcedLine {kind : LineKind} (hard : kind.isHard = true) :
    Separates p (do let line ← bareLine kind; concat [line, ← breakParent]) := by
  refine makes_bind (makes_bareLine kind) fun _ isLine => makes_bind makes_breakParent fun _ isBreak => ?_
  obtain ⟨_, rfl⟩ := isLine
  obtain ⟨_, rfl⟩ := isBreak
  exact makes_bind makes_freshMark fun _ _ => makes_pure ⟨hard, trivial, trivial, trivial⟩

theorem separates_line : Separates p line :=
  separates_bareLine .plain

theorem separates_hardline : Separates p hardline :=
  separates_forcedLine rfl

theorem separates_literalline : Separates p literalline :=
  separates_forcedLine rfl

theorem Separates.spells {build : Build Doc} (separates : Separates p build) : Spells p build :=
  separates.mono fun _ line => line.2

theorem spells_softline : Spells p softline :=
  (separates_bareLine .soft).spells

/-! ### Lines of a text -/

theorem allTextsIn_of_forall₂ {values : List α} {docs : List Doc}
    (each : List.Forall₂ (fun _ => TextsIn p) values docs) : AllTextsIn p docs := by
  induction each with
  | nil => exact trivial
  | cons here _ ih => exact ⟨here, ih⟩

theorem makes_splitLines {content : String} {separator : Doc} (chars : Within p content.toList)
    (line : separator.isLineSeparator = true) (between : separator.TextsIn p) :
    Makes (splitLines content separator) fun parts => Alternating parts ∧ AllTextsIn p parts := by
  have texts : Makes ((Text.splitOn (· = '\n') content).mapM text)
      (List.Forall₂ (fun _ => TextsIn p) (Text.splitOn (· = '\n') content)) :=
    makes_mapM fun piece isPiece => spells_text (Text.within_of_mem_splitOn chars isPiece)
  have some : Text.splitOn (· = '\n') content ≠ [] := fun none =>
    Text.splitOnChars_ne_nil _ _ (List.map_eq_nil_iff.mp none)
  refine makes_bind texts fun docs made => makes_pure ⟨?_, ?_⟩
  · generalize Text.splitOn (· = '\n') content = pieces at some made
    cases made with
    | nil => exact absurd rfl some
    | cons => exact Doc.alternating_intersperse line _ _
  · exact Doc.allTextsIn_intersperse (allTextsIn_of_forall₂ made) between

/-! ### Rebuilding -/

/-- The results that a run of a rule has found. -/
def Found (p : Char → Prop) (run : RuleRun) : Prop :=
  ∀ (mark : Mark) (result : Doc), run.results[mark]? = some result → result.TextsIn p

/-- Rebuilding keeps the texts and what was found so far. -/
abbrev Rebuilds (p : Char → Prop) (rebuild : Transforming α) (holds : α → Prop) : Prop :=
  ∀ run, Found p run → Makes (rebuild.run run) fun result => holds result.1 ∧ Found p result.2

theorem rebuilds_pure {value : α} (here : holds value) : Rebuilds p (pure value) holds :=
  fun _ found => makes_pure ⟨here, found⟩

theorem rebuilds_bind {rebuild : Transforming α} {next : α → Transforming β} {after : β → Prop}
    (first : Rebuilds p rebuild holds) (then_ : ∀ value, holds value → Rebuilds p (next value) after) :
    Rebuilds p (rebuild >>= next) after := by
  intro run found
  rw [StateT.run_bind]
  exact makes_bind (first run found) fun result here => then_ result.1 here.1 result.2 here.2

theorem rebuilds_lift {build : Build α} (makes : Makes build holds) : Rebuilds p (liftM build) holds := by
  intro run found
  show Makes (build >>= fun value => pure (value, run)) _
  exact makes_bind makes fun value here => makes_pure ⟨here, found⟩

variable {rule : Doc → Build Doc}

theorem rebuilds_apply (mark : Mark) {rebuilt : Doc} (applied : Spells p (rule rebuilt)) :
    Rebuilds p (Transforming.apply rule mark rebuilt) (TextsIn p) := by
  refine rebuilds_bind (rebuilds_lift applied) fun result here => ?_
  intro run found
  have kept : Found p ⟨run.results.insert mark result, rebuilt :: run.applied⟩ := by
    intro other node isKept
    rw [Std.HashMap.getElem?_insert] at isKept
    split at isKept
    · cases isKept
      exact here
    · exact found other node isKept
  exact makes_pure ⟨here, kept⟩

theorem run_runRule (rule : Doc → Build Doc) (doc : Doc) (run : RuleRun) :
    (doc.runRule rule).run run = match run.results[doc.mark]? with
      | some result => pure (result, run)
      | none => (doc.rebuild rule >>= Transforming.apply rule doc.mark).run run := by
  unfold Doc.runRule
  rw [StateT.run_bind, StateT.run_get, pure_bind]
  dsimp only
  cases run.results[doc.mark]? <;> rfl

/-- A node that was met before is not rebuilt again. -/
theorem rebuilds_runRule {doc : Doc} (spells : ∀ doc : Doc, doc.TextsIn p → Spells p (rule doc))
    (rebuilds : Rebuilds p (doc.rebuild rule) (TextsIn p)) : Rebuilds p (doc.runRule rule) (TextsIn p) := by
  intro run found
  rw [run_runRule]
  split
  · next result kept => exact makes_pure ⟨found _ _ kept, found⟩
  · exact rebuilds_bind rebuilds (fun _ here => rebuilds_apply doc.mark (spells _ here)) run found

theorem rebuilds_around {body : Doc} {make : Doc → Build Doc}
    (spells : ∀ doc : Doc, doc.TextsIn p → Spells p (rule doc)) (rebuilds : Rebuilds p (body.rebuild rule) (TextsIn p))
    (around : ∀ inside : Doc, inside.TextsIn p → Spells p (make inside)) :
    Rebuilds p (do make (← body.runRule rule)) (TextsIn p) :=
  rebuilds_bind (rebuilds_runRule spells rebuilds) fun inside here => rebuilds_lift (around inside here)

mutual

theorem rebuilds_rebuild (spells : ∀ doc : Doc, doc.TextsIn p → Spells p (rule doc)) :
    ∀ doc : Doc, doc.TextsIn p → Rebuilds p (doc.rebuild rule) (TextsIn p)
  | .concat _ parts, texts => by
    rw [Doc.rebuild]
    exact rebuilds_bind (rebuilds_runRuleAll spells parts texts) fun _ all => rebuilds_lift (spells_concat all)
  | .fill _ parts, texts => by
    rw [Doc.rebuild]
    exact rebuilds_bind (rebuilds_lift makes_freshMark) fun _ _ =>
      rebuilds_bind (rebuilds_runRuleAll spells parts texts) fun _ all => rebuilds_pure all
  | .indent _ body, texts => by
    rw [Doc.rebuild]
    exact rebuilds_around spells (rebuilds_rebuild spells body texts) fun _ => spells_indent
  | .align _ kind body, texts => by
    rw [Doc.rebuild]
    exact rebuilds_around spells (rebuilds_rebuild spells body texts) fun _ => spells_align kind
  | .indentIfBreak _ body id negate, texts => by
    rw [Doc.rebuild]
    exact rebuilds_around spells (rebuilds_rebuild spells body texts) fun _ => spells_indentIfBreak id negate
  | .label _ name body, texts => by
    rw [Doc.rebuild]
    exact rebuilds_around spells (rebuilds_rebuild spells body texts) fun _ => spells_label name
  | .group _ info body, texts => by
    rw [Doc.rebuild]
    exact rebuilds_around spells (rebuilds_rebuild spells body texts) fun _ => spells_groupWith info.id info.mustBreak
  | .ifBreak _ broken flat id, texts => by
    rw [Doc.rebuild]
    exact rebuilds_bind (rebuilds_runRule spells (rebuilds_rebuild spells broken texts.1)) fun _ first =>
      rebuilds_around spells (rebuilds_rebuild spells flat texts.2) fun _ => spells_ifBreakFor id first
  | .choice _ info _ first others, texts => by
    rw [Doc.rebuild]
    exact rebuilds_bind (rebuilds_runRule spells (rebuilds_rebuild spells first texts.2.1)) fun _ inside =>
      rebuilds_bind (rebuilds_runRuleAll spells others texts.2.2) fun _ all =>
        rebuilds_lift (spells_choiceWith info.id info.mustBreak inside all)
  | .text .., texts => by
    rw [Doc.rebuild]
    exact rebuilds_pure texts
  | .line .., _ | .breakParent _, _ | .trim _, _ => by
    rw [Doc.rebuild]
    exact rebuilds_pure trivial

theorem rebuilds_runRuleAll (spells : ∀ doc : Doc, doc.TextsIn p → Spells p (rule doc)) :
    ∀ docs : List Doc, AllTextsIn p docs → Rebuilds p (Doc.runRuleAll rule docs) (AllTextsIn p)
  | [], _ => by
    rw [Doc.runRuleAll]
    exact rebuilds_pure trivial
  | doc :: docs, texts => by
    rw [Doc.runRuleAll]
    exact rebuilds_bind (rebuilds_runRule spells (rebuilds_rebuild spells doc texts.1)) fun _ here =>
      rebuilds_bind (rebuilds_runRuleAll spells docs texts.2) fun _ others => rebuilds_pure ⟨here, others⟩

end

theorem makes_transform {doc : Doc} (spells : ∀ doc : Doc, doc.TextsIn p → Spells p (rule doc))
    (texts : doc.TextsIn p) : Makes (doc.transform rule) fun result => result.1.TextsIn p := by
  have found : Found p {} := by
    intro mark result kept
    rw [Std.HashMap.getElem?_empty] at kept
    cases kept
  exact (rebuilds_runRule spells (rebuilds_rebuild spells doc texts) {} found).mono fun _ both => both.1

theorem spells_replaceLineEndings {doc replacement : Doc} (texts : doc.TextsIn p)
    (line : replacement.isLineSeparator = true) (between : replacement.TextsIn p) :
    Spells p (doc.replaceLineEndings replacement) := by
  refine makes_bind (makes_transform ?_ texts) fun result here => makes_pure here
  intro node inside
  cases node with
  | text mark content =>
    dsimp only
    split
    · exact makes_bind (makes_splitLines inside line between) fun _ parts => spells_concat parts.2
    · exact makes_pure inside
  | _ => exact makes_pure inside

/-! ### Removing a final line -/

mutual

theorem spells_stripFinalLine : ∀ doc : Doc, doc.TextsIn p → Spells p doc.stripFinalLine
  | .concat _ parts, texts =>
    makes_bind (makes_stripLast (Doc.keptParts parts) parts texts) fun _ all => spells_concat all
  | .fill _ parts, texts =>
    makes_bind makes_freshMark fun _ _ =>
      makes_bind (makes_stripLast (Doc.keptParts parts) parts texts) fun _ all => makes_pure all
  | .indent _ body, texts => makes_bind (spells_stripFinalLine body texts) fun _ inside => spells_indent inside
  | .align _ kind body, texts =>
    makes_bind (spells_stripFinalLine body texts) fun _ inside => spells_align kind inside
  | .indentIfBreak _ body id negate, texts =>
    makes_bind (spells_stripFinalLine body texts) fun _ inside => spells_indentIfBreak id negate inside
  | .label _ name body, texts =>
    makes_bind (spells_stripFinalLine body texts) fun _ inside => spells_label name inside
  | .group _ info body, texts =>
    makes_bind (spells_stripFinalLine body texts) fun _ inside => spells_groupWith info.id info.mustBreak inside
  | .choice _ _ body _ _, texts =>
    makes_bind makes_freshMark fun _ _ =>
      makes_bind (spells_stripFinalLine body texts.1) fun _ inside => makes_pure ⟨inside, texts.2⟩
  | .ifBreak _ broken flat id, texts =>
    makes_bind (spells_stripFinalLine broken texts.1) fun _ first =>
      makes_bind (spells_stripFinalLine flat texts.2) fun _ second => spells_ifBreakFor id first second
  | .text _ content, texts =>
    spells_text (Text.within_ofList (texts.subset (Text.dropEnd_subset _ content.toList)))
  | .line .., _ | .breakParent _, _ | .trim _, _ => makes_pure trivial

theorem makes_stripLast : ∀ (count : Nat) (parts : List Doc), AllTextsIn p parts →
    SpellsAll p (Doc.stripLast count parts)
  | 0, _, _ => by
    rw [Doc.stripLast]
    exact makes_pure trivial
  | _ + 1, [], _ => makes_pure trivial
  | 1, part :: _, texts => makes_bind (spells_stripFinalLine part texts.1) fun _ here => makes_pure ⟨here, trivial⟩
  | count + 2, _ :: parts, texts =>
    makes_bind (makes_stripLast (count + 1) parts texts.2) fun _ all => makes_pure ⟨texts.1, all⟩

end

end Build

end MarkupFormat.Layout
