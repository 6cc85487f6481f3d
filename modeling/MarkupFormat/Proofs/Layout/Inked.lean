import Mathlib.Data.List.Forall2
import MarkupFormat.Layout.Transform
import MarkupFormat.Proofs.Layout.Ink

/-!
# The ink of what is built

A computation that builds a document may fail, and it issues marks and ids on the way. What it builds has the
same ink whatever these are. `Inks` says which; there is one lemma for each builder, and `inks_seq` and
`yields_bind` put them together.
-/

namespace MarkupFormat.Layout

open Text (visible visible_append)

namespace Build

variable {ε α β : Type} {build : StateT Supply (Except ε) α} {holds : α → Prop}

/-- Whatever a computation results in has a property. -/
def Yields (build : StateT Supply (Except ε) α) (holds : α → Prop) : Prop :=
  ∀ supply result, build.run supply = .ok result → holds result.1

theorem yields_true : Yields build fun _ => True :=
  fun _ _ _ => trivial

theorem yields_and {also : α → Prop} (first : Yields build holds) (second : Yields build also) :
    Yields build fun value => holds value ∧ also value :=
  fun supply result ran => ⟨first supply result ran, second supply result ran⟩

theorem yields_imp {condition : Prop} (yields : condition → Yields build holds) :
    Yields build fun value => condition → holds value :=
  fun supply result ran here => yields here supply result ran

theorem yields_pure {value : α} (here : holds value) : Yields (pure value : StateT Supply (Except ε) α) holds := by
  rintro supply result ⟨⟩
  exact here

theorem yields_throw {error : ε} : Yields (throw error : StateT Supply (Except ε) α) holds := by
  rintro supply result ⟨⟩

theorem yields_bind {next : α → StateT Supply (Except ε) β} {after : β → Prop} (first : Yields build holds)
    (then_ : ∀ value, holds value → Yields (next value) after) : Yields (build >>= next) after := by
  intro supply result ran
  rw [StateT.run_bind] at ran
  cases done : build.run supply with
  | error failure =>
    rw [done] at ran
    cases ran
  | ok middle =>
    rw [done] at ran
    exact then_ middle.1 (first supply middle done) middle.2 result ran

theorem Yields.mono {after : α → Prop} (yields : Yields build holds) (weaker : ∀ value, holds value → after value) :
    Yields build after :=
  fun supply result ran => weaker _ (yields supply result ran)

theorem yields_mapM {values : List β} {make : β → StateT Supply (Except ε) α} {holds : β → α → Prop}
    (each : ∀ value ∈ values, Yields (make value) (holds value)) :
    Yields (values.mapM make) (List.Forall₂ holds values) := by
  induction values with
  | nil => exact yields_pure .nil
  | cons value rest ih =>
    rw [List.mapM_cons]
    refine yields_bind (each value List.mem_cons_self) fun first here => ?_
    refine yields_bind (ih fun other member => each other (List.mem_cons_of_mem _ member)) fun others there => ?_
    exact yields_pure (.cons here there)

theorem yields_freshMark : Yields freshMark fun _ => True :=
  fun _ _ _ => trivial

theorem yields_freshGroup {name : String} : Yields (freshGroup name) fun _ => True :=
  fun _ _ _ => trivial

end Build

namespace Doc

/-- A document that writes the same ink in every layout. -/
structure Inked (cs : List Char) (doc : Doc) : Prop where
  steady : doc.Steady
  ink : doc.ink = cs

theorem inked_of_children {doc : Doc} {cs : List Char} (self : doc.isSteady = true)
    (below : ∀ child ∈ doc.children false, child.Steady) (ink : doc.ink = cs) : Inked cs doc := by
  refine ⟨fun node member => ?_, ink⟩
  rw [nodes_eq_cons] at member
  rcases List.mem_cons.mp member with rfl | member
  · exact self
  · obtain ⟨child, inside, member⟩ := mem_nodesAll.mp member
    exact below child inside node member

/-- Documents that write the same ink in every layout. -/
structure InkedAll (cs : List Char) (docs : List Doc) : Prop where
  steady : ∀ doc ∈ docs, doc.Steady
  ink : inkAll docs = cs

theorem inkedAll_nil : InkedAll [] [] :=
  ⟨fun _ member => absurd member List.not_mem_nil, rfl⟩

theorem inkedAll_cons {cs ds : List Char} {doc : Doc} {docs : List Doc} (first : Inked cs doc)
    (others : InkedAll ds docs) : InkedAll (cs ++ ds) (doc :: docs) := by
  refine ⟨fun other member => ?_, by rw [inkAll, first.ink, others.ink]⟩
  rcases List.mem_cons.mp member with rfl | member
  · exact first.steady
  · exact others.steady other member

theorem inkedAll_append {cs ds : List Char} {docs more : List Doc} (first : InkedAll cs docs)
    (others : InkedAll ds more) : InkedAll (cs ++ ds) (docs ++ more) := by
  refine ⟨fun other member => ?_, by rw [inkAll_append, first.ink, others.ink]⟩
  exact (List.mem_append.mp member).elim (first.steady other) (others.steady other)

theorem inkedAll_singleton {cs : List Char} {doc : Doc} (inked : Inked cs doc) : InkedAll cs [doc] := by
  rw [← List.append_nil cs]
  exact inkedAll_cons inked inkedAll_nil

theorem inkedAll_of_forall₂ {parts : List Doc} {inks : List (List Char)}
    (each : List.Forall₂ Inked inks parts) : InkedAll inks.flatten parts := by
  induction each with
  | nil => exact inkedAll_nil
  | cons first _ ih => exact inkedAll_cons first ih

theorem inkedAll_intersperse {cs : List Char} {docs : List Doc} {separator : Doc} (all : InkedAll cs docs)
    (blank : Inked [] separator) : InkedAll cs (docs.intersperse separator) := by
  induction docs generalizing cs with
  | nil => exact all
  | cons doc rest ih =>
    cases rest with
    | nil => exact all
    | cons next rest =>
      have first : Inked doc.ink doc := ⟨all.steady doc List.mem_cons_self, rfl⟩
      have others : InkedAll (inkAll (next :: rest)) (next :: rest) :=
        ⟨fun other member => all.steady other (List.mem_cons_of_mem _ member), rfl⟩
      rw [List.intersperse_cons_cons, ← all.ink]
      show InkedAll (doc.ink ++ ([] ++ inkAll (next :: rest))) _
      exact inkedAll_cons first (inkedAll_cons blank (ih others))

end Doc

open Doc (Inked InkedAll)

namespace Build

variable {cs : List Char}

/-- What is built writes exactly this ink. -/
abbrev Inks (build : Build Doc) (cs : List Char) : Prop :=
  Yields build (Inked cs)

abbrev InksAll (build : Build (List Doc)) (cs : List Char) : Prop :=
  Yields build (InkedAll cs)

theorem inks_text (content : String) : Inks (text content) (visible content.toList) := by
  refine yields_bind yields_freshMark fun mark _ => yields_pure ?_
  exact Doc.inked_of_children rfl (fun _ member => absurd member List.not_mem_nil) rfl

theorem inks_empty : Inks empty [] :=
  inks_text ""

theorem inks_concat {parts : List Doc} (all : InkedAll cs parts) : Inks (concat parts) cs := by
  refine yields_bind yields_freshMark fun mark _ => yields_pure ?_
  exact Doc.inked_of_children rfl all.steady all.ink

theorem yields_mapM_id {parts : List (Build Doc)} {inks : List (List Char)} (each : List.Forall₂ Inks parts inks) :
    InksAll (parts.mapM id) inks.flatten := by
  induction each with
  | nil => exact yields_pure Doc.inkedAll_nil
  | cons first _ ih =>
    rw [List.mapM_cons]
    refine yields_bind first fun doc inked => yields_bind ih fun docs all => ?_
    exact yields_pure (Doc.inkedAll_cons inked all)

theorem inks_seq {parts : List (Build Doc)} {inks : List (List Char)} (each : List.Forall₂ Inks parts inks) :
    Inks (seq parts) inks.flatten :=
  yields_bind (yields_mapM_id each) fun _ all => inks_concat all

theorem inks_pair {ds : List Char} {first second : Build Doc} (inksFirst : Inks first cs)
    (inksSecond : Inks second ds) : Inks (seq [first, second]) (cs ++ ds) := by
  have parts := inks_seq (.cons inksFirst (.cons inksSecond .nil))
  rwa [List.flatten_cons, List.flatten_cons, List.flatten_nil, List.append_nil] at parts

theorem inks_triple {ds es : List Char} {first second third : Build Doc} (inksFirst : Inks first cs)
    (inksSecond : Inks second ds) (inksThird : Inks third es) :
    Inks (seq [first, second, third]) (cs ++ (ds ++ es)) := by
  have parts := inks_seq (.cons inksFirst (.cons inksSecond (.cons inksThird .nil)))
  rwa [List.flatten_cons, List.flatten_cons, List.flatten_cons, List.flatten_nil, List.append_nil] at parts

theorem inked_around {doc body : Doc} (inked : Inked cs body) (self : doc.isSteady = true)
    (below : doc.children false = [body]) (ink : doc.ink = body.ink) : Inked cs doc := by
  refine Doc.inked_of_children self (fun child member => ?_) (ink.trans inked.ink)
  rw [below] at member
  rw [List.mem_singleton.mp member]
  exact inked.steady

theorem inks_indent {body : Doc} (inked : Inked cs body) : Inks (indent body) cs :=
  yields_bind yields_freshMark fun _ _ => yields_pure (inked_around inked rfl rfl rfl)

theorem inks_dedentToRoot {body : Doc} (inked : Inked cs body) : Inks (dedentToRoot body) cs :=
  yields_bind yields_freshMark fun _ _ => yields_pure (inked_around inked rfl rfl rfl)

theorem inks_markAsRoot {body : Doc} (inked : Inked cs body) : Inks (markAsRoot body) cs :=
  yields_bind yields_freshMark fun _ _ => yields_pure (inked_around inked rfl rfl rfl)

theorem inks_groupWith {body : Doc} (inked : Inked cs body) (id : Option GroupId) (mustBreak : Bool) :
    Inks (groupWith body id mustBreak) cs :=
  yields_bind yields_freshMark fun _ _ => yields_pure (inked_around inked rfl rfl rfl)

theorem inks_group {body : Doc} (inked : Inked cs body) : Inks (group body) cs :=
  inks_groupWith inked none false

theorem inks_indentIfBreak {body : Doc} (inked : Inked cs body) (id : GroupId) (negate : Bool) :
    Inks (indentIfBreak body id negate) cs :=
  yields_bind yields_freshMark fun _ _ => yields_pure (inked_around inked rfl rfl rfl)

theorem inks_fill {parts : List Doc} (all : InkedAll cs parts) : Inks (fill parts) cs := by
  unfold fill
  split
  · exact yields_throw
  · refine yields_bind yields_freshMark fun mark _ => yields_pure ?_
    exact Doc.inked_of_children rfl all.steady all.ink

theorem inks_ifBreakFor {broken flat : Doc} (inkedBroken : Inked cs broken) (inkedFlat : Inked cs flat)
    (id : Option GroupId) : Inks (ifBreakFor broken flat id) cs := by
  refine yields_bind yields_freshMark fun mark _ => yields_pure ?_
  refine Doc.inked_of_children ?_ (fun child member => ?_) inkedFlat.ink
  · show (broken.ink == flat.ink) = true
    rw [inkedBroken.ink, inkedFlat.ink, beq_self_eq_true]
  · rcases List.mem_cons.mp member with rfl | member
    · exact inkedBroken.steady
    · rw [List.mem_singleton.mp member]
      exact inkedFlat.steady

theorem inks_bareLine (kind : LineKind) : Inks (bareLine kind) [] := by
  refine yields_bind yields_freshMark fun mark _ => yields_pure ?_
  exact Doc.inked_of_children rfl (fun _ member => absurd member List.not_mem_nil) rfl

theorem inks_line : Inks line [] :=
  inks_bareLine .plain

theorem inks_softline : Inks softline [] :=
  inks_bareLine .soft

theorem inks_breakParent : Inks breakParent [] := by
  refine yields_bind yields_freshMark fun mark _ => yields_pure ?_
  exact Doc.inked_of_children rfl (fun _ member => absurd member List.not_mem_nil) rfl

theorem inks_forcedLine {kind : LineKind} :
    Inks (do let line ← bareLine kind; concat [line, ← breakParent]) [] := by
  refine yields_bind (inks_bareLine kind) fun line blank => yields_bind inks_breakParent fun break_ none => ?_
  exact inks_concat (Doc.inkedAll_cons blank (Doc.inkedAll_singleton none))

theorem inks_hardline : Inks hardline [] :=
  inks_forcedLine

theorem inks_literalline : Inks literalline [] :=
  inks_forcedLine

/-! ### Lines of a text -/

/-- Line feeds are no ink, so the lines of a text have the ink of the text. -/
theorem visible_splitOnChars (cs : List Char) :
    ((Text.splitOnChars (· = '\n') cs).map visible).flatten = visible cs := by
  induction cs with
  | nil => rfl
  | cons c cs ih =>
    rw [Text.splitOnChars]
    split
    · next feed =>
      have feed : c = '\n' := by simpa using feed
      rw [List.map_cons, List.flatten_cons, ih, feed]
      rfl
    · split
      · next none =>
        rw [none] at ih
        show visible [c] ++ [] = visible ([c] ++ cs)
        rw [visible_append, ← ih]
        rfl
      · next piece pieces same =>
        rw [same] at ih
        show visible ([c] ++ piece) ++ (pieces.map visible).flatten = visible ([c] ++ cs)
        rw [visible_append, visible_append, ← ih, List.append_assoc]
        rfl

theorem inksAll_splitLines (content : String) {separator : Doc} (blank : Inked [] separator) :
    InksAll (splitLines content separator) (visible content.toList) := by
  have texts : Yields ((Text.splitOn (· = '\n') content).mapM text)
      (List.Forall₂ (fun line => Inked (visible line.toList)) (Text.splitOn (· = '\n') content)) :=
    yields_mapM fun line _ => inks_text line
  refine yields_bind texts fun docs each => yields_pure ?_
  have all : InkedAll (((Text.splitOn (· = '\n') content).map fun line => visible line.toList).flatten) docs :=
    Doc.inkedAll_of_forall₂ (List.forall₂_map_left_iff.mpr each)
  rw [← visible_splitOnChars]
  have same : (Text.splitOn (· = '\n') content).map (fun line => visible line.toList) =
      (Text.splitOnChars (· = '\n') content.toList).map visible := by
    unfold Text.splitOn
    rw [List.map_map]
    exact List.map_congr_left fun line _ => congrArg visible String.toList_ofList
  rw [← same]
  exact Doc.inkedAll_intersperse all blank

theorem transform_text (rule : Doc → Build Doc) (mark : Mark) (content : String) :
    (Doc.text mark content).transform rule = rule (.text mark content) >>= fun result =>
      pure (result, ⟨Std.HashMap.insert ∅ mark result, [.text mark content]⟩) := by
  unfold Doc.transform
  rw [Doc.runRule, Doc.rebuild]
  simp [Transforming.apply, Doc.mark]

theorem yields_transform_text {rule : Doc → Build Doc} {holds : Doc → Prop} {mark : Mark} {content : String}
    (applied : Yields (rule (.text mark content)) holds) :
    Yields ((Doc.text mark content).transform rule) fun result => holds result.1 := by
  rw [transform_text]
  exact yields_bind applied fun result here => yields_pure here

theorem inks_replaceLineEndings {mark : Mark} {content : String} {replacement : Doc}
    (blank : Inked [] replacement) :
    Inks ((Doc.text mark content).replaceLineEndings replacement) (visible content.toList) := by
  unfold Doc.replaceLineEndings
  refine yields_bind (yields_transform_text ?_) fun result here => yields_pure here
  dsimp only
  split
  · exact yields_bind (inksAll_splitLines content blank) fun parts all => inks_concat all
  · exact yields_pure
      (Doc.inked_of_children rfl (fun _ member => absurd member List.not_mem_nil) rfl)

end Build

end MarkupFormat.Layout
