import MarkupFormat.Proofs.Layout.Inked
import MarkupFormat.Proofs.Layout.Paths
import MarkupFormat.Proofs.Text.LineEndings

/-!
# Properties of a node from those below it

What a document is built from often decides what it has: a property that one of its parts has, or a list that its parts
have the pieces of.

Some properties a node has as soon as something in it has them: that it forces a break is one. What builders make of a
document that has such a property has it as well, whatever else they put around it.

What a document has may be a list: the texts that it shows, or the requests that it answers. If a node has the items of
the nodes below it, one list after the other, then so has whatever builders put around them (`Doc.Gathers`). A property
that passes upwards is the case of at most one item (`Doc.Upward.gathers`).
-/

namespace MarkupFormat.Layout

/-- One of some documents has a property. -/
def AnyHolds (holds : Doc → Prop) (docs : List Doc) : Prop :=
  ∃ doc ∈ docs, holds doc

/-- A property that a node has if a node right below it does. Alternatives do not count. -/
structure Doc.Upward (holds : Doc → Prop) : Prop where
  concat : ∀ mark parts, AnyHolds holds parts → holds (.concat mark parts)
  fill : ∀ mark parts, AnyHolds holds parts → holds (.fill mark parts)
  group : ∀ mark info body, holds body → holds (.group mark info body)
  indent : ∀ mark body, holds body → holds (.indent mark body)
  indentIfBreak : ∀ mark body id negate, holds body → holds (.indentIfBreak mark body id negate)

theorem Doc.upward_forces : Doc.Upward Doc.Forces where
  concat _ _ any := (Doc.forces_iff rfl).mpr (.inr any)
  fill _ _ any := (Doc.forces_iff rfl).mpr (.inr any)
  group _ _ _ forces := Doc.forces_group.mpr (.inr forces)
  indent _ _ forces := (Doc.forces_iff rfl).mpr (.inr ⟨_, List.mem_singleton_self _, forces⟩)
  indentIfBreak _ _ _ _ forces := (Doc.forces_iff rfl).mpr (.inr ⟨_, List.mem_singleton_self _, forces⟩)

section Upward

variable {holds : Doc → Prop} {doc : Doc} {docs more : List Doc}

theorem anyHolds_singleton (here : holds doc) : AnyHolds holds [doc] :=
  ⟨doc, List.mem_singleton_self doc, here⟩

theorem anyHolds_append_left (any : AnyHolds holds docs) (more : List Doc) : AnyHolds holds (docs ++ more) := by
  obtain ⟨doc, member, here⟩ := any
  exact ⟨doc, List.mem_append_left _ member, here⟩

theorem anyHolds_append_right (docs : List Doc) (any : AnyHolds holds more) : AnyHolds holds (docs ++ more) := by
  obtain ⟨doc, member, here⟩ := any
  exact ⟨doc, List.mem_append_right _ member, here⟩

namespace Build

variable (upward : Doc.Upward holds)

include upward

theorem upward_concat (any : AnyHolds holds docs) : Yields (concat docs) holds :=
  yields_bind yields_freshMark fun mark _ => yields_pure (upward.concat mark docs any)

theorem upward_fill (any : AnyHolds holds docs) : Yields (fill docs) holds := by
  unfold fill
  split
  · exact yields_throw
  · exact yields_bind yields_freshMark fun mark _ => yields_pure (upward.fill mark docs any)

/-! ### Lines that break the groups around them -/

omit upward in
theorem forces_literalline : Yields literalline Doc.Forces := by
  refine yields_bind yields_true fun line _ => yields_bind ?_ fun _ forces =>
    upward_concat Doc.upward_forces (anyHolds_append_right [line] (anyHolds_singleton forces))
  exact yields_bind yields_freshMark fun _ _ => yields_pure ⟨_, .here _, rfl⟩

omit upward in
theorem forces_splitLines {content : String} {separator : Doc} (feeds : '\n' ∈ content.toList)
    (forces : separator.Forces) : Yields (splitLines content separator) (AnyHolds Doc.Forces) := by
  have two : 2 ≤ (Text.splitOn (· = '\n') content).length := by
    obtain ⟨before, after, split⟩ := List.append_of_mem feeds
    have first := List.length_pos_iff.mpr (Text.splitOnChars_ne_nil (· = '\n') before)
    have second := List.length_pos_iff.mpr (Text.splitOnChars_ne_nil (· = '\n') after)
    unfold Text.splitOn
    rw [List.length_map, split, Text.splitOnChars_append (by decide), List.length_append]
    exact Nat.add_le_add first second
  refine yields_bind (yields_mapM fun _ _ => yields_true) fun docs same => yields_pure ?_
  rw [same.length_eq] at two
  match docs, two with
  | first :: next :: docs, _ =>
    rw [List.intersperse_cons_cons]
    exact ⟨separator, List.mem_cons_of_mem _ List.mem_cons_self, forces⟩

end Build

end Upward

/-! ### Properties that add up -/

section Gathering

variable {α : Type} {holds : List α → Doc → Prop} {items more : List α} {doc : Doc} {docs others : List Doc}

/-- Each of the documents has a part of the items, and the parts follow each other. -/
inductive InTurn (holds : List α → Doc → Prop) : List α → List Doc → Prop where
  | nil : InTurn holds [] []
  | cons {items more : List α} {doc : Doc} {docs : List Doc} : holds items doc → InTurn holds more docs →
    InTurn holds (items ++ more) (doc :: docs)

theorem InTurn.append (first : InTurn holds items docs) (second : InTurn holds more others) :
    InTurn holds (items ++ more) (docs ++ others) := by
  induction first with
  | nil => exact second
  | cons here _ ih =>
    rw [List.append_assoc]
    exact .cons here ih

theorem inTurn_singleton (here : holds items doc) : InTurn holds items [doc] := by
  have alone := InTurn.cons here .nil
  rwa [List.append_nil] at alone

theorem inTurn_of_forall₂ {parts : List (List α)} (each : List.Forall₂ holds parts docs) :
    InTurn holds parts.flatten docs := by
  induction each with
  | nil => exact .nil
  | cons here _ ih => exact .cons here ih

/-- A property of lists that a node has of the items of the nodes right below it. Alternatives do not count. -/
structure Doc.Gathers (holds : List α → Doc → Prop) : Prop where
  nothing : ∀ doc, holds [] doc
  concat : ∀ mark items parts, InTurn holds items parts → holds items (.concat mark parts)
  group : ∀ mark info items body, holds items body → holds items (.group mark info body)
  indent : ∀ mark items body, holds items body → holds items (.indent mark body)
  indentIfBreak : ∀ mark items body id negate, holds items body → holds items (.indentIfBreak mark body id negate)

theorem anyHolds_of_inTurn {single : Doc → Prop} {items : List Unit}
    (inTurn : InTurn (fun items doc => items ≠ [] → single doc) items docs) (some : items ≠ []) :
    AnyHolds single docs := by
  induction inTurn with
  | nil => exact absurd rfl some
  | @cons items _ doc docs here _ ih =>
    cases items with
    | nil => exact anyHolds_append_right [doc] (ih some)
    | cons => exact anyHolds_append_left (anyHolds_singleton (here (List.cons_ne_nil _ _))) docs

theorem Doc.Upward.gathers {single : Doc → Prop} (upward : Doc.Upward single) :
    Doc.Gathers fun (items : List Unit) doc => items ≠ [] → single doc where
  nothing _ some := absurd rfl some
  concat mark _ parts inTurn some := upward.concat mark parts (anyHolds_of_inTurn inTurn some)
  group mark info _ body here some := upward.group mark info body (here some)
  indent mark _ body here some := upward.indent mark body (here some)
  indentIfBreak mark _ body id negate here some := upward.indentIfBreak mark body id negate (here some)

variable (gathers : Doc.Gathers holds)

include gathers

theorem Doc.Gathers.inTurn_nothing (docs : List Doc) : InTurn holds [] docs := by
  induction docs with
  | nil => exact .nil
  | cons doc docs ih => exact .cons (gathers.nothing doc) ih

theorem Doc.Gathers.around (inTurn : InTurn holds items docs) (front back : List Doc) :
    InTurn holds items (front ++ docs ++ back) := by
  have all := ((gathers.inTurn_nothing front).append inTurn).append (gathers.inTurn_nothing back)
  rwa [List.append_nil] at all

namespace Build

theorem gathers_concat (inTurn : InTurn holds items docs) : Yields (concat docs) (holds items) :=
  yields_bind yields_freshMark fun mark _ => yields_pure (gathers.concat mark items docs inTurn)

theorem gathers_groupWith (here : holds items doc) (id : Option GroupId) (mustBreak : Bool) :
    Yields (groupWith doc id mustBreak) (holds items) :=
  yields_bind yields_freshMark fun mark _ => yields_pure (gathers.group mark _ items doc here)

theorem gathers_indent (here : holds items doc) : Yields (indent doc) (holds items) :=
  yields_bind yields_freshMark fun mark _ => yields_pure (gathers.indent mark items doc here)

theorem gathers_indentIfBreak (here : holds items doc) (id : GroupId) (negate : Bool) :
    Yields (indentIfBreak doc id negate) (holds items) :=
  yields_bind yields_freshMark fun mark _ => yields_pure (gathers.indentIfBreak mark items doc id negate here)

theorem gathers_between (before : Build Doc) {build : Build Doc} (here : Yields build (holds items))
    (after : Build Doc) : Yields (seq [before, build, after]) (holds items) := by
  have inside : Yields ([build, after].mapM id) (InTurn holds items) := by
    rw [List.mapM_cons]
    refine yields_bind here fun doc here => yields_bind yields_true fun others _ => yields_pure ?_
    exact gathers.around (inTurn_singleton here) [] others
  have parts : Yields ([before, build, after].mapM id) (InTurn holds items) := by
    rw [List.mapM_cons]
    refine yields_bind yields_true fun first _ => yields_bind inside fun rest inTurn => ?_
    exact yields_pure (.cons (gathers.nothing first) inTurn)
  exact yields_bind parts fun _ => gathers_concat gathers

end Build

end Gathering

end MarkupFormat.Layout
