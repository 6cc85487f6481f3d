import MarkupFormat.Layout.Render
import MarkupFormat.Layout.Strip

/-!
# Documents without their final line

`Doc.stripFinalLine` goes down to what ends a document and makes the nodes on its way anew. `Strips` says what comes
out, whatever marks are free. `wellFormed_stripFinalLine_iff` tells which documents stay well formed by this: a fill
that ends with a forced line is left without a line there, and a group with alternatives gets a body that is none of
them.
-/

namespace MarkupFormat.Layout

namespace Doc

/-! ### Nodes on the way down -/

/-- Steps downwards lead from one node to another. -/
inductive Descends (next : Doc → List Doc) : Doc → Doc → Prop where
  | here (doc : Doc) : Descends next doc doc
  | down {doc child last : Doc} : child ∈ next doc → Descends next child last → Descends next doc last

/-- The nodes right below a node: the body and the alternatives of a group that has both. -/
def allChildren : Doc → List Doc
  | choice _ _ body first others => body :: first :: others
  | doc => doc.children true

/-- The nodes right below a node at which it ends, a line before a break of its groups not counted. -/
def finals : Doc → List Doc
  | concat _ parts | fill _ parts => (parts.take (keptParts parts)).getLast?.toList
  | indent _ body | align _ _ body | group _ _ body | choice _ _ body _ _ | indentIfBreak _ body _ _
  | label _ _ body => [body]
  | ifBreak _ broken flat _ => [broken, flat]
  | text .. | line .. | breakParent _ | trim _ => []

/-- All nodes to which steps downwards lead have a property. -/
def Throughout (next : Doc → List Doc) (p : Doc → Prop) (doc : Doc) : Prop :=
  ∀ node, doc.Descends next node → p node

/-- One node is the other or somewhere in it, be it among the alternatives or in the body of a group. -/
abbrev Has (doc node : Doc) : Prop :=
  doc.Descends allChildren node

/-- A node ends with another one, which may be itself. -/
abbrev EndsWith (doc node : Doc) : Prop :=
  doc.Descends finals node

variable {next : Doc → List Doc} {p q : Doc → Prop} {doc node child last made inner : Doc} {fresh : Mark → Prop}
  {parts : List Doc}

theorem Descends.trans (first : doc.Descends next node) (second : node.Descends next last) :
    doc.Descends next last := by
  induction first with
  | here => exact second
  | down member _ ih => exact .down member (ih second)

theorem throughout_iff : doc.Throughout next p ↔ p doc ∧ ∀ child ∈ next doc, child.Throughout next p := by
  constructor
  · intro all
    exact ⟨all doc (.here doc), fun child member node descends => all node (.down member descends)⟩
  · rintro ⟨here, further⟩ node descends
    cases descends with
    | here => exact here
    | down member descends => exact further _ member node descends

theorem throughout_of_closed {nodes : List Doc} (member : doc ∈ nodes)
    (closed : ∀ node ∈ nodes, ∀ child ∈ next node, child ∈ nodes) (holds : ∀ node ∈ nodes, p node) :
    doc.Throughout next p := by
  intro node descends
  induction descends with
  | here doc => exact holds doc member
  | down below _ ih => exact ih (closed _ member _ below)

/-! ### What is made -/

theorem length_dropForcedLines_le (parts : List Doc) : (dropForcedLines parts).length ≤ parts.length := by
  fun_induction dropForcedLines parts with
  | case1 mark before parts line ih =>
    simp only [List.length_cons]
    omega
  | case2 => exact Nat.le_refl _
  | case3 => exact Nat.le_refl _

theorem keptParts_le (parts : List Doc) : keptParts parts ≤ parts.length := by
  have le := length_dropForcedLines_le parts.reverse
  rwa [List.length_reverse] at le

/-- The second node is the first one without its final line. The nodes that are made bear marks of a kind. -/
inductive Strips (fresh : Mark → Prop) : Doc → Doc → Prop where
  | text {mark anew : Mark} {content : String} : fresh anew →
      Strips fresh (.text mark content) (.text anew (Text.trimEnd (fun c => c = '\n' || c = '\r') content))
  | line (mark : Mark) (kind : LineKind) : Strips fresh (.line mark kind) (.line mark kind)
  | breakParent (mark : Mark) : Strips fresh (.breakParent mark) (.breakParent mark)
  | trim (mark : Mark) : Strips fresh (.trim mark) (.trim mark)
  | concatEmpty {mark anew : Mark} {parts : List Doc} : fresh anew → parts.take (keptParts parts) = [] →
      Strips fresh (.concat mark parts) (.concat anew [])
  | concat {mark anew : Mark} {parts before : List Doc} {last inner : Doc} : fresh anew →
      parts.take (keptParts parts) = before ++ [last] → Strips fresh last inner →
      Strips fresh (.concat mark parts) (.concat anew (before ++ [inner]))
  | fillEmpty {mark anew : Mark} {parts : List Doc} : fresh anew → parts.take (keptParts parts) = [] →
      Strips fresh (.fill mark parts) (.fill anew [])
  | fill {mark anew : Mark} {parts before : List Doc} {last inner : Doc} : fresh anew →
      parts.take (keptParts parts) = before ++ [last] → Strips fresh last inner →
      Strips fresh (.fill mark parts) (.fill anew (before ++ [inner]))
  | indent {mark anew : Mark} {body inner : Doc} : fresh anew → Strips fresh body inner →
      Strips fresh (.indent mark body) (.indent anew inner)
  | align {mark anew : Mark} {kind : AlignKind} {body inner : Doc} : fresh anew → Strips fresh body inner →
      Strips fresh (.align mark kind body) (.align anew kind inner)
  | group {mark anew : Mark} {info : GroupInfo} {body inner : Doc} : fresh anew → Strips fresh body inner →
      Strips fresh (.group mark info body) (.group anew info inner)
  | choice {mark anew : Mark} {info : GroupInfo} {body inner first : Doc} {others : List Doc} : fresh anew →
      Strips fresh body inner →
      Strips fresh (.choice mark info body first others) (.choice anew info inner first others)
  | ifBreak {mark anew : Mark} {broken innerBroken flat innerFlat : Doc} {id : Option GroupId} : fresh anew →
      Strips fresh broken innerBroken → Strips fresh flat innerFlat →
      Strips fresh (.ifBreak mark broken flat id) (.ifBreak anew innerBroken innerFlat id)
  | indentIfBreak {mark anew : Mark} {body inner : Doc} {id : GroupId} {negate : Bool} : fresh anew →
      Strips fresh body inner → Strips fresh (.indentIfBreak mark body id negate) (.indentIfBreak anew inner id negate)
  | label {mark anew : Mark} {name : String} {body inner : Doc} : fresh anew → Strips fresh body inner →
      Strips fresh (.label mark name body) (.label anew name inner)

/-- The second list is the first one with its last node stripped. -/
def StripsLast (fresh : Mark → Prop) (docs made : List Doc) : Prop :=
  docs = [] ∧ made = [] ∨
    ∃ before last inner, docs = before ++ [last] ∧ Strips fresh last inner ∧ made = before ++ [inner]

end Doc

namespace Build

variable {α β : Type} {base : Mark} {build : Build α} {holds : α → Prop}

/-- A computation succeeds when all marks from `base` on are free, its result has a property, and it uses no others. -/
def MakesFrom (base : Mark) (build : Build α) (holds : α → Prop) : Prop :=
  ∀ supply : Supply, base ≤ supply.mark →
    ∃ value after, build.run supply = .ok (value, after) ∧ base ≤ after.mark ∧ holds value

theorem makesFrom_pure {value : α} (here : holds value) : MakesFrom base (pure value) holds :=
  fun supply free => ⟨value, supply, rfl, free, here⟩

theorem makesFrom_bind {next : α → Build β} {after : β → Prop} (first : MakesFrom base build holds)
    (then_ : ∀ value, holds value → MakesFrom base (next value) after) : MakesFrom base (build >>= next) after := by
  intro supply free
  obtain ⟨value, middle, ran, freeMiddle, here⟩ := first supply free
  obtain ⟨result, last, ranNext, freeLast, there⟩ := then_ value here middle freeMiddle
  refine ⟨result, last, ?_, freeLast, there⟩
  rw [StateT.run_bind, ran]
  exact ranNext

theorem makesFrom_freshMark : MakesFrom base freshMark (base ≤ ·) :=
  fun supply free => ⟨supply.mark, _, rfl, Nat.le_succ_of_le free, free⟩

theorem makesFrom_around {body : Build Doc} {make : Mark → Doc → Doc} {holds after : Doc → Prop}
    (inside : MakesFrom base body holds) (around : ∀ inner anew, holds inner → base ≤ anew → after (make anew inner)) :
    MakesFrom base (do let inner ← body; return make (← freshMark) inner) after :=
  makesFrom_bind inside fun inner here => makesFrom_bind makesFrom_freshMark fun anew free =>
    makesFrom_pure (around inner anew here free)

end Build

namespace Doc

open Build (MakesFrom makesFrom_pure makesFrom_bind makesFrom_freshMark makesFrom_around)

variable {base : Mark}

mutual

theorem strips_stripFinalLine : ∀ doc : Doc, MakesFrom base doc.stripFinalLine (doc.Strips (base ≤ ·))
  | .concat mark parts => by
    rw [stripFinalLine]
    refine makesFrom_bind (stripsLast_stripLast parts (keptParts_le parts)) fun made strips =>
      makesFrom_bind makesFrom_freshMark fun anew free => makesFrom_pure ?_
    rcases strips with ⟨nothing, rfl⟩ | ⟨before, last, inner, kept, strips, rfl⟩
    · exact .concatEmpty free nothing
    · exact .concat free kept strips
  | .fill mark parts => by
    rw [stripFinalLine]
    refine makesFrom_bind makesFrom_freshMark fun anew free =>
      makesFrom_bind (stripsLast_stripLast parts (keptParts_le parts)) fun made strips => makesFrom_pure ?_
    rcases strips with ⟨nothing, rfl⟩ | ⟨before, last, inner, kept, strips, rfl⟩
    · exact .fillEmpty free nothing
    · exact .fill free kept strips
  | .indent _ body => by
    rw [stripFinalLine]
    exact makesFrom_around (strips_stripFinalLine body) fun _ _ strips free => .indent free strips
  | .align _ _ body => by
    rw [stripFinalLine]
    exact makesFrom_around (strips_stripFinalLine body) fun _ _ strips free => .align free strips
  | .indentIfBreak _ body _ _ => by
    rw [stripFinalLine]
    exact makesFrom_around (strips_stripFinalLine body) fun _ _ strips free => .indentIfBreak free strips
  | .label _ _ body => by
    rw [stripFinalLine]
    exact makesFrom_around (strips_stripFinalLine body) fun _ _ strips free => .label free strips
  | .group _ _ body => by
    rw [stripFinalLine]
    exact makesFrom_around (strips_stripFinalLine body) fun _ _ strips free => .group free strips
  | .choice _ _ body _ _ => by
    rw [stripFinalLine]
    exact makesFrom_bind makesFrom_freshMark fun _ free =>
      makesFrom_bind (strips_stripFinalLine body) fun _ strips => makesFrom_pure (.choice free strips)
  | .ifBreak _ broken flat _ => by
    rw [stripFinalLine]
    exact makesFrom_bind (strips_stripFinalLine broken) fun _ stripsBroken =>
      makesFrom_around (strips_stripFinalLine flat) fun _ _ stripsFlat free => .ifBreak free stripsBroken stripsFlat
  | .text _ content => by
    rw [stripFinalLine]
    exact makesFrom_bind makesFrom_freshMark fun _ free => makesFrom_pure (.text free)
  | .line mark kind => by
    rw [stripFinalLine]
    exact makesFrom_pure (.line mark kind)
  | .breakParent mark => by
    rw [stripFinalLine]
    exact makesFrom_pure (.breakParent mark)
  | .trim mark => by
    rw [stripFinalLine]
    exact makesFrom_pure (.trim mark)

theorem stripsLast_stripLast : ∀ (parts : List Doc) {count : Nat}, count ≤ parts.length →
    MakesFrom base (stripLast count parts) (StripsLast (base ≤ ·) (parts.take count))
  | [], 0, _ => by
    rw [stripLast]
    exact makesFrom_pure (Or.inl ⟨rfl, rfl⟩)
  | _ :: _, 0, _ => by
    rw [stripLast]
    exact makesFrom_pure (Or.inl ⟨rfl, rfl⟩)
  | part :: _, 1, _ => by
    rw [stripLast]
    exact makesFrom_bind (strips_stripFinalLine part) fun inner strips =>
      makesFrom_pure (Or.inr ⟨[], part, inner, rfl, strips, rfl⟩)
  | part :: parts, count + 2, le => by
    rw [stripLast]
    have more : count + 1 ≤ parts.length := Nat.le_of_succ_le_succ le
    refine makesFrom_bind (stripsLast_stripLast parts more) fun made strips => makesFrom_pure ?_
    rcases strips with ⟨nothing, _⟩ | ⟨before, last, inner, kept, strips, rfl⟩
    · have length := congrArg List.length nothing
      rw [List.length_take, List.length_nil] at length
      omega
    · exact Or.inr ⟨part :: before, last, inner, congrArg (part :: ·) kept, strips, rfl⟩

end

/-! ### What stays well formed -/

section Spreading

variable {p q : Doc → Prop} {root doc made inner last : Doc} {fresh : Mark → Prop} {parts before : List Doc}

theorem forall_stripped_iff (kept : parts.take (keptParts parts) = before ++ [last])
    (every : ∀ part ∈ parts, part.Throughout allChildren p)
    (same : inner.Throughout allChildren p ↔ last.Throughout finals q) :
    (∀ part ∈ before ++ [inner], part.Throughout allChildren p) ↔
      ∀ part ∈ (parts.take (keptParts parts)).getLast?.toList, part.Throughout finals q := by
  -- The parts before the last one are the nodes that they were.
  have spared : ∀ part ∈ before, part.Throughout allChildren p := by
    intro part member
    refine every part (List.take_subset (keptParts parts) parts ?_)
    rw [kept]
    exact List.mem_append_left _ member
  rw [kept, List.getLast?_concat, Option.toList_some, List.forall_mem_append, List.forall_mem_singleton,
    List.forall_mem_singleton, same]
  exact and_iff_right spared

/-- A property of all nodes is lost only at the nodes at which a document ends, so these decide about it. -/
theorem throughout_stripped_iff (every : root.Throughout allChildren p)
    (locally : ∀ node made, root.Has node → node.Strips fresh made → (p made ↔ q node))
    (strips : doc.Strips fresh made) (inside : root.Has doc) :
    made.Throughout allChildren p ↔ doc.Throughout finals q := by
  have further {doc child : Doc} (inside : root.Has doc) (member : child ∈ doc.allChildren) : root.Has child :=
    inside.trans (.down member (.here child))
  -- Children that are not stripped have nothing to lose.
  have spared {doc : Doc} (inside : root.Has doc) : ∀ child ∈ doc.allChildren, child.Throughout allChildren p :=
    fun child member node has => every node ((further inside member).trans has)
  have step {doc made : Doc} (strips : doc.Strips fresh made) (inside : root.Has doc)
      (children : (∀ child ∈ made.allChildren, child.Throughout allChildren p) ↔
        ∀ child ∈ doc.finals, child.Throughout finals q) :
      made.Throughout allChildren p ↔ doc.Throughout finals q := by
    rw [throughout_iff, throughout_iff, locally doc made inside strips]
    exact and_congr_right fun _ => children
  have around {doc made body inner : Doc} (strips : doc.Strips fresh made) (inside : root.Has doc)
      (children : made.allChildren = [inner]) (ends : doc.finals = [body])
      (same : inner.Throughout allChildren p ↔ body.Throughout finals q) :
      made.Throughout allChildren p ↔ doc.Throughout finals q := by
    refine step strips inside ?_
    rw [children, ends, List.forall_mem_singleton, List.forall_mem_singleton, same]
  induction strips with
  | text free => exact step (.text free) inside (iff_of_true nofun nofun)
  | line mark kind => exact step (.line mark kind) inside (iff_of_true nofun nofun)
  | breakParent mark => exact step (.breakParent mark) inside (iff_of_true nofun nofun)
  | trim mark => exact step (.trim mark) inside (iff_of_true nofun nofun)
  | concatEmpty free kept =>
    refine step (.concatEmpty free kept) inside (iff_of_true nofun ?_)
    rw [finals, kept]
    nofun
  | fillEmpty free kept =>
    refine step (.fillEmpty free kept) inside (iff_of_true nofun ?_)
    rw [finals, kept]
    nofun
  | concat free kept strips ih =>
    have member := List.take_subset _ _ (List.mem_of_getLast? (kept ▸ List.getLast?_concat))
    exact step (.concat free kept strips) inside (forall_stripped_iff kept (spared inside) (ih (further inside member)))
  | fill free kept strips ih =>
    have member := List.take_subset _ _ (List.mem_of_getLast? (kept ▸ List.getLast?_concat))
    exact step (.fill free kept strips) inside (forall_stripped_iff kept (spared inside) (ih (further inside member)))
  | indent free strips ih => exact around (.indent free strips) inside rfl rfl (ih (further inside List.mem_cons_self))
  | align free strips ih => exact around (.align free strips) inside rfl rfl (ih (further inside List.mem_cons_self))
  | group free strips ih => exact around (.group free strips) inside rfl rfl (ih (further inside List.mem_cons_self))
  | indentIfBreak free strips ih =>
    exact around (.indentIfBreak free strips) inside rfl rfl (ih (further inside List.mem_cons_self))
  | label free strips ih => exact around (.label free strips) inside rfl rfl (ih (further inside List.mem_cons_self))
  | choice free strips ih =>
    have same := ih (further inside List.mem_cons_self)
    refine step (.choice free strips) inside ?_
    refine (List.forall_mem_cons.trans (and_congr same Iff.rfl)).trans ?_
    exact (and_iff_left (List.forall_mem_cons.mp (spared inside)).2).trans List.forall_mem_singleton.symm
  | ifBreak free stripsBroken stripsFlat ihBroken ihFlat =>
    have broken := ihBroken (further inside List.mem_cons_self)
    have flat := ihFlat (further inside (List.mem_cons_of_mem _ List.mem_cons_self))
    refine step (.ifBreak free stripsBroken stripsFlat) inside ?_
    refine List.forall_mem_cons.trans ((and_congr broken ?_).trans List.forall_mem_cons.symm)
    exact List.forall_mem_singleton.trans (flat.trans List.forall_mem_singleton.symm)

end Spreading

/-- There is a line at each odd place. -/
def Separated (parts : List Doc) : Prop :=
  ∀ index part, parts[2 * index + 1]? = some part → part.isLineSeparator = true

/-- If the node is a fill, its contents are apart. -/
def IsApart : Doc → Prop
  | fill _ parts => Separated parts
  | _ => True

/-- If the node has alternatives, the body is the first of them. -/
def HasFirst : Doc → Prop
  | choice _ _ body first _ => body = first
  | _ => True

/-- The fills of a document have lines between their contents, and its groups with alternatives have the first of these
as bodies. -/
structure WellFormed (doc : Doc) : Prop where
  fills : doc.Throughout allChildren IsApart
  bodies : doc.Throughout allChildren HasFirst

/-- If the node is a fill, no forced line between contents ends it. -/
def EndsApart : Doc → Prop
  | fill _ parts =>
    ∀ mark line, (parts.take (keptParts parts)).getLast? = some (concat mark line) → keptParts parts % 2 = 1
  | _ => True

/-- Whether the node stays as it is: it is not made anew. -/
def stays : Doc → Bool
  | line .. | breakParent _ | trim _ => true
  | _ => false

/-- If the node has alternatives, its body is not made anew. -/
def EndsAsFirst : Doc → Prop
  | choice _ _ body _ _ => body.stays = true
  | _ => True

section Locally

variable {doc made node last inner body : Doc} {fresh : Mark → Prop} {parts before : List Doc}

theorem keptParts_of_isForcedLine (forced : isForcedLine parts = true) : keptParts parts = 0 := by
  obtain ⟨mark, kind, breakMark, rfl, _⟩ := exists_of_isForcedLine forced
  rfl

theorem isLineSeparator_stripped (strips : last.Strips fresh inner) (separates : last.isLineSeparator = true) :
    inner.isLineSeparator = true ↔ last.line?.isSome = true := by
  cases strips with
  | line => exact Iff.rfl
  | concatEmpty => exact iff_of_false nofun nofun
  | concat _ kept =>
    rw [keptParts_of_isForcedLine separates, List.take_zero] at kept
    exact absurd kept.symm (List.append_ne_nil_of_right_ne_nil _ (List.cons_ne_nil _ _))
  | _ => cases separates

theorem separated_stripped_iff (separated : Separated parts) (kept : parts.take (keptParts parts) = before ++ [last])
    (strips : last.Strips fresh inner) :
    Separated (before ++ [inner]) ↔ ∀ mark line, last = concat mark line → keptParts parts % 2 = 1 := by
  have count : keptParts parts = before.length + 1 := by
    have length := congrArg List.length kept
    rwa [List.length_take_of_le (keptParts_le parts), List.length_append] at length
  have original {index : Nat} (le : index < keptParts parts) : (before ++ [last])[index]? = parts[index]? := by
    rw [← kept, List.getElem?_take_of_lt le]
  constructor
  · rintro apart mark line rfl
    refine (Nat.mod_two_eq_zero_or_one (keptParts parts)).resolve_left fun even => ?_
    obtain ⟨index, odd⟩ : ∃ index, before.length = 2 * index + 1 := ⟨before.length / 2, by omega⟩
    have here : (before ++ [concat mark line])[2 * index + 1]? = some (concat mark line) := by
      rw [← odd, List.getElem?_concat_length]
    have separates := separated index _ ((original (by omega)).symm.trans here)
    have there : (before ++ [inner])[2 * index + 1]? = some inner := by
      rw [← odd, List.getElem?_concat_length]
    cases (isLineSeparator_stripped strips separates).mp (apart index _ there)
  · intro bare index part found
    rcases Nat.lt_trichotomy (2 * index + 1) before.length with earlier | odd | beyond
    · rw [List.getElem?_append_left earlier] at found
      refine separated index part ?_
      rw [← original (by omega), List.getElem?_append_left earlier, found]
    · rw [odd, List.getElem?_concat_length] at found
      obtain rfl := Option.some.inj found
      have here : parts[2 * index + 1]? = some last := by
        rw [← original (by omega), odd, List.getElem?_concat_length]
      have separates := separated index last here
      refine (isLineSeparator_stripped strips separates).mpr ?_
      cases last with
      | line => rfl
      | concat mark line => exact absurd (bare mark line rfl) (by omega)
      | _ => cases separates
    · rw [List.getElem?_eq_none (by simp; omega)] at found
      cases found

theorem isApart_stripped_iff (apart : node.IsApart) (strips : node.Strips fresh made) :
    made.IsApart ↔ node.EndsApart := by
  cases strips with
  | fillEmpty _ kept =>
    refine iff_of_true nofun fun mark line last => ?_
    rw [kept] at last
    cases last
  | fill _ kept strips =>
    refine (separated_stripped_iff apart kept strips).trans ?_
    rw [EndsApart, kept, List.getLast?_concat]
    exact forall₂_congr fun mark line => ⟨fun odd same => odd (Option.some.inj same), fun odd same => odd (same ▸ rfl)⟩
  | _ => exact iff_of_true trivial trivial

theorem stripped_eq_iff (old : ¬fresh body.mark) (strips : body.Strips fresh inner) :
    inner = body ↔ body.stays = true := by
  cases strips with
  | line | breakParent | trim => exact iff_of_true rfl rfl
  | text anew | concatEmpty anew | concat anew | fillEmpty anew | fill anew | indent anew | align anew | group anew
  | choice anew | ifBreak anew | indentIfBreak anew | label anew =>
    refine iff_of_false (fun same => old ?_) nofun
    rw [← same]
    exact anew

theorem hasFirst_stripped_iff (first : node.HasFirst) (old : ∀ child ∈ node.allChildren, ¬fresh child.mark)
    (strips : node.Strips fresh made) : made.HasFirst ↔ node.EndsAsFirst := by
  cases strips with
  | choice _ strips =>
    rw [HasFirst] at first
    subst first
    exact stripped_eq_iff (old _ List.mem_cons_self) strips
  | _ => exact iff_of_true trivial trivial

theorem exists_stripped_child (strips : node.Strips fresh made) (ends : last ∈ node.finals) :
    ∃ inner ∈ made.allChildren, last.Strips fresh inner := by
  cases strips with
  | text | line | breakParent | trim => cases ends
  | concatEmpty _ kept | fillEmpty _ kept =>
    rw [finals, kept] at ends
    cases ends
  | concat _ kept strips | fill _ kept strips =>
    rw [finals, kept, List.getLast?_concat, Option.toList_some, List.mem_singleton] at ends
    exact ⟨_, List.mem_append_right _ List.mem_cons_self, ends ▸ strips⟩
  | indent _ strips | align _ strips | group _ strips | indentIfBreak _ strips | label _ strips =>
    exact ⟨_, List.mem_cons_self, List.mem_singleton.mp ends ▸ strips⟩
  | choice _ strips => exact ⟨_, List.mem_cons_self, List.mem_singleton.mp ends ▸ strips⟩
  | ifBreak _ stripsBroken stripsFlat =>
    rcases List.mem_cons.mp ends with rfl | ends
    · exact ⟨_, List.mem_cons_self, stripsBroken⟩
    · exact ⟨_, List.mem_cons_of_mem _ List.mem_cons_self, List.mem_singleton.mp ends ▸ stripsFlat⟩

theorem exists_stripped (strips : doc.Strips fresh made) (ends : doc.EndsWith node) :
    ∃ inner, made.Has inner ∧ node.Strips fresh inner := by
  induction ends generalizing made with
  | here => exact ⟨made, .here made, strips⟩
  | down member _ ih =>
    obtain ⟨inner, child, stripsChild⟩ := exists_stripped_child strips member
    obtain ⟨last, has, stripsLast⟩ := ih stripsChild
    exact ⟨last, .down child has, stripsLast⟩

end Locally

end Doc

namespace RenderContext

/-- Whether a group is laid out by its body: in a flat node it is not measured, elsewhere it has to fit. -/
def TakesBody (context : RenderContext) (state : RenderState) (rest : List Command) (command : Command) (mark : Mark)
    (info : GroupInfo) (body : Doc) : Prop :=
  command.mode = .flat ∧ state.remeasure = false ∨
    context.breaks.isBroken mark info = false ∧ context.fits state false (command.on .flat body :: rest) = true

variable (context : RenderContext) (state : RenderState) (rest : List Command) (command : Command) (mark : Mark)
  (info : GroupInfo) (body first : Doc) (others : List Doc)

theorem doc_chooseMeasured (broken : Bool) :
    let fitting := broken = false ∧ context.fits state false (command.on .flat body :: rest) = true
    let chosen := context.chooseMeasured state rest command broken body (first :: others)
    (fitting → chosen.doc = body) ∧ (¬fitting → chosen.doc ∈ first :: others) := by
  simp only [chooseMeasured, Bool.and_eq_true, Bool.not_eq_true']
  split
  · next fitting => exact ⟨fun _ => rfl, fun not => absurd fitting not⟩
  · next not =>
    refine ⟨fun fitting => absurd fitting not, fun _ => ?_⟩
    split
    · next nothing => exact absurd (List.getLast?_eq_none_iff.mp nothing) (List.cons_ne_nil _ _)
    · next expanded last =>
      split
      · next doc found =>
        split at found
        · cases found
        · exact List.mem_of_mem_tail (List.mem_of_find?_eq_some found)
      · exact List.mem_of_getLast? last

theorem doc_openGroup :
    let chosen := (context.openGroup state rest command mark info body (first :: others)).2
    (context.TakesBody state rest command mark info body → chosen.doc = body) ∧
      (¬context.TakesBody state rest command mark info body → chosen.doc ∈ first :: others) := by
  have chosen := context.doc_chooseMeasured state rest command body first others
    (context.breaks.isBroken mark info)
  by_cases unmeasured : command.mode = .flat ∧ state.remeasure = false
  · refine ⟨fun _ => ?_, fun not => absurd (.inl unmeasured) not⟩
    simp [openGroup, unmeasured, Command.on]
  · have measured : (decide (command.mode = .broken) || state.remeasure) = true := by
      cases mode : command.mode <;> simp_all
    unfold TakesBody openGroup
    rw [or_iff_right unmeasured]
    simp only [measured, if_true]
    exact chosen

end RenderContext

namespace Doc

/-- What becomes of a well-formed document. Its fills stay apart and the bodies of its groups stay first alternatives
exactly if what ends it allows this. A group with alternatives at the end lacks the final line where it is laid out by
its body; where it is laid out by one of the alternatives, this is as it was. -/
theorem wellFormed_stripFinalLine_iff {doc : Doc} (supply : Supply) (wellFormed : doc.WellFormed)
    (free : doc.Throughout allChildren (·.mark < supply.mark)) :
    ∃ stripped after, doc.stripFinalLine.run supply = .ok (stripped, after) ∧
      (stripped.Throughout allChildren IsApart ↔ doc.Throughout finals EndsApart) ∧
      (stripped.Throughout allChildren HasFirst ↔ doc.Throughout finals EndsAsFirst) ∧
      ∀ mark info body first others, doc.EndsWith (.choice mark info body first others) →
        ∃ anew inner, stripped.Has (.choice anew info inner first others) ∧ body.Strips (supply.mark ≤ ·) inner ∧
          ∀ (context : RenderContext) (state : RenderState) (rest : List Command) (command : Command),
            let chosen := (context.openGroup state rest command anew info inner (first :: others)).2
            (context.TakesBody state rest command anew info inner → chosen.doc = inner) ∧
              (¬context.TakesBody state rest command anew info inner → chosen.doc ∈ first :: others) := by
  obtain ⟨stripped, after, ran, -, strips⟩ := strips_stripFinalLine doc supply (Nat.le_refl supply.mark)
  refine ⟨stripped, after, ran, ?_, ?_, ?_⟩
  · exact throughout_stripped_iff wellFormed.fills
      (fun node made has => isApart_stripped_iff (wellFormed.fills node has)) strips (.here doc)
  · refine throughout_stripped_iff wellFormed.bodies (fun node made has => ?_) strips (.here doc)
    refine hasFirst_stripped_iff (wellFormed.bodies node has) fun child member => ?_
    exact Nat.not_le_of_lt (free child (has.trans (.down member (.here child))))
  · intro mark info body first others ends
    obtain ⟨made, has, strips⟩ := exists_stripped strips ends
    cases strips with
    | choice _ strips =>
      exact ⟨_, _, has, strips, fun context state rest command =>
        context.doc_openGroup state rest command _ info _ first others⟩

end Doc

/-- A forced line. -/
def forcedLine : Doc :=
  .concat 0 [.line 1 .hard, .breakParent 2]

/-- A word and a forced line as a fill. -/
def lineAtEnd : Doc :=
  .fill 3 [.text 4 "aaaa", forcedLine]

/-- A group with two alternatives that end with a forced line. -/
def linesAtEnd : Doc :=
  .choice 5 ⟨none, false⟩ lineAtEnd lineAtEnd [.concat 6 [.text 7 "b", forcedLine]]

/-- Its nodes, each of them once. -/
def nodesAtEnd : List Doc :=
  [linesAtEnd, lineAtEnd, .concat 6 [.text 7 "b", forcedLine], forcedLine, .text 4 "aaaa", .text 7 "b", .line 1 .hard,
    .breakParent 2]

theorem throughout_linesAtEnd : linesAtEnd.Throughout Doc.allChildren fun node =>
    node.IsApart ∧ node.HasFirst ∧ node.mark < 8 := by
  have closed : ∀ node ∈ nodesAtEnd, ∀ child ∈ node.allChildren, child ∈ nodesAtEnd := by
    simp [nodesAtEnd, linesAtEnd, lineAtEnd, forcedLine, Doc.allChildren, Doc.children]
  have apart : Doc.Separated [.text 4 "aaaa", forcedLine] := by
    rintro (_ | index) part found
    · exact Option.some.inj found ▸ rfl
    · cases found
  refine Doc.throughout_of_closed List.mem_cons_self closed ?_
  simpa [nodesAtEnd, linesAtEnd, lineAtEnd, forcedLine, Doc.IsApart, Doc.HasFirst, Doc.mark] using apart

theorem wellFormed_stripFinalLine_linesAtEnd : ∃ stripped after,
    linesAtEnd.stripFinalLine.run ⟨8, 1⟩ = .ok (stripped, after) ∧
      ¬stripped.Throughout Doc.allChildren Doc.IsApart ∧ ¬stripped.Throughout Doc.allChildren Doc.HasFirst := by
  have every := throughout_linesAtEnd
  obtain ⟨stripped, after, ran, fills, bodies, -⟩ := Doc.wellFormed_stripFinalLine_iff ⟨8, 1⟩
    ⟨fun node has => (every node has).1, fun node has => (every node has).2.1⟩ fun node has => (every node has).2.2
  refine ⟨stripped, after, ran, mt fills.mp fun all => ?_, mt bodies.mp fun all => ?_⟩
  · cases all lineAtEnd (.down List.mem_cons_self (.here _)) 0 _ rfl
  · cases all linesAtEnd (.here _)

end MarkupFormat.Layout
