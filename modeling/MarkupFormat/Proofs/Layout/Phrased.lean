import MarkupFormat.Layout.Dump
import MarkupFormat.Proofs.Layout.Phrases
import MarkupFormat.Proofs.Layout.Renamed

/-!
# Documents as phrases

`Doc.phrase` is the phrase that a document is dumped as, once its group ids have numbers. `Doc.doc_phrase` says that the
phrase can be read back: what is lost are the marks, and of the group ids all but their names and numbers.
-/

namespace MarkupFormat.Layout

namespace Doc

def optionPhrases : List Phrase → List Phrase
  | [] => []
  | fields => [.options fields]

def referTo (number : GroupId → Nat) (option : String) (id : GroupId) : Phrase :=
  .field option (.reference id.name (number id))

def infoPhrases (number : GroupId → Nat) (info : GroupInfo) : List Phrase :=
  let mustBreak := if info.mustBreak then [Phrase.field "shouldBreak" (.word "true")] else []
  optionPhrases (mustBreak ++ info.id.toList.map (referTo number "id"))

def alignPhrase (kind : AlignKind) (body : Phrase) : Phrase :=
  match kind with
  | .width columns => .call "align" [.word (toString columns), body]
  | .text content => .call "align" [.text content, body]
  | .dedent => .call "dedent" [body]
  | .dedentToRoot => .call "dedentToRoot" [body]
  | .markAsRoot => .call "markAsRoot" [body]

mutual

/-- The phrase that a node is dumped as when the ids have certain numbers. -/
def phrase (number : GroupId → Nat) : Doc → Phrase
  | text _ content => .text content
  | concat _ parts => if isForcedLine parts then .word (forcedLineName parts) else .list (phrases number parts)
  | indent _ body => .call "indent" [body.phrase number]
  | align _ kind body => alignPhrase kind (body.phrase number)
  | group _ info body => .call "group" (body.phrase number :: infoPhrases number info)
  | choice _ info _ first others =>
    .call "conditionalGroup" (.list (first.phrase number :: phrases number others) :: infoPhrases number info)
  | fill _ parts => .call "fill" [.list (phrases number parts)]
  | line _ kind => .word (dumpLine kind)
  | breakParent _ => .word "breakParent"
  | ifBreak _ broken flat id =>
    .call "ifBreak" (broken.phrase number :: flat.phrase number ::
      optionPhrases (id.toList.map (referTo number "groupId")))
  | indentIfBreak _ body id negate =>
    .call "indentIfBreak" [body.phrase number, .options (referTo number "groupId" id ::
      if negate then [.field "negate" (.word "true")] else [])]
  | trim _ => .word "trim"
  | label _ name body => .call "label" [.text name, body.phrase number]

def phrases (number : GroupId → Nat) : List Doc → List Phrase
  | [] => []
  | doc :: docs => doc.phrase number :: phrases number docs

end

/-- The body of a group with alternatives is the first of these. -/
def BodiesFirst (doc : Doc) : Prop :=
  ∀ mark info body first others, doc.Contains (.choice mark info body first others) → body = first

variable {doc child : Doc}

theorem bodiesFirst_child (first : doc.BodiesFirst) (below : child ∈ doc.children true) : child.BodiesFirst :=
  fun mark info body head others contains => first mark info body head others (.down trivial below contains)

end Doc

/-! ### Reading phrases -/

namespace Phrase

variable (read : String → Nat → GroupId)

def ofWord : String → Doc
  | "softline" => .line 0 .soft
  | "line" => .line 0 .plain
  | "hardlineWithoutBreakParent" => .line 0 .hard
  | "literallineWithoutBreakParent" => .line 0 .literal
  | "hardline" => .concat 0 [.line 0 .hard, .breakParent 0]
  | "literalline" => .concat 0 [.line 0 .literal, .breakParent 0]
  | "breakParent" => .breakParent 0
  | _ => .trim 0

def infoOf : List Phrase → GroupInfo
  | [.options [.field _ (.word _)]] => ⟨none, true⟩
  | [.options [.field _ (.reference name number)]] => ⟨some (read name number), false⟩
  | [.options [.field _ (.word _), .field _ (.reference name number)]] => ⟨some (read name number), true⟩
  | _ => ⟨none, false⟩

def idOf : List Phrase → Option GroupId
  | [.options [.field _ (.reference name number)]] => some (read name number)
  | _ => none

/-- The document that a call stands for, with the documents that its arguments stand for. -/
def ofCall (name : String) (arguments : List Phrase) (docs : List Doc) : Doc :=
  match name, arguments, docs with
  | "indent", _, [body] => .indent 0 body
  | "align", [.word columns, _], [_, body] => .align 0 (.width (columns.toNat?.getD 0)) body
  | "align", [.text content, _], [_, body] => .align 0 (.text content) body
  | "dedent", _, [body] => .align 0 .dedent body
  | "dedentToRoot", _, [body] => .align 0 .dedentToRoot body
  | "markAsRoot", _, [body] => .align 0 .markAsRoot body
  | "group", _ :: last, body :: _ => .group 0 (infoOf read last) body
  | "conditionalGroup", _ :: last, .concat _ (first :: others) :: _ => .choice 0 (infoOf read last) first first others
  | "fill", _, [.concat _ parts] => .fill 0 parts
  | "ifBreak", _ :: _ :: last, broken :: flat :: _ => .ifBreak 0 broken flat (idOf read last)
  | "indentIfBreak", [_, .options (.field _ (.reference name number) :: more)], body :: _ =>
    .indentIfBreak 0 body (read name number) (!more.isEmpty)
  | "label", [.text name, _], [_, body] => .label 0 name body
  | _, _, _ => .trim 0

mutual

def doc : Phrase → Doc
  | text content => .text 0 content
  | word name => ofWord name
  | list items => .concat 0 (docs items)
  | call name arguments => ofCall read name arguments (docs arguments)
  | reference .. | options _ | field .. => .trim 0

def docs : List Phrase → List Doc
  | [] => []
  | phrase :: phrases => phrase.doc :: docs phrases

end

theorem infoOf_infoPhrases (number : GroupId → Nat) (info : GroupInfo) :
    infoOf read (Doc.infoPhrases number info) = info.renamed fun id => read id.name (number id) := by
  obtain ⟨id, mustBreak⟩ := info
  cases id <;> cases mustBreak <;> rfl

theorem idOf_optionPhrases (number : GroupId → Nat) (option : String) (id : Option GroupId) :
    idOf read (Doc.optionPhrases (id.toList.map (Doc.referTo number option))) =
      id.map fun id => read id.name (number id) := by
  cases id <;> rfl

end Phrase

namespace Doc

variable (read : String → Nat → GroupId) (number : GroupId → Nat)

mutual

/-- A document can be read off its phrase, but for the marks and the ids. -/
theorem doc_phrase : ∀ doc : Doc, doc.BodiesFirst →
    (doc.phrase number).doc read = doc.unfolded.renamed fun id => read id.name (number id)
  | text .., _ => rfl
  | concat mark parts, first => by
    rw [phrase]
    split
    · next forced =>
      obtain ⟨lineMark, kind, breakMark, rfl, hard⟩ := exists_of_isForcedLine forced
      cases kind with
      | soft | plain => cases hard
      | hard | literal => rfl
    · exact congrArg (concat 0) (docs_phrases parts fun doc member => bodiesFirst_child first member)
  | indent mark body, first => congrArg (indent 0) (doc_phrase body (bodiesFirst_child first List.mem_cons_self))
  | align mark kind body, first => by
    have here := doc_phrase body (bodiesFirst_child first List.mem_cons_self)
    cases kind with
    | width columns =>
      have digits : (toString columns).toNat? = some columns := Nat.toNat?_repr columns
      show align 0 (.width ((toString columns).toNat?.getD 0)) _ = _
      rw [digits, here]
      rfl
    | text content => exact congrArg (align 0 (.text content)) here
    | dedent => exact congrArg (align 0 .dedent) here
    | dedentToRoot => exact congrArg (align 0 .dedentToRoot) here
    | markAsRoot => exact congrArg (align 0 .markAsRoot) here
  | group mark info body, first => by
    have here := doc_phrase body (bodiesFirst_child first List.mem_cons_self)
    exact congrArg₂ (group 0) (Phrase.infoOf_infoPhrases read number info) here
  | choice mark info body first others, bodies => by
    -- The phrase has the alternatives only, and the body is read off the first of them.
    obtain rfl := bodies mark info body first others (.here _)
    have here := doc_phrase body (bodiesFirst_child bodies List.mem_cons_self)
    have behind := docs_phrases others fun doc member => bodiesFirst_child bodies (List.mem_cons_of_mem _ member)
    show choice 0 (Phrase.infoOf read (infoPhrases number info)) ((body.phrase number).doc read)
      ((body.phrase number).doc read) (Phrase.docs read (phrases number others)) = _
    rw [here, behind, Phrase.infoOf_infoPhrases]
    rfl
  | fill mark parts, first => congrArg (fill 0) (docs_phrases parts fun doc member => bodiesFirst_child first member)
  | line _ kind, _ => by cases kind <;> rfl
  | breakParent _, _ => rfl
  | ifBreak mark broken flat id, first => by
    have inBroken := doc_phrase broken (bodiesFirst_child first List.mem_cons_self)
    have inFlat := doc_phrase flat (bodiesFirst_child first (List.mem_cons_of_mem _ List.mem_cons_self))
    show ifBreak 0 ((broken.phrase number).doc read) ((flat.phrase number).doc read)
      (Phrase.idOf read (optionPhrases (id.toList.map (referTo number "groupId")))) = _
    rw [inBroken, inFlat, Phrase.idOf_optionPhrases]
    rfl
  | indentIfBreak mark body id negate, first => by
    have here := doc_phrase body (bodiesFirst_child first List.mem_cons_self)
    cases negate with
    | true => exact congrArg (indentIfBreak 0 · (read id.name (number id)) true) here
    | false => exact congrArg (indentIfBreak 0 · (read id.name (number id)) false) here
  | trim _, _ => rfl
  | label mark name body, first =>
    congrArg (label 0 name) (doc_phrase body (bodiesFirst_child first List.mem_cons_self))

theorem docs_phrases : ∀ docs : List Doc, (∀ doc ∈ docs, doc.BodiesFirst) →
    Phrase.docs read (phrases number docs) = renamedAll (fun id => read id.name (number id)) (unfoldedAll docs)
  | [], _ => rfl
  | doc :: docs, first => by
    obtain ⟨here, behind⟩ := List.forall_mem_cons.mp first
    exact congrArg₂ List.cons (doc_phrase doc here) (docs_phrases docs behind)

end

/-! ### Names in phrases -/

theorem plain_of_all {name : String} (all : name.toList.all (fun c => !Phrase.isMark c) = true) :
    Phrase.Plain name := by
  intro c member
  exact Bool.not_eq_true' _ ▸ List.all_eq_true.mp all c member

theorem sound_word {name : String} (nonempty : name ≠ "")
    (all : name.toList.all (fun c => !Phrase.isMark c) = true) : (Phrase.word name).Sound :=
  ⟨fun none => nonempty (String.toList_inj.mp none), plain_of_all all⟩

theorem sound_digits (n : Nat) : (Phrase.word (toString n)).Sound := by
  rw [Nat.toString_eq_repr]
  refine ⟨by simp [Nat.toDigits_ne_nil], fun c member => ?_⟩
  rw [← Nat.toString_eq_repr] at member
  refine Bool.eq_false_iff.mpr fun mark => ?_
  have digit := Text.isDigit_of_mem_toString member
  rw [Phrase.isDigit_of_isMark mark] at digit
  cases digit

theorem allSound_append {phrases more : List Phrase} (first : Phrase.AllSound phrases) (second : Phrase.AllSound more) :
    Phrase.AllSound (phrases ++ more) := by
  induction phrases with
  | nil => exact second
  | cons phrase phrases ih => exact ⟨first.1, ih first.2⟩

theorem allSound_optionPhrases {fields : List Phrase} (sound : Phrase.AllSound fields) :
    Phrase.AllSound (optionPhrases fields) := by
  cases fields with
  | nil => trivial
  | cons => exact ⟨sound, trivial⟩

theorem allSound_refer {option : String} (plain : Phrase.Plain option) {id : Option GroupId}
    (names : ∀ found ∈ id.toList, Phrase.Plain found.name) :
    Phrase.AllSound (id.toList.map (referTo number option)) := by
  cases id with
  | none => trivial
  | some id => exact ⟨⟨plain, names id List.mem_cons_self⟩, trivial⟩

theorem allSound_infoPhrases {info : GroupInfo} (names : ∀ found ∈ info.id.toList, Phrase.Plain found.name) :
    Phrase.AllSound (infoPhrases number info) := by
  refine allSound_optionPhrases (allSound_append ?_ (allSound_refer number (plain_of_all rfl) names))
  split
  · exact ⟨⟨plain_of_all rfl, sound_word (by decide) rfl⟩, trivial⟩
  · trivial

mutual

theorem sound_phrase : ∀ doc : Doc, (∀ id ∈ doc.ids, Phrase.Plain id.name) → (doc.phrase number).Sound
  | text .., _ => trivial
  | concat mark parts, names => by
    rw [phrase]
    split
    · next forced =>
      obtain ⟨lineMark, kind, breakMark, rfl, hard⟩ := exists_of_isForcedLine forced
      cases kind with
      | soft | plain => cases hard
      | hard =>
        show (Phrase.word "hardline").Sound
        exact sound_word (by decide) rfl
      | literal =>
        show (Phrase.word "literalline").Sound
        exact sound_word (by decide) rfl
    · exact allSound_phrases parts names
  | indent mark body, names => ⟨plain_of_all rfl, sound_phrase body names, trivial⟩
  | align mark kind body, names => by
    have here := sound_phrase body names
    cases kind with
    | width columns => exact ⟨plain_of_all rfl, sound_digits columns, here, trivial⟩
    | text content => exact ⟨plain_of_all rfl, trivial, here, trivial⟩
    | dedent | dedentToRoot | markAsRoot => exact ⟨plain_of_all rfl, here, trivial⟩
  | group mark info body, names => by
    obtain ⟨inside, own⟩ := List.forall_mem_append.mp names
    exact ⟨plain_of_all rfl, sound_phrase body inside, allSound_infoPhrases number own⟩
  | choice mark info body first others, names => by
    obtain ⟨_, names⟩ := List.forall_mem_append.mp names
    obtain ⟨inFirst, names⟩ := List.forall_mem_append.mp names
    obtain ⟨inOthers, own⟩ := List.forall_mem_append.mp names
    exact ⟨plain_of_all rfl, ⟨sound_phrase first inFirst, allSound_phrases others inOthers⟩,
      allSound_infoPhrases number own⟩
  | fill mark parts, names => ⟨plain_of_all rfl, allSound_phrases parts names, trivial⟩
  | line _ kind, _ => by cases kind <;> exact sound_word (by decide) rfl
  | breakParent _, _ => sound_word (by decide) rfl
  | ifBreak mark broken flat id, names => by
    obtain ⟨inBroken, names⟩ := List.forall_mem_append.mp names
    obtain ⟨inFlat, own⟩ := List.forall_mem_append.mp names
    exact ⟨plain_of_all rfl, sound_phrase broken inBroken, sound_phrase flat inFlat,
      allSound_optionPhrases (allSound_refer number (plain_of_all rfl) own)⟩
  | indentIfBreak mark body id negate, names => by
    obtain ⟨inside, own⟩ := List.forall_mem_append.mp names
    refine ⟨plain_of_all rfl, sound_phrase body inside,
      ⟨⟨plain_of_all rfl, own id List.mem_cons_self⟩, ?_⟩, trivial⟩
    cases negate with
    | true => exact ⟨⟨plain_of_all rfl, sound_word (by decide) rfl⟩, trivial⟩
    | false => trivial
  | trim _, _ => sound_word (by decide) rfl
  | label mark name body, names => ⟨plain_of_all rfl, trivial, sound_phrase body names, trivial⟩

theorem allSound_phrases : ∀ docs : List Doc, (∀ id ∈ idsAll docs, Phrase.Plain id.name) →
    Phrase.AllSound (phrases number docs)
  | [], _ => trivial
  | doc :: docs, names => by
    obtain ⟨here, behind⟩ := List.forall_mem_append.mp names
    exact ⟨sound_phrase doc here, allSound_phrases docs behind⟩

end

end Doc

end MarkupFormat.Layout
