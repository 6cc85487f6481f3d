import MarkupFormat.Proofs.Markup.AttributeValues
import MarkupFormat.Proofs.Print.AttributeText

/-!
# Attributes that are read again

What is printed of an attribute without an embedder is read as an attribute of the same name. Its value says the same,
apart from the white space between classes, and is printed as it was (`rereads_of_parse`). The template blocks of the
value are still there one by one, but a block is kept as it is only if nothing in it is written another way
(`blocks_reread_of_parse`).
-/

namespace MarkupFormat.Print

open Layout (Config Doc Emitter)
open Markup (Attribute Fragment ParseOptions ReadAlone ReadAmong parse writtenAttribute)
open Text (EntityFree IsQuoteChar QuotesKept blocks collapse collapseRuns escapeQuote isMark occursIn preferredQuote
  unescapeQuotes)

variable {name : String} {value written block : List Char}

/-! ### What is printed of a value -/

/-- Whether a value is printed as a list of classes. -/
def IsClassList (name : String) (value : List Char) : Prop :=
  name = "class" ∧ occursIn ['{', '{'] value = false ∧ collapse value ≠ []

instance (name : String) (value : List Char) : Decidable (IsClassList name value) :=
  inferInstanceAs (Decidable (_ ∧ _ ∧ _))

/-- What is printed of a value in which the entities of quotes were read. -/
def shownValue (name : String) (value : List Char) : List Char :=
  if IsClassList name value then collapse value else value

/-- The quotes around it. -/
def shownQuote (name : String) (value : List Char) : Char :=
  if IsClassList name value then '"' else preferredQuote value

/-- The characters between the quotes. -/
def quotedText (name : String) (written : List Char) : List Char :=
  let value := unescapeQuotes written
  escapeQuote (shownQuote name value) (shownValue name value)

theorem valueText_eq (name written : String) :
    Page.valueText name written =
      shownQuote name (unescapeQuotes written.toList) ::
        (quotedText name written.toList ++ [shownQuote name (unescapeQuotes written.toList)]) := by
  have same : IsClassList name (unescapeQuotes written.toList) ↔
      name = "class" ∧ written ≠ "" ∧ ¬occursIn ['{', '{'] (unescapeQuotes written.toList) ∧
        collapse (unescapeQuotes written.toList) ≠ [] := by
    unfold IsClassList
    rw [Bool.not_eq_true]
    refine and_congr_right fun _ => (and_iff_right_of_imp ?_).symm
    rintro ⟨-, some⟩ rfl
    exact some rfl
  unfold Page.valueText quotedText shownQuote shownValue
  simp only [← same]
  split <;> rfl

theorem printedText_eq {attr : Attribute} {written : String} (valued : attr.value = some written) :
    printedText attr = writtenAttribute attr.rawName.toList (shownQuote attr.rawName (unescapeQuotes written.toList))
      (quotedText attr.rawName written.toList) := by
  unfold printedText writtenAttribute
  rw [valued]
  dsimp only
  rw [valueText_eq]

theorem isQuoteChar_shownQuote (name : String) (value : List Char) : IsQuoteChar (shownQuote name value) := by
  unfold shownQuote
  split
  · exact .inl rfl
  · exact Text.isQuoteChar_preferredQuote value

theorem entityFree_shownValue (name : String) (written : List Char) :
    EntityFree (shownValue name (unescapeQuotes written)) := by
  have free := Text.entityFree_unescapeQuotes written
  unfold shownValue
  split
  · exact Text.entityFree_collapse free
  · exact free

/-- What is printed of a value is read as what is shown of it. -/
theorem unescapeQuotes_quotedText (name : String) (written : List Char) :
    unescapeQuotes (quotedText name written) = shownValue name (unescapeQuotes written) :=
  Text.unescapeQuotes_escapeQuote (isQuoteChar_shownQuote name _) (entityFree_shownValue name written)

theorem isClassList_shownValue (name : String) (value : List Char) :
    IsClassList name (shownValue name value) ↔ IsClassList name value := by
  by_cases classes : IsClassList name value
  · have shown : shownValue name value = collapse value := if_pos classes
    unfold IsClassList
    rw [shown, Text.collapse_collapse, Text.occursIn_collapse (by decide) (by decide)]
  · have shown : shownValue name value = value := if_neg classes
    rw [shown]

theorem quotedText_quotedText (name : String) (written : List Char) :
    shownQuote name (unescapeQuotes (quotedText name written)) = shownQuote name (unescapeQuotes written) ∧
      quotedText name (quotedText name written) = quotedText name written := by
  have reread := unescapeQuotes_quotedText name written
  have classes := isClassList_shownValue name (unescapeQuotes written)
  have quote : shownQuote name (shownValue name (unescapeQuotes written)) =
      shownQuote name (unescapeQuotes written) := by
    unfold shownQuote
    simp only [classes]
    split
    · rfl
    · next plain => rw [shownValue, if_neg plain]
  have value : shownValue name (shownValue name (unescapeQuotes written)) =
      shownValue name (unescapeQuotes written) := by
    by_cases isList : IsClassList name (unescapeQuotes written)
    · have shown : shownValue name (unescapeQuotes written) = collapse (unescapeQuotes written) := if_pos isList
      rw [shownValue, if_pos (classes.mpr isList), shown, Text.collapse_collapse]
    · rw [shownValue, if_neg (mt classes.mp isList)]
  refine ⟨by rw [reread, quote], ?_⟩
  show escapeQuote (shownQuote name (unescapeQuotes (quotedText name written)))
    (shownValue name (unescapeQuotes (quotedText name written))) = _
  rw [reread, quote, value]
  rfl

theorem occursIn_quotedText {a b : Char} (first : isMark a = true) (second : isMark b = true) (name : String)
    (written : List Char) : occursIn [a, b] (quotedText name written) = occursIn [a, b] written := by
  have shown : occursIn [a, b] (shownValue name (unescapeQuotes written)) =
      occursIn [a, b] (unescapeQuotes written) := by
    unfold shownValue
    split
    · exact Text.occursIn_collapse first second _
    · rfl
  have escaped := (Text.blockwise_escapeQuote (isQuoteChar_shownQuote name (unescapeQuotes written))).rewrites
    (shownValue name (unescapeQuotes written))
  rw [quotedText, ← escaped.occursIn_eq first second, shown,
    ← (Text.blockwise_unescapeQuotes.rewrites written).occursIn_eq first second]

/-! ### Reading it again -/

/-- Without an embedder, an attribute is printed as this text on every page. -/
def PrintsAs (attr : Attribute) (text : List Char) : Prop :=
  ∀ page : Page, page.Declines → Printing.Makes (page.printAttribute attr) fun doc => doc.Writes text

theorem printsAs_printedText (attr : Attribute) : PrintsAs attr (printedText attr) :=
  fun page declines => (page.lays_printAttribute declines attr).mono fun _ => Doc.writes_of_verbatim?

theorem readAmong_printedText {attr : Attribute} {written : String} (sourced : attr.Sourced)
    (valued : attr.value = some written) :
    ReadAmong (printedText attr) attr.rawName (String.ofList (quotedText attr.rawName written.toList)) := by
  obtain ⟨after, before, inside⟩ := sourced written valued
  have isQuote := isQuoteChar_shownQuote attr.rawName (unescapeQuotes written.toList)
  have noQuote : shownQuote attr.rawName (unescapeQuotes written.toList) ∉ quotedText attr.rawName written.toList :=
    Text.not_mem_escapeQuote isQuote _
  have read := before.readAmong isQuote noQuote fun mark marked closes => ?_
  · rwa [String.ofList_toList, ← printedText_eq valued] at read
  · rw [occursIn_quotedText marked (by decide)] at closes
    exact Text.occursIn_iff_infix.mpr ((Text.occursIn_iff_infix.mp closes).trans inside)

/-- What is read again is printed as before. -/
theorem printedText_again {attr other : Attribute} {written : String} (valued : attr.value = some written)
    (named : other.rawName = attr.rawName)
    (again : other.value = some (String.ofList (quotedText attr.rawName written.toList))) :
    printedText other = printedText attr := by
  obtain ⟨quote, text⟩ := quotedText_quotedText attr.rawName written.toList
  rw [printedText_eq valued, printedText_eq again, named, String.toList_ofList, quote, text]

/-- An attribute with a value is printed as a text that is read as an attribute of the same name, alone and among
others. Its value has the same characters, but for the white space between classes and for which of the quotes are
written as entities; and it is printed as the same text. -/
theorem rereads_of_parse {source : String} {options : ParseOptions} {content : List Fragment}
    (parsed : parse source options = .ok content) :
    ∀ node ∈ content, node.ElementsSay fun _ element =>
      ∀ attr ∈ element.attributes, ∀ value, attr.value = some value → ∃ text again,
        PrintsAs attr text ∧ ReadAmong text attr.rawName again ∧ ReadAlone text attr.rawName again ∧
          unescapeQuotes again.toList = shownValue attr.rawName (unescapeQuotes value.toList) ∧
          ∀ other : Attribute, other.rawName = attr.rawName → other.value = some again → PrintsAs other text := by
  intro node member
  refine Markup.elementsSay_imp (fun _ element sourced attr inside value valued => ?_)
    (Markup.sourced_of_parse parsed node member)
  have read := readAmong_printedText (sourced attr inside) valued
  refine ⟨_, _, printsAs_printedText attr, read, read.alone, ?_, fun other named again => ?_⟩
  · rw [String.toList_ofList, unescapeQuotes_quotedText]
  · rw [← printedText_again valued named again]
    exact printsAs_printedText other

/-- Both quotes with an entity of each, and a list of classes over several lines. -/
def quotedTag : String := "<p title='&quot;it&apos;s&quot; \"so\"' class=\"\n  a  &quot;b\n\" lang=en>"

theorem rereads_of_parse_quotedTag :
    let title : Attribute := ⟨"title", some "&quot;it&apos;s&quot; \"so\"", ⟨3, 37⟩, some ⟨10, 36⟩⟩
    let classes : Attribute := ⟨"class", some "\n  a  &quot;b\n", ⟨38, 60⟩, some ⟨45, 59⟩⟩
    let language : Attribute := ⟨"lang", some "en", ⟨61, 68⟩, some ⟨66, 68⟩⟩
    ∃ node, parse quotedTag {} = .ok [node] ∧ node.attributes? = some [title, classes, language] ∧
      ∀ attr ∈ [title, classes, language], ∃ text again,
        PrintsAs attr text ∧ ReadAmong text attr.rawName again ∧ ReadAlone text attr.rawName again ∧
          [("title", "\"it's\" \"so\""), ("class", "a \"b"), ("lang", "en")].lookup attr.rawName =
            some (String.ofList (unescapeQuotes again.toList)) ∧
          ∀ other : Attribute, other.rawName = attr.rawName → other.value = some again → PrintsAs other text := by
  intro title classes language
  have read : (parse quotedTag {}).toOption.map (·.map Fragment.attributes?) =
      some [some [title, classes, language]] := by
    decide +kernel
  obtain ⟨node, parsed, found⟩ := Markup.exists_parse_of_attributes? read
  obtain ⟨-, element, reread, same⟩ :=
    Markup.exists_said_of_attributes? (rereads_of_parse parsed node (List.mem_singleton_self node)) found
  refine ⟨node, parsed, found, fun attr member => ?_⟩
  have shown : ∀ attr ∈ [title, classes, language], ∃ value, attr.value = some value ∧
      [("title", "\"it's\" \"so\""), ("class", "a \"b"), ("lang", "en")].lookup attr.rawName =
        some (String.ofList (shownValue attr.rawName (unescapeQuotes value.toList))) := by
    simp only [List.forall_mem_cons]
    exact ⟨⟨_, rfl, by decide +kernel⟩, ⟨_, rfl, by decide +kernel⟩, ⟨_, rfl, by decide +kernel⟩, List.forall_mem_nil _⟩
  obtain ⟨value, valued, said⟩ := shown attr member
  obtain ⟨text, again, prints, among, alone, sameValue, others⟩ := reread attr (same ▸ member) value valued
  exact ⟨text, again, prints, among, alone, sameValue ▸ said, others⟩

/-! ### Template blocks -/

/-- What is printed of a block of a value. -/
def shownBlock (name : String) (written block : List Char) : List Char :=
  let value := unescapeQuotes written
  escapeQuote (shownQuote name value)
    (if IsClassList name value then collapse (unescapeQuotes block) else unescapeQuotes block)

/-- A block of a value is printed as it is: it holds neither the quote that is chosen for the value nor the entity of
the other one, and single spaces only if the value is a list of classes. -/
structure Survives (name : String) (written block : List Char) : Prop where
  kept : QuotesKept (shownQuote name (unescapeQuotes written)) block
  single : IsClassList name (unescapeQuotes written) → collapse block = block

theorem blocks_quotedText (name : String) (written : List Char) :
    blocks (quotedText name written) = (blocks written).map (shownBlock name written) := by
  have isQuote := isQuoteChar_shownQuote name (unescapeQuotes written)
  have shown : blocks (shownValue name (unescapeQuotes written)) = (blocks written).map fun block =>
      if IsClassList name (unescapeQuotes written) then collapse (unescapeQuotes block)
      else unescapeQuotes block := by
    unfold shownValue
    split
    · rw [Text.blocks_collapse, Text.blockwise_unescapeQuotes.blocks, List.map_map]
      rfl
    · rw [Text.blockwise_unescapeQuotes.blocks]
  rw [quotedText, (Text.blockwise_escapeQuote isQuote).blocks, shown, List.map_map]
  rfl

theorem Survives.shownBlock_eq (survives : Survives name written block) (member : block ∈ blocks written) :
    shownBlock name written block = block := by
  have kept := survives.kept.escapeQuote_unescapeQuotes
  unfold shownBlock
  dsimp only
  split
  · next classes =>
    -- The entities in a block with single spaces are read without making other spaces.
    have single := survives.single classes
    obtain ⟨-, inner, rfl⟩ := Text.of_mem_blocks member
    rw [Text.collapse_brace] at single
    have open_ : unescapeQuotes ('{' :: (inner ++ ['}'])) = '{' :: unescapeQuotes (inner ++ ['}']) :=
      Text.unescapeQuotes_cons (Text.not_beginsEntity (by decide))
    rw [open_, Text.collapse_brace, ← open_, Text.collapseRuns_unescapeQuotes, single, kept]
  · exact kept

theorem collapseRuns_quotedText (classes : IsClassList name (unescapeQuotes written)) :
    collapseRuns false (quotedText name written) = quotedText name written := by
  have shown : shownValue name (unescapeQuotes written) = collapse (unescapeQuotes written) := if_pos classes
  rw [quotedText, shown, Text.collapseRuns_escapeQuote (isQuoteChar_shownQuote name _), Text.collapse_eq,
    Text.collapseRuns_collapseRuns]

theorem survives_of_isInfix (member : block ∈ blocks written) (inside : block <:+: quotedText name written) :
    Survives name written block where
  kept := (Text.quotesKept_escapeQuote (isQuoteChar_shownQuote name _) (entityFree_shownValue name written)).of_isInfix
    inside
  single classes := by
    obtain ⟨-, inner, rfl⟩ := Text.of_mem_blocks member
    rw [Text.collapse_brace]
    have inside : ('{' :: inner) ++ ['}'] <:+: quotedText name written := inside
    exact Text.collapseRuns_of_infix (collapseRuns_quotedText classes) inside

theorem infix_iff_survives (member : block ∈ blocks written) :
    block <:+: quotedText name written ↔ Survives name written block := by
  refine ⟨survives_of_isInfix member, fun survives => ?_⟩
  have printed : block ∈ blocks (quotedText name written) := by
    rw [blocks_quotedText]
    exact List.mem_map.mpr ⟨block, member, survives.shownBlock_eq member⟩
  exact (Text.of_mem_blocks printed).1

/-- The blocks of a value that is read again are those of the value if each of them is printed as it is, and only
then. -/
theorem blocks_quotedText_eq_iff (name : String) (written : List Char) :
    blocks (quotedText name written) = blocks written ↔ ∀ block ∈ blocks written, Survives name written block := by
  constructor
  · intro same block member
    refine survives_of_isInfix member ?_
    rw [← same] at member
    exact (Text.of_mem_blocks member).1
  · intro survive
    rw [blocks_quotedText]
    exact (List.map_congr_left fun block member => (survive block member).shownBlock_eq member).trans (List.map_id _)

/-- The text that an attribute is printed as is read as an attribute whose value has the blocks of the value one by
one. A block occurs in it as it is, and all blocks are read again as they are, exactly if they survive. -/
theorem blocks_reread_of_parse {source : String} {options : ParseOptions} {content : List Fragment}
    (parsed : parse source options = .ok content) :
    ∀ node ∈ content, node.ElementsSay fun _ element =>
      ∀ attr ∈ element.attributes, ∀ value, attr.value = some value → ∃ text again,
        PrintsAs attr text ∧ ReadAmong text attr.rawName again ∧ ReadAlone text attr.rawName again ∧
          again.toList <:+: text ∧
          blocks again.toList = (blocks value.toList).map (shownBlock attr.rawName value.toList) ∧
          (∀ block ∈ blocks value.toList, block <:+: again.toList ↔ Survives attr.rawName value.toList block) ∧
          (blocks again.toList = blocks value.toList ↔
            ∀ block ∈ blocks value.toList, Survives attr.rawName value.toList block) := by
  intro node member
  refine Markup.elementsSay_imp (fun _ element sourced attr inside value valued => ?_)
    (Markup.sourced_of_parse parsed node member)
  have read := readAmong_printedText (sourced attr inside) valued
  refine ⟨_, _, printsAs_printedText attr, read, read.alone, ?_⟩
  rw [String.toList_ofList]
  refine ⟨?_, blocks_quotedText _ _, fun block member => infix_iff_survives member, blocks_quotedText_eq_iff _ _⟩
  rw [printedText_eq valued]
  exact List.infix_append_of_infix_right (List.infix_cons (List.infix_cons (List.infix_append_of_infix_left
    List.infix_rfl)))

/-- A block with both quotes, one in a list of classes, and one that is closed behind a quote. -/
def blockyTag : String := "<p a=\"\x7b\x7b 'x' + \"y\" \x7d\x7d\" class='\x7b%  if  a %\x7d b' c=\x7b#\"#\x7d>"

/-- The first block is escaped and the second one gets single spaces, so neither is found again. The third is kept. -/
theorem blocks_reread_of_parse_blockyTag :
    let quotes : Attribute := ⟨"a", some "\x7b\x7b 'x' + \"y\" \x7d\x7d", ⟨3, 22⟩, some ⟨6, 21⟩⟩
    let classes : Attribute := ⟨"class", some "\x7b%  if  a %\x7d b", ⟨23, 45⟩, some ⟨30, 44⟩⟩
    let remark : Attribute := ⟨"c", some "\x7b#\"#\x7d", ⟨46, 53⟩, some ⟨48, 53⟩⟩
    ∃ node, parse blockyTag {} = .ok [node] ∧ node.attributes? = some [quotes, classes, remark] ∧
      ∀ attr ∈ [quotes, classes, remark], ∀ value, attr.value = some value → ∃ text again,
        PrintsAs attr text ∧ ReadAmong text attr.rawName again ∧ ReadAlone text attr.rawName again ∧
          again.toList <:+: text ∧
          [("a", ["\x7b\x7b 'x' + &quot;y&quot; \x7d\x7d"]), ("class", ["\x7b% if a %\x7d"]),
              ("c", ["\x7b#\"#\x7d"])].lookup attr.rawName = some ((blocks again.toList).map String.ofList) ∧
          ((∀ block ∈ blocks value.toList, block <:+: again.toList) ↔ attr = remark) ∧
          (blocks again.toList = blocks value.toList ↔ attr = remark) := by
  intro quotes classes remark
  have read : (parse blockyTag {}).toOption.map (·.map Fragment.attributes?) =
      some [some [quotes, classes, remark]] := by
    decide +kernel
  obtain ⟨node, parsed, found⟩ := Markup.exists_parse_of_attributes? read
  obtain ⟨-, element, reread, same⟩ :=
    Markup.exists_said_of_attributes? (blocks_reread_of_parse parsed node (List.mem_singleton_self node)) found
  refine ⟨node, parsed, found, fun attr member value valued => ?_⟩
  have shown : ∀ attr ∈ [quotes, classes, remark],
      [("a", ["\x7b\x7b 'x' + &quot;y&quot; \x7d\x7d"]), ("class", ["\x7b% if a %\x7d"]),
          ("c", ["\x7b#\"#\x7d"])].lookup attr.rawName =
        attr.value.map (fun value =>
          ((blocks value.toList).map (shownBlock attr.rawName value.toList)).map String.ofList) ∧
      (attr.value.any (fun value =>
          decide ((blocks value.toList).map (shownBlock attr.rawName value.toList) = blocks value.toList)) = true ↔
        attr = remark) := by
    decide +kernel
  obtain ⟨printed, kept⟩ := shown attr member
  rw [valued, Option.any_some, decide_eq_true_eq] at kept
  obtain ⟨text, again, prints, among, alone, inside, shownBlocks, occurs, all⟩ :=
    reread attr (same ▸ member) value valued
  rw [← shownBlocks] at kept
  refine ⟨text, again, prints, among, alone, inside, ?_, ?_, kept⟩
  · rw [printed, valued, shownBlocks]
    rfl
  · rw [← kept, all]
    exact forall₂_congr occurs

end MarkupFormat.Print
