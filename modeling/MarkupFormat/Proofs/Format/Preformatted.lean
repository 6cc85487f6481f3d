import MarkupFormat.Proofs.Annotate.Preformatted
import MarkupFormat.Proofs.Annotate.WrittenTags
import MarkupFormat.Proofs.Format.Failure
import MarkupFormat.Proofs.Format.InsertedPragma
import MarkupFormat.Proofs.Format.Markers
import MarkupFormat.Proofs.Markup.DocumentOrder
import MarkupFormat.Proofs.Markup.TextsInside
import MarkupFormat.Proofs.Print.Issued
import MarkupFormat.Proofs.Print.Preformatted

/-!
# Preformatted text of formatted sources

A preformatted element of a source that has a text and nothing else inside keeps the text: between the end of its start
tag and the start of its end tag stands the text, after the one line break that a reader drops there or after nothing,
and a reader takes it back there. It stands at the place of the element, behind what is seen of everything before it in
the source. This holds for every width, indentation and sensitivity (`preformatted_of_format`). The exceptions are texts
of nothing but white space, which are dropped, and elements that do not show. What is not laid out is copied as it is
written, and the preformatted elements in it with it, unless it is code.
-/

namespace MarkupFormat.Format

open Annotate (IsPlain Outlives TellsContent afterLineFeed isScriptLike isWhitespaceSensitive)
open Layout (Doc)
open Markup (Element Fragment NodeId NodeKind Span Tree endsLine)
open Print (Page)
open Text (LineEnding isMarkupSpace normalizeChars normalizeLineEndings visible visible_append writtenChars)

variable {source : String} {options : Options} {element : Element} {start : Span} {text : List Char}

/-! ### In the annotated tree -/

/-- What a preformatted element with a text becomes in an annotated tree. -/
inductive Becomes (tree : Tree) (element : Element) (start : Span) (text : List Char) (id : NodeId) : Prop where
  /-- A text that is white space is dropped. -/
  | emptied (kind : tree.kind id = .element element) (starts : (tree.node id).startSpan = some start)
    (blank : text.all isMarkupSpace = true) (childless : tree.children id = [])
  /-- Any other text stays as it is. -/
  | kept {child : NodeId} (kind : tree.kind id = .element element) (starts : (tree.node id).startSpan = some start)
    (only : tree.children id = [child]) (inside : tree.kind child = .text (String.ofList text))
  /-- An element between words that it touches is one word with them. -/
  | merged {value tag : List Char} (kind : tree.kind id = .text (String.ofList value))
    (begins : element.EndTagBegins tag) (inside : '>' :: (text ++ tag) <:+: value)

theorem Becomes.lt_size {tree : Tree} {id : NodeId} (becomes : Becomes tree element start text id) :
    id < tree.size := by
  refine Nat.lt_of_not_le fun outside => ?_
  have none : tree.kind id = .root := by
    unfold Markup.Tree.kind Markup.Tree.node
    rw [Array.getD_eq_getD_getElem?, Array.getElem?_eq_none outside]
    rfl
  cases becomes with
  | emptied kind => exact NodeKind.noConfusion (none.symm.trans kind)
  | kept kind => exact NodeKind.noConfusion (none.symm.trans kind)
  | merged kind => exact NodeKind.noConfusion (none.symm.trans kind)

/-- What is seen of a page before the text of an element, up to the end of its start tag. -/
inductive SeenBefore (page : Page) (element : Element) (text : List Char) (id : NodeId) : List Char → Prop where
  | kept {child : NodeId} (only : page.tree.children id = [child]) :
    SeenBefore page element text id (page.spelledUpTo child)
  /-- Before an element that is one word with others, these are seen too. -/
  | merged {value front tag back : List Char} (kind : page.tree.kind id = .text (String.ofList value))
    (begins : element.EndTagBegins tag) (content : page.textContent id value = front ++ '>' :: (text ++ tag) ++ back) :
    SeenBefore page element text id (page.spelledUpTo id ++ visible front ++ ['>'])

/-- A reader inside of an element takes a text back from what is written and stops at the tag behind it, unless what
follows ends a block that begins in the text. A tag without a name, and any tag behind raw content, has to be whole for
that. -/
def TakesBack (element : Element) (text tag written : List Char) : Prop :=
  ∃ rest, normalizeChars written = text ++ rest ∧ tag <+: rest ∧
    (Text.Apart rest text →
      (tag = "<//".toList ∨ element.hasRawContent = true → element.readText {} rest = ([], rest)) →
        element.readText {} (text ++ rest) = (text, rest))

/-- The text of an element stands between the end of its start tag and the start of its end tag, behind what is seen
before it, and is read there again. There is a line break before it at most, and there is one if the text begins with a
line feed, so that dropping a line feed there leaves the text. -/
def StandsBetweenTags (element : Element) (ending : LineEnding) (text seen output : List Char) : Prop :=
  ∃ front lead tag written, visible front ++ ['>'] = seen ∧
    ((text.head? ≠ some '\n' ∧ lead = []) ∨ lead = ['\n']) ∧ element.EndTagBegins tag ∧
    output = front ++ '>' :: written ∧ writtenChars ending (lead ++ text) ++ tag <+: written ∧
    TakesBack element (lead ++ text) tag written

/-- Each part of what is copied of a node stands in the output as it is written in the source, behind what is seen
before it. Blanks at the end of a line may be taken back, and line feeds at the front make way for a pragma. -/
def StandsCopied (page : Page) (ending : LineEnding) (pragma : List Char) (id : NodeId) (output : List Char) : Prop :=
  ∀ before part after, (page.copiedSource id).toList = before ++ part ++ after → Layout.EndsSolid part →
    (pragma ≠ [] → ∀ c ∈ part.head?, endsLine c = false) →
      ∃ front back, visible front = pragma ++ (page.spelledUpToCopy id ++ visible before) ∧
        output = front ++ writtenChars ending part ++ back

/-- What is seen of a pragma that is put before what is formatted. -/
def pragmaInk (source : String) (options : Options) : List Char :=
  if options.insertPragma && !Pragma.format.isIn source then visible Pragma.comment.write else []

/-! ### In the output -/

theorem visible_dropWhile_endsLine (cs : List Char) : visible (cs.dropWhile endsLine) = visible cs := by
  have dropped : visible (cs.takeWhile endsLine) = [] := by
    refine Text.visible_eq_nil fun c member => ?_
    have ends := List.all_eq_true.mp List.all_takeWhile c member
    unfold endsLine at ends
    unfold Text.isLayoutSpace
    grind
  have whole := congrArg visible (List.takeWhile_append_dropWhile (p := endsLine) (l := cs))
  rwa [visible_append, dropped, List.nil_append] at whole

/-- Behind a pragma, everything is seen as without it. -/
theorem exists_insert {body : String} {front more : List Char} (same : body.toList = front ++ more)
    (begins : ∀ c ∈ more.head?, endsLine c = false) : ∃ behind, (Pragma.insert body).toList = behind ++ more ∧
      visible behind = visible Pragma.comment.write ++ visible front := by
  have kept : more.dropWhile endsLine = more := by
    cases more with
    | nil => rfl
    | cons c more => exact List.dropWhile_cons_of_neg (Bool.eq_false_iff.mp (begins c rfl))
  refine ⟨Pragma.comment.write ++ ['\n', '\n'] ++ front.dropWhile endsLine, ?_, ?_⟩
  · rw [Pragma.toList_insert, same, List.dropWhile_append]
    split
    · next none => simp [List.isEmpty_iff.mp none, kept]
    · simp
  · rw [visible_append, visible_append, visible_dropWhile_endsLine]
    exact congrArg (· ++ _) (List.append_nil _)

theorem isMarkupSpace_of_endTagBegins (preformatted : element.IsPreformatted) {tag : List Char}
    (begins : element.EndTagBegins tag) : tag ≠ [] ∧ ∀ c ∈ tag, isMarkupSpace c = false := by
  have solid {tag : List Char} (none : tag.any isMarkupSpace = false) : ∀ c ∈ tag, isMarkupSpace c = false :=
    fun c member => Bool.eq_false_iff.mpr (List.any_eq_false.mp none c member)
  have known : ∀ name, name = "pre" ∨ name = "textarea" ∨ name = "listing" →
      ("</" ++ name).toList.any isMarkupSpace = false := by
    rintro name (rfl | rfl | rfl) <;> decide
  obtain rfl | rfl := begins
  · exact ⟨by decide, solid (by decide)⟩
  · rw [preformatted.rawName_eq]
    exact ⟨by simp, solid (known _ preformatted.name)⟩

variable {page : Page} {id child : NodeId}

/-- The tags of an element that is laid out tell its name, unless the source has an end tag without one. -/
theorem closingStartText_begins (kind : page.tree.kind id = .element element) (kept : page.tree.isIgnored id = false)
    (around : ∀ parent, page.tree.parent? id = some parent → page.tree.preservesContent parent = false) :
    element.EndTagBegins (page.closingStartText id).toList := by
  have printed : page.omitsClosingTag id = false := by
    have outside : ((page.tree.parent? id).any page.tree.preservesContent) = false := by
      cases above : page.tree.parent? id with
      | none => rfl
      | some parent => exact around parent above
    unfold Page.omitsClosingTag
    dsimp only
    rw [kept, outside, Bool.or_false, Bool.and_false]
  unfold Page.closingStartText
  rw [printed, if_neg Bool.false_ne_true, kind]
  dsimp only
  split
  · exact .inl rfl
  · exact .inr rfl

/-! ### From the annotated tree to the output -/

variable {root fragment : Fragment} {tree : Tree}

theorem preformatted_of_showsText (source : String) (at_id : root.preorder[id]? = some fragment)
    (preformatted : element.IsPreformatted) (some : text.all isMarkupSpace = false)
    (shows : Annotate.ShowsText element start text fragment) :
    ∃ child, (Tree.ofRoot source root).children id = [child] ∧
      (Tree.ofRoot source root).kind child = .text (String.ofList text) ∧
      (((Tree.ofRoot source root).node id).display ≠ .none →
        Page.Preformatted (Tree.ofRoot source root) id child text) := by
  obtain ⟨tells, info, children, isText, unspaced⟩ := shows.text some
  have sensitive := shows.sensitive
  have elementKind := shows.kind
  obtain ⟨outer, _⟩ := fragment
  obtain rfl : _ = [Fragment.node info []] := children
  obtain ⟨child, isChild, at_child⟩ := Tree.exists_mem_children_ofRoot source at_id
    (List.mem_singleton_self _)
  have only : (Tree.ofRoot source root).children id = [child] := by
    rw [Tree.children_ofRoot at_id] at isChild
    rw [Tree.children_ofRoot at_id, List.mem_singleton.mp isChild]
    rfl
  have told : ((Tree.ofRoot source root).node id).toNodeInfo = outer := Tree.info_ofRoot at_id
  have toldInside : ((Tree.ofRoot source root).node child).toNodeInfo = info := Tree.info_ofRoot at_child
  generalize Tree.ofRoot source root = tree at *
  have kind : tree.kind id = .element element := (congrArg (·.kind) told).trans elementKind
  have inside : tree.kind child = .text (String.ofList text) := (congrArg (·.kind) toldInside).trans isText
  obtain ⟨leading, trailing⟩ := sensitive _ (List.mem_singleton_self _)
  have preLike := preformatted.isPreLike
  have whitespace : isWhitespaceSensitive outer.kind = true := by
    unfold isWhitespaceSensitive
    rw [show outer.kind = _ from elementKind, preLike, Bool.or_true]
  have indentation : Annotate.isIndentationSensitive outer.kind = true := by
    rw [show outer.kind = _ from elementKind]
    exact preLike
  refine ⟨child, only, inside, fun displayed => ⟨⟨element, kind⟩, ?_, only, inside, ⟨?_, ?_⟩, ⟨?_, ?_⟩, ?_, ?_⟩⟩
  · rw [kind]
    exact preformatted.isScriptLike
  · exact (congrArg (·.flags.whitespaceSensitive) told).trans (tells.whitespace.trans whitespace)
  · exact (congrArg (·.flags.indentationSensitive) told).trans (tells.indentation.trans indentation)
  · exact (congrArg (·.flags.leadingSpaces) toldInside).trans unspaced.1
  · exact (congrArg (·.flags.trailingSpaces) toldInside).trans unspaced.2
  · exact (congrArg (·.flags.leadingSensitive) toldInside).trans leading
  · refine (congrArg (·.flags.trailingSensitive) toldInside).trans (trailing ?_)
    rwa [show (tree.node id).display = _ from congrArg (·.display) told] at displayed

/-- The page shows the text of an element between its tags, behind what is seen before it. -/
def ShowsBetweenTags (page : Page) (element : Element) (text seen : List Char) : Prop :=
  ∃ tag lead, element.EndTagBegins tag ∧ seen = lead ++ ['>'] ∧
    Print.Printing.Yields page.print (Doc.Shows (Page.betweenTags text tag) lead)

variable (shaped : page.tree.Shaped) (declines : page.Declines) (preformatted : element.IsPreformatted)

include shaped declines preformatted

theorem showsBetweenTags_of_preformatted (kind : page.tree.kind id = .element element)
    (holds : Page.Preformatted page.tree id child text) (laidOut : page.tree.LaidOut id) :
    ∃ seen, SeenBefore page element text id seen ∧ ShowsBetweenTags page element text seen := by
  have begins : element.EndTagBegins (page.closingStartText id).toList := by
    cases laidOut with
    | root =>
      rw [shaped.root] at kind
      cases kind
    | child around _ _ member kept _ =>
      refine closingStartText_begins kind kept fun parent above => ?_
      rw [shaped.numbered.parent_of_mem member] at above
      cases above
      exact Page.preservesContent_of_laidOut shaped around
  obtain ⟨nonempty, unbroken⟩ := isMarkupSpace_of_endTagBegins preformatted begins
  obtain ⟨flat, solid⟩ := Text.ends_of_unbroken unbroken nonempty
  have shows := Page.shows_print shaped declines laidOut fun depth deep =>
    holds.shows_printNode shaped declines (Page.isIgnored_of_laidOut shaped laidOut)
      (Page.preservesContent_of_laidOut shaped laidOut) rfl flat solid deep
  exact ⟨_, .kept holds.only, _, _, begins, holds.spelledUpTo_eq shaped laidOut, shows⟩

theorem showsBetweenTags_of_infix {parent : NodeId} {value tag : List Char}
    (tells : TellsContent (page.tree.node parent).toNodeInfo) (member : id ∈ page.tree.children parent)
    (isText : page.tree.kind id = .text (String.ofList value)) (begins : element.EndTagBegins tag)
    (inside : '>' :: (text ++ tag) <:+: value) (unbroken : ∀ c ∈ text, isMarkupSpace c = false)
    (laidOut : page.tree.LaidOut id) :
    ∃ seen, SeenBefore page element text id seen ∧ ShowsBetweenTags page element text seen := by
  have above := shaped.numbered.parent_of_mem member
  obtain ⟨notScript, notExpression⟩ : isScriptLike (page.tree.kind parent) = false ∧
      (page.tree.kind parent).isInterpolation = false := by
    cases laidOut with
    | root =>
      rw [shaped.root] at isText
      cases isText
    | child _ notScript notExpression inside _ _ =>
      rw [shaped.numbered.parent_of_mem inside] at above
      cases above
      exact ⟨notScript, notExpression⟩
  have solid : ∀ c ∈ '>' :: (text ++ tag), isMarkupSpace c = false :=
    List.forall_mem_cons.mpr ⟨rfl, List.forall_mem_append.mpr
      ⟨unbroken, (isMarkupSpace_of_endTagBegins preformatted begins).2⟩⟩
  have wants (ending : LineEnding) : Page.betweenTags text tag ending ('>' :: (text ++ tag)) := by
    refine ⟨[], .inl ⟨fun head => Bool.noConfusion (unbroken _ (List.mem_of_mem_head? head)), rfl⟩, ?_⟩
    rw [List.nil_append, Text.writtenChars_of_not_mem ending fun feed => Bool.noConfusion (unbroken _ feed)]
  have keeps (whitespace : (page.tree.node parent).flags.whitespaceSensitive = true) :
      (page.tree.node parent).flags.indentationSensitive = true := by
    have preLike : isWhitespaceSensitive (page.tree.kind parent) = true := tells.whitespace.symm.trans whitespace
    unfold isWhitespaceSensitive at preLike
    rw [notScript, notExpression] at preLike
    exact tells.indentation.trans preLike
  obtain ⟨front, back, content, shows⟩ := Page.shows_printNode_text solid (List.cons_ne_nil _ _) wants inside above
    notExpression keeps isText (Page.isIgnored_of_laidOut shaped laidOut) notScript
  have shows := Page.shows_print shaped declines laidOut fun depth _ => shows depth
  exact ⟨_, .merged isText begins content, _, _, begins, rfl, shows⟩

/-- An element that outlives annotating is found in the annotated tree, and its text in what is printed. -/
theorem exists_becomes (same : page.tree = Tree.ofRoot source root) (member : fragment ∈ root.preorder)
    (outlives : Outlives element start text fragment) :
    ∃ id, Becomes page.tree element start text id ∧ (text.all isMarkupSpace = false → page.tree.LaidOut id →
      (page.tree.node id).display ≠ .none →
        ∃ seen, SeenBefore page element text id seen ∧ ShowsBetweenTags page element text seen) := by
  obtain ⟨id, at_id⟩ := List.getElem?_of_mem member
  have told : (page.tree.node id).toNodeInfo = fragment.info := by
    rw [same]
    exact Tree.info_ofRoot at_id
  cases outlives with
  | inl shows =>
    have kind : page.tree.kind id = .element element := (congrArg (·.kind) told).trans shows.kind
    have starts : (page.tree.node id).startSpan = some start := (congrArg (·.startSpan) told).trans shows.starts
    cases blank : text.all isMarkupSpace with
    | true =>
      have childless : page.tree.children id = [] := by
        rw [same, Tree.children_ofRoot at_id, shows.blank blank]
        rfl
      exact ⟨id, .emptied kind starts blank childless, fun some => Bool.noConfusion some⟩
    | false =>
      obtain ⟨child, only, inside, holds⟩ := preformatted_of_showsText source at_id preformatted blank shows
      rw [← same] at only inside holds
      exact ⟨id, .kept kind starts only inside, fun _ laidOut displayed =>
        showsBetweenTags_of_preformatted shaped declines preformatted kind (holds displayed) laidOut⟩
  | inr merged =>
    obtain ⟨inner, isChild, value, isText, tag, begins, inside⟩ := merged.text
    obtain ⟨info, children⟩ := fragment
    obtain ⟨child, member, at_child⟩ := Tree.exists_mem_children_ofRoot source at_id isChild
    have kind : (Tree.ofRoot source root).kind child = .text (String.ofList value.toList) := by
      rw [String.ofList_toList]
      exact (congrArg (·.kind) (Tree.info_ofRoot at_child)).trans isText
    have tells : TellsContent (page.tree.node id).toNodeInfo := by
      rw [told]
      exact merged.tells
    rw [← same] at member kind
    exact ⟨child, .merged kind begins inside, fun _ laidOut _ =>
      showsBetweenTags_of_infix shaped declines preformatted tells member kind begins inside merged.unbroken laidOut⟩

omit shaped declines preformatted

variable {output : String}

/-- Whatever a page shows stands in the output, behind a pragma if one is put there. -/
def Renders (page : Page) (ending : LineEnding) (pragma output : List Char) : Prop :=
  ∀ (wanted : Layout.Assertion) seen, Print.Printing.Yields page.print (Doc.Shows wanted seen) →
    (pragma ≠ [] → ∀ cs, wanted ending cs → ∀ c ∈ cs.head?, endsLine c = false) →
      ∃ front cs back, visible front = pragma ++ seen ∧ wanted ending cs ∧ output = front ++ cs ++ back

theorem exists_renders_of_format (formatted : format source options = .ok output)
    (printed : isSkipped source options = false) :
    ∃ annotated, Annotate.annotate source options = .ok annotated ∧
      Renders (plainPage options annotated.tree) (options.config.lineEnding.resolve source) (pragmaInk source options)
        output.toList := by
  obtain ⟨annotated, doc, annotates, yields, rfl⟩ := exists_rendered formatted printed
  refine ⟨annotated, annotates, fun wanted seen shows begins => ?_⟩
  have apart : doc.MarksTellApart := yields _ (Page.marksTellApart_print rfl)
  let config : Layout.Config := { options.config with lineEnding := options.config.lineEnding.resolve source }
  obtain ⟨front, cs, back, sees, wants, whole, solid⟩ := Doc.shown_render (yields _ shows) apart config
  unfold pragmaInk at begins ⊢
  dsimp only
  split
  · next inserts =>
    rw [if_pos inserts] at begins
    have nonempty : cs ≠ [] := by
      rintro rfl
      obtain ⟨last, none, -⟩ := solid
      cases none
    have first : ∀ c ∈ (cs ++ back).head?, endsLine c = false := by
      rw [List.head?_append_of_ne_nil _ nonempty]
      exact begins (by decide) cs wants
    rw [List.append_assoc] at whole
    obtain ⟨behind, inserted, seenBehind⟩ := exists_insert whole first
    exact ⟨behind, cs, back, by rw [seenBehind, sees], wants, by rw [inserted, List.append_assoc]⟩
  · exact ⟨front, cs, back, by rw [sees, List.nil_append], wants, whole⟩

/-- A text that is read inside of a preformatted element is taken back wherever its end tag begins behind it. -/
theorem takesBack_of_reads (preformatted : element.IsPreformatted) {tag : List Char}
    (begins : element.EndTagBegins tag) (reads : element.Reads {} text) (clean : '\r' ∉ text) (ending : LineEnding)
    (back : List Char) : TakesBack element text tag (writtenChars ending text ++ (tag ++ back)) := by
  have known : ∀ name, name = "pre" ∨ name = "textarea" ∨ name = "listing" →
      '<' ∉ name.toList.map Char.toLower ∧ '\r' ∉ ("</" ++ name).toList ∧
        ∃ c rest, ("</" ++ name).toList = '<' :: '/' :: c :: rest ∧ Markup.isNameStart c = true := by
    rintro name (rfl | rfl | rfl) <;> exact ⟨by decide, by decide, _, _, rfl, by decide⟩
  obtain ⟨noBracket, cleanName, c, name, isName, named⟩ := known _ preformatted.name
  have tagged : '\r' ∉ tag ∧ tag.head? = some '<' := by
    obtain rfl | rfl := begins
    · exact ⟨by decide, rfl⟩
    · rw [preformatted.rawName_eq]
      exact ⟨cleanName, by rw [isName]; rfl⟩
  have bracket (back : List Char) : (tag ++ back).head? = some '<' := by
    rw [List.head?_append, tagged.2]
    rfl
  refine ⟨tag ++ normalizeChars back, ?_, List.prefix_append _ _, fun apart whole => ?_⟩
  · rw [Text.normalizeChars_writtenChars_append ending clean (by rw [bracket]; decide),
      Text.normalizeChars_append tagged.1]
  · refine reads.again noBracket (bracket _) apart ?_
    cases raw : element.hasRawContent with
    | true => exact whole (.inr raw)
    | false =>
      obtain nameless | rfl := begins
      · exact whole (.inl nameless)
      · rw [preformatted.rawName_eq, isName]
        exact Element.readText_endTag raw named _

variable {page : Page} {ending : LineEnding} {pragma seen out : List Char}

theorem Renders.standsBetweenTags (renders : Renders page ending pragma out) (preformatted : element.IsPreformatted)
    (reads : element.Reads {} text) (clean : '\r' ∉ text) (shows : ShowsBetweenTags page element text seen) :
    StandsBetweenTags element ending text (pragma ++ seen) out := by
  obtain ⟨tag, before, begins, same, shows⟩ := shows
  have first : pragma ≠ [] → ∀ cs, Page.betweenTags text tag ending cs → ∀ c ∈ cs.head?, endsLine c = false := by
    rintro - _ ⟨_, -, rfl⟩ c isFirst
    cases isFirst
    rfl
  obtain ⟨front, _, back, sees, ⟨lead, led, rfl⟩, whole⟩ := renders _ _ shows first
  have readsLed : element.Reads {} (lead ++ text) ∧ '\r' ∉ lead ++ text := by
    obtain ⟨-, rfl⟩ | rfl := led
    · exact ⟨reads, clean⟩
    · exact ⟨Element.reads_feed_iff.mpr reads, by simpa using clean⟩
  refine ⟨front, lead, tag, writtenChars ending (lead ++ text) ++ (tag ++ back), ?_, led, begins, ?_, ?_, ?_⟩
  · rw [sees, same, List.append_assoc]
  · rw [whole]
    simp only [List.append_assoc, List.cons_append]
  · rw [← List.append_assoc]
    exact List.prefix_append _ _
  · exact takesBack_of_reads preformatted begins readsLed.1 readsLed.2 ending back

theorem Renders.standsCopied (renders : Renders page ending pragma out) (shaped : page.tree.Shaped)
    (declines : page.Declines) {id : NodeId} (copied : page.tree.Copied id) :
    StandsCopied page ending pragma id out := by
  intro before part after split solid begins
  let wanted : Layout.Assertion := fun ending cs => cs = writtenChars ending part
  have shows : Print.Printing.Yields page.print (Doc.Shows wanted _) :=
    Page.shows_print_of_copied (fun _ => rfl) solid shaped declines copied split
  have first : pragma ≠ [] → ∀ cs, wanted ending cs → ∀ c ∈ cs.head?, endsLine c = false := by
    rintro inserted _ rfl c isFirst
    cases part with
    | nil => cases isFirst
    | cons d part =>
      have solid := begins inserted d rfl
      rw [Text.writtenChars_cons, if_neg (fun feed => by rw [feed] at solid; cases solid)] at isFirst
      cases isFirst
      exact solid
  obtain ⟨front, _, back, sees, rfl, whole⟩ := renders _ _ shows first
  exact ⟨front, back, sees, whole⟩

section Plain

variable {content : List Fragment} {node : Fragment} {cs : List Char}
  (read : Markup.readSource {} source.toList = .ok content) (member : node ∈ Fragment.preorderAll content)
  (plain : IsPlain element start cs node)

include read member plain

theorem reads_of_isPlain : element.Reads {} cs := by
  obtain ⟨rfl, -⟩ | only := plain.text
  · exact Element.reads_nil _ _
  · have texts := Fragment.follows_of_mem_preorderAll content
      (Fragment.allFollow_iff.mpr (Markup.readsTexts_of_readSource read)) member
    have inside : .text (String.ofList cs) ∈ node.children.map Fragment.kind := by
      rw [only]
      exact List.mem_singleton_self _
    obtain ⟨info, children⟩ := node
    have reads := (Fragment.follows_node.mp texts).1 element (String.ofList cs) plain.kind inside
    rwa [String.toList_ofList] at reads

theorem subset_of_isPlain : cs ⊆ source.toList := by
  obtain ⟨rfl, -⟩ | only := plain.text
  · exact List.nil_subset _
  · have laid : (Annotate.rootOver source content).Follows Markup.NodeInfo.spacing (Annotate.Laid source.toList) :=
      Annotate.laid_root read rfl rfl rfl
    have inside := Fragment.follows_of_mem_preorder _ laid (List.mem_cons_of_mem _ member)
    obtain ⟨⟨info, below⟩, isChild, isText⟩ := List.map_eq_singleton_iff.mp only
    obtain ⟨outer, children⟩ := node
    obtain rfl : children = [.node info below] := isChild
    obtain ⟨here, -⟩ := Fragment.follows_node.mp ((Fragment.follows_node.mp inside).2 _ (List.mem_singleton_self _))
    have cut := here.spelled (String.ofList cs) (by rw [show info.spacing.kind = _ from isText]; rfl)
    rw [String.toList_ofList] at cut
    exact cut.subset

omit read member plain in
theorem reads_afterLineFeed (reads : element.Reads {} cs) : element.Reads {} (afterLineFeed cs) := by
  unfold afterLineFeed
  split
  · exact Element.reads_feed_iff.mp reads
  · exact reads

end Plain

/-- A source that a pragma asks to leave as it is stays as it is. Otherwise each preformatted element of it that has a
text without expressions and nothing else inside, after the line feed that may follow its start tag, is still there
when the tree is annotated, with its text unless that is white space, or as a part of a word. If it is laid out and
shows, then the text stands between its tags in the output and is read there again, behind everything that is seen
before it in the annotated tree. If it is not laid out, then it is in what is copied of a node, or in code. What is
copied stands in the output as it is written. -/
theorem preformatted_of_format (formatted : format source options = .ok output) :
    (isSkipped source options = true → output = source) ∧
      (isSkipped source options = false →
        ∃ content annotated, Markup.parse (normalizeLineEndings source) {} = .ok content ∧
          Annotate.annotate source options = .ok annotated ∧
          (∀ node ∈ Fragment.preorderAll content, ∀ element start cs, IsPlain element start cs node →
            ∃ id, Becomes annotated.tree element start (afterLineFeed cs) id ∧
              ((afterLineFeed cs).all isMarkupSpace = false → annotated.tree.LaidOut id →
                (annotated.tree.node id).display ≠ .none →
                ∃ seen, SeenBefore (plainPage options annotated.tree) element (afterLineFeed cs) id seen ∧
                  StandsBetweenTags element (options.config.lineEnding.resolve source) (afterLineFeed cs)
                    (pragmaInk source options ++ seen) output.toList) ∧
              (annotated.tree.LaidOut id ∨ ∃ outer, annotated.tree.Inside outer id ∧
                (annotated.tree.Copied outer ∨ annotated.tree.HoldsCode outer))) ∧
          ∀ id, annotated.tree.Copied id →
            StandsCopied (plainPage options annotated.tree) (options.config.lineEnding.resolve source)
              (pragmaInk source options) id output.toList) := by
  refine ⟨fun skipped => ?_, fun printed => ?_⟩
  · unfold format formatWith at formatted
    rw [skipped] at formatted
    cases formatted
    rfl
  · obtain ⟨annotated, annotates, renders⟩ := exists_renders_of_format formatted printed
    obtain ⟨content, parsed, same⟩ := Annotate.exists_parsed annotates
    have read := Annotate.readSource_of_parse parsed
    have covers := Annotate.covers_of_annotate annotates
    have shaped : (plainPage options annotated.tree).tree.Shaped := covers.shaped
    refine ⟨content, annotated, parsed, annotates, fun node member element start cs plain => ?_, fun id copied =>
      renders.standsCopied shaped rfl copied⟩
    have contains := Annotate.contains_finish read options member plain
    obtain ⟨fragment, inside, outlives⟩ := contains.exists_mem_preorder
    obtain ⟨id, becomes, shows⟩ := exists_becomes shaped rfl plain.preformatted same inside outlives
    refine ⟨id, becomes, fun some laidOut displayed => ?_,
      Tree.laidOut_or_inside shaped.numbered covers.placed becomes.lt_size⟩
    have clean : '\r' ∉ afterLineFeed cs := fun inside => by
      have inSource := subset_of_isPlain read member plain ((Annotate.afterLineFeed_suffix cs).subset inside)
      rw [normalizeLineEndings, String.toList_ofList] at inSource
      exact Text.return_not_mem_normalizeChars source.toList inSource
    have reads := reads_afterLineFeed (reads_of_isPlain read member plain)
    obtain ⟨seen, before, shows⟩ := shows some laidOut displayed
    exact ⟨seen, before, renders.standsBetweenTags plain.preformatted reads clean shows⟩

/-- A preformatted text that begins with an empty line, behind a paragraph, and another one in what is left as it is. -/
def verseSource : String :=
  "<p>x</p>\n<pre>\n\na  b\n  c </pre>\n<!-- quill-ignore -->\n<div ><pre> d </pre></div>"

def verseElement : Element :=
  { name := "pre", ns := none, explicitNs := false, attributes := [], tag := .ofName "pre", nameSpan := ⟨10, 13⟩ }

/-- No other node of the source can be what becomes of the element. -/
theorem eq_of_becomes_verseSource {annotated : Annotate.Annotated}
    (annotates : Annotate.annotate verseSource {} = .ok annotated) {id : NodeId}
    (becomes : Becomes annotated.tree verseElement start text id) : id = 3 := by
  have facts : ∀ annotated ∈ (Annotate.annotate verseSource {}).toOption, annotated.tree.size = 9 ∧
      (∀ id < 9, annotated.tree.kind id = .element verseElement → id = 3) ∧
      ∀ id < 9, (annotated.tree.kind id).isText = true →
        annotated.tree.kind id ∈ ["x", "\na  b\n  c ", " d "].map NodeKind.text := by decide +kernel
  rw [annotates] at facts
  obtain ⟨size, elements, texts⟩ := facts annotated rfl
  have inside := size ▸ becomes.lt_size
  cases becomes with
  | emptied kind => exact elements id inside kind
  | kept kind => exact elements id inside kind
  | @merged value tag kind _ within =>
    have bracket : '>' ∈ value := within.subset List.mem_cons_self
    obtain ⟨said, member, same⟩ := List.mem_map.mp (texts id inside (by rw [kind]; rfl))
    have said : value = said.toList := by
      rw [kind] at same
      rw [NodeKind.text.inj same, String.toList_ofList]
    rw [said] at bracket
    have noBracket : ∀ said ∈ ["x", "\na  b\n  c ", " d "], '>' ∉ said.toList := by decide
    exact absurd bracket (noBracket _ member)

theorem laidOut_verseSource {annotated : Annotate.Annotated}
    (annotates : Annotate.annotate verseSource {} = .ok annotated) :
    annotated.tree.LaidOut 3 ∧ (annotated.tree.node 3).display ≠ .none ∧
      annotated.tree.kind 3 = .element verseElement ∧ annotated.tree.children 3 = [4] ∧
      (plainPage {} annotated.tree).spelledUpTo 4 = "<p>x</p><pre>".toList := by
  have facts : ∀ annotated ∈ (Annotate.annotate verseSource {}).toOption,
      (3 ∈ annotated.tree.children 0 ∧ isScriptLike (annotated.tree.kind 0) = false ∧
        (annotated.tree.kind 0).isInterpolation = false ∧ annotated.tree.isIgnored 3 = false ∧
        annotated.tree.preservesContent 3 = false) ∧
      (annotated.tree.node 3).display ≠ .none ∧ annotated.tree.kind 3 = .element verseElement ∧
      annotated.tree.children 3 = [4] ∧
      (plainPage {} annotated.tree).spelledUpTo 4 = "<p>x</p><pre>".toList := by decide +kernel
  rw [annotates] at facts
  obtain ⟨⟨member, notScript, notExpression, kept, printed⟩, others⟩ := facts annotated rfl
  exact ⟨.child .root notScript notExpression member kept printed, others⟩

theorem copied_verseSource {annotated : Annotate.Annotated}
    (annotates : Annotate.annotate verseSource {} = .ok annotated) : annotated.tree.Copied 6 ∧
      ((plainPage {} annotated.tree).copiedSource 6).toList = "<div ><pre> d </pre></div>".toList ∧
      (plainPage {} annotated.tree).spelledUpToCopy 6 = "<p>x</p><pre>abc</pre><!--quill-ignore-->".toList := by
  have facts : ∀ annotated ∈ (Annotate.annotate verseSource {}).toOption,
      (6 ∈ annotated.tree.children 0 ∧ (annotated.tree.kind 0).isInterpolation = false ∧
        annotated.tree.isIgnored 6 = true) ∧
      ((plainPage {} annotated.tree).copiedSource 6).toList = "<div ><pre> d </pre></div>".toList ∧
      (plainPage {} annotated.tree).spelledUpToCopy 6 = "<p>x</p><pre>abc</pre><!--quill-ignore-->".toList := by
    decide +kernel
  rw [annotates] at facts
  obtain ⟨⟨member, notExpression, ignored⟩, others⟩ := facts annotated rfl
  exact ⟨.child .root notExpression member (.inl ignored), others⟩

theorem preformatted_of_format_verseSource : ∃ output, format verseSource {} = .ok output ∧
    StandsBetweenTags verseElement .lf "\na  b\n  c ".toList "<p>x</p><pre>".toList output.toList ∧
    ∃ front back, visible front = "<p>x</p><pre>abc</pre><!--quill-ignore-->".toList ∧
      output.toList = front ++ "<div ><pre> d </pre></div>".toList ++ back := by
  have read : ∀ content ∈ (Markup.parse (normalizeLineEndings verseSource) {}).toOption,
      ∃ node ∈ Fragment.preorderAll content, node.kind = .element verseElement ∧
        node.info.startSpan = some ⟨9, 14⟩ ∧ node.children.map Fragment.kind = [.text "\n\na  b\n  c "] := by
    decide +kernel
  cases parsed : Markup.parse (normalizeLineEndings verseSource) {} with
  | error failure =>
    have readable : (Markup.parse (normalizeLineEndings verseSource) {}).isOk = true := by decide +kernel
    rw [parsed] at readable
    cases readable
  | ok content =>
    obtain ⟨output, formatted⟩ := @exists_format_of_parse _ {} _ parsed
    obtain ⟨_, annotated, parsed, annotates, each, copies⟩ :=
      (preformatted_of_format formatted).2 (by decide +kernel)
    rw [parsed] at read
    obtain ⟨node, member, kind, starts, text⟩ := read _ rfl
    have plain : IsPlain verseElement ⟨9, 14⟩ "\n\na  b\n  c ".toList node :=
      ⟨kind, ⟨.inl rfl, rfl⟩, starts, .inr (by rw [text, String.ofList_toList]), by decide +kernel⟩
    obtain ⟨id, becomes, stands, -⟩ := each node member verseElement ⟨9, 14⟩ _ plain
    obtain rfl := eq_of_becomes_verseSource annotates becomes
    obtain ⟨laidOut, displayed, isElement, only, spelled⟩ := laidOut_verseSource annotates
    have dropped : afterLineFeed "\n\na  b\n  c ".toList = "\na  b\n  c ".toList := by decide
    rw [dropped] at stands
    obtain ⟨seen, before, stands⟩ := stands (by decide) laidOut displayed
    have same : seen = "<p>x</p><pre>".toList := by
      cases before with
      | @kept child alone =>
        obtain rfl : child = 4 := List.singleton_inj.mp (alone.symm.trans only)
        exact spelled
      | merged isText => exact NodeKind.noConfusion (isElement.symm.trans isText)
    obtain ⟨copied, isSource, upTo⟩ := copied_verseSource annotates
    have whole : ((plainPage {} annotated.tree).copiedSource 6).toList =
        [] ++ "<div ><pre> d </pre></div>".toList ++ [] := by rw [isSource, List.append_nil, List.nil_append]
    have unprefixed : pragmaInk verseSource {} = [] := by decide
    obtain ⟨front, back, sees, stays⟩ := copies 6 copied [] _ [] whole ⟨'>', by decide, by decide⟩
      fun inserted => absurd unprefixed inserted
    rw [unprefixed, upTo] at sees
    refine ⟨output, formatted, same ▸ stands, front, back, sees, ?_⟩
    rw [stays]
    exact congrArg (front ++ · ++ back) (by decide)

end MarkupFormat.Format
