import MarkupFormat.Proofs.Annotate.WrittenTags
import MarkupFormat.Proofs.Print.Nodes
import MarkupFormat.Proofs.Print.WrittenMarkers

/-!
# Source that is kept

A node that is left as it is is copied from the source, without the markers that its neighbours print for it. These
are cut off by their lengths alone. `keptText_eq_sourceText_iff` says when the markers that the neighbours print and
what is copied make up the source of the node.
-/

namespace MarkupFormat.Markup.Tree

open Annotate (Covers)

variable {tree : Tree} {id parent prev next : NodeId} {before after : List NodeId}

/-! ### What lends a marker -/

theorem mem_of_split (split : tree.children parent = before ++ id :: after) : id ∈ tree.children parent := by
  rw [split]
  exact List.mem_append_right _ List.mem_cons_self

/-- Front matter shows no white space around it, and everything else that is no text or comment has marks. -/
theorem hasMarks_of_sensitive (covers : Covers tree) (member : id ∈ tree.children parent)
    (tagged : tree.isTextLikeNode id = false)
    (shows : (tree.node id).flags.leadingSensitive = true ∨ (tree.node id).flags.trailingSensitive = true) :
    (tree.kind id).hasMarks = true := by
  unfold isTextLikeNode at tagged
  cases kind : tree.kind id with
  | root => exact absurd kind (covers.shaped.below member)
  | text | comment =>
    rw [kind] at tagged
    cases tagged
  | cdata value => exact absurd kind (covers.shaped.noCdata id value)
  | frontMatter block =>
    have inside := (covers.shaped.numbered.later member).2
    obtain ⟨leading, trailing⟩ := (covers.shaped.nodes id inside).frontMatter block kind
    obtain shows | shows := shows
    · cases leading.symm.trans shows
    · cases trailing.symm.trans shows
  | _ => rfl

theorem hasMarks_of_lendsOpeningStart (covers : Covers tree)
    (split : tree.children parent = (before ++ [prev]) ++ id :: after) (lends : tree.lendsOpeningStart id = true) :
    (tree.kind id).hasMarks = true := by
  have member := mem_of_split split
  have splitPrev : tree.children parent = before ++ prev :: id :: after := by
    rw [split, List.append_assoc]
    rfl
  have behind := (covers.shaped.numbered.linked split).2.1
  have ahead := (covers.shaped.numbered.linked splitPrev).2.2
  rw [List.getLast?_concat] at behind
  unfold lendsOpeningStart at lends
  rw [behind, Option.any_some] at lends
  unfold borrowsNextOpeningStart isGluedAfter at lends
  rw [ahead, List.head?_cons, Option.any_some] at lends
  simp only [Bool.and_eq_true, Bool.not_eq_true'] at lends
  exact hasMarks_of_sensitive covers member lends.1.1 (.inl ((covers.agrees splitPrev).symm.trans lends.2.1))

theorem hasMarks_of_borrowsPrevClosingEnd (covers : Covers tree)
    (split : tree.children parent = before ++ id :: next :: after) (borrows : tree.borrowsPrevClosingEnd next = true) :
    (tree.kind id).hasMarks = true ∧ tree.isDoctype id = false := by
  have member := mem_of_split split
  have splitNext : tree.children parent = (before ++ [id]) ++ next :: after := by
    rw [split, List.append_assoc]
    rfl
  have behind := (covers.shaped.numbered.linked splitNext).2.1
  rw [List.getLast?_concat] at behind
  unfold borrowsPrevClosingEnd isGluedBefore at borrows
  rw [behind, Option.any_some] at borrows
  simp only [Bool.and_eq_true, Bool.not_eq_true'] at borrows
  exact ⟨hasMarks_of_sensitive covers member borrows.1.2 (.inr ((covers.agrees split).trans borrows.2.1)), borrows.1.1⟩

/-- What is left as it is stands behind a comment. -/
theorem exists_comment (ignored : tree.isIgnored id = true) :
    ∃ prev value, tree.prev? id = some prev ∧ tree.kind prev = .comment value := by
  unfold isIgnored at ignored
  split at ignored
  · next value found =>
    obtain ⟨prev, behind, kind⟩ := Option.map_eq_some_iff.mp found
    exact ⟨prev, value, behind, kind⟩
  · cases ignored

theorem timesBorrowed_pos (covers : Covers tree) (member : id ∈ tree.children parent) :
    0 < tree.timesBorrowed parent := by
  have speaks : tree.isMute parent = false := by
    have childless (leaf : (tree.kind parent).canHaveChildren = false) : tree.isMute parent = false := by
      rw [covers.shaped.leaf leaf] at member
      cases member
    cases kind : tree.kind parent with
    | text | directive => exact childless (by rw [kind]; rfl)
    | _ =>
      unfold isMute
      rw [kind]
  unfold timesBorrowed
  rw [speaks, if_neg Bool.false_ne_true]
  split
  · exact Nat.one_pos
  · split
    · exact Nat.two_pos
    · exact Nat.one_pos

end MarkupFormat.Markup.Tree

namespace MarkupFormat.Print.Page

open Annotate (Annotated Covers annotate covers_of_annotate)
open Embed (Embedder)
open Format (Options)
open Layout (Build)
open Markup (NodeId NodeKind OwnedMarker Tags Tree)
open Text (Cut byteLength utf8ByteSize_eq_byteLength visible visible_append)

variable {page : Page} {id : NodeId} {start stop : Nat} {text front back : List Char}

/-! ### Copying -/

theorem copy_of_cut (cut : Cut page.source start stop text) : (page.copy start stop).toList = text := by
  unfold copy
  dsimp only
  rw [Nat.min_eq_left cut.stop_le_byteLength, Nat.min_eq_left cut.le, cut.slice_eq, String.toList_ofList]

theorem byteLength_copy_le (page : Page) (start stop : Nat) :
    byteLength (page.copy start stop).toList ≤ stop - start := by
  unfold copy Text.slice
  dsimp only
  rw [String.toList_ofList]
  cases found : Text.sliceChars? page.source (min start (min stop (byteLength page.source)))
      (min stop (byteLength page.source)) with
  | none => exact Nat.zero_le _
  | some part =>
    have bytes := (Text.sliceChars?_eq_some_iff.mp found).stop_eq
    rw [Option.getD_some]
    omega

/-- A text from which nothing is cut off at the end is kept if it begins with what is put before it, and nothing is
put after it. -/
theorem append_copy_iff (cut : Cut page.source start stop text) :
    front ++ (page.copy (start + byteLength front) stop).toList ++ back = text ↔ front <+: text ∧ back = [] := by
  constructor
  · rintro same
    obtain ⟨rest, rfl⟩ : front <+: text := ⟨_, (List.append_assoc _ _ _).symm.trans same⟩
    rw [copy_of_cut (Cut.of_append cut).2] at same
    exact ⟨List.prefix_append _ _, List.append_right_eq_self.mp same⟩
  · rintro ⟨⟨rest, rfl⟩, rfl⟩
    rw [copy_of_cut (Cut.of_append cut).2, List.append_nil]

/-- A text from which a mark is cut off at the end is kept if the mark was there and is put there once. -/
theorem append_copy_cut_iff (cut : Cut page.source start stop text) (some : back ≠ []) (more : text ≠ front)
    {times : Nat} :
    front ++ (page.copy (start + byteLength front) (stop - byteLength back)).toList ++
        (List.replicate times back).flatten = text ↔
      times = 1 ∧ ∃ middle, text = front ++ middle ++ back := by
  have copied {middle : List Char} (same : text = front ++ middle ++ back) :
      (page.copy (start + byteLength front) (stop - byteLength back)).toList = middle :=
    copy_of_cut (Cut.middle (same ▸ cut))
  constructor
  · intro same
    cases times with
    | zero =>
      -- What is cut off would have to be there without being put back.
      rw [List.replicate_zero, List.flatten_nil, List.append_nil] at same
      have bytes := cut.stop_eq
      have most := byteLength_copy_le page (start + byteLength front) (stop - byteLength back)
      have bytesBack := Text.byteLength_pos some
      rw [← same, Text.byteLength_append] at bytes
      have none : (page.copy (start + byteLength front) (stop - byteLength back)).toList = [] :=
        Text.eq_nil_of_byteLength (by omega)
      rw [none, List.append_nil] at same
      exact absurd same.symm more
    | succ times =>
      rw [List.replicate_succ', List.flatten_concat] at same
      have whole : text = front ++ ((page.copy (start + byteLength front) (stop - byteLength back)).toList ++
          (List.replicate times back).flatten) ++ back := by
        rw [← same]
        simp only [List.append_assoc]
      have nothing := List.self_eq_append_right.mp (copied whole)
      cases times with
      | zero => exact ⟨rfl, _, whole⟩
      | succ times =>
        rw [List.replicate_succ, List.flatten_cons] at nothing
        exact absurd (List.append_eq_nil_iff.mp nothing).1 some
  · rintro ⟨rfl, middle, same⟩
    rw [copied same, same]
    simp

/-! ### What is printed -/

theorem timesBorrowed_comment {value : String} (kind : page.tree.kind id = .comment value) :
    page.tree.timesBorrowed id = 1 := by
  have plain : ¬page.IsTagged id := by
    rintro (⟨element, same⟩ | ⟨condition, complete, same⟩)
    · cases kind.symm.trans same
    · cases kind.symm.trans same
  cases ignored : page.tree.isIgnored id with
  | true =>
    unfold Tree.timesBorrowed
    rw [ignored, if_pos rfl]
  | false =>
    refine timesBorrowed_eq_one ignored (preservesContent_eq_false plain) ?_
    unfold Tree.isMute
    rw [kind]

/-- The children of a node lie inside of it, so its source ends where its span does. -/
theorem sourceEnd_eq (covers : Covers page.tree) (depth : Nat) (id : NodeId) :
    page.sourceEnd depth id = (page.tree.node id).span.stop := by
  induction depth generalizing id with
  | zero => rfl
  | succ depth ih =>
    unfold sourceEnd
    dsimp only
    split
    · next last isLast =>
      have inside := (covers.within (List.mem_of_getLast? isLast)).2.2
      rw [ih, Nat.max_eq_left inside, ite_self]
    · rfl

variable (page) in
/-- A marker as often as it is printed. -/
def printedMarker (owned : OwnedMarker) : List Char :=
  (List.replicate (page.tree.timesPrinted owned) (page.markerText owned).toList).flatten

variable (page id) in
/-- What is printed of a node that is left as it is: its source without the markers that it lends, between these as
often as they are printed. -/
def keptText : List Char :=
  page.printedMarker ⟨id, .openingStart⟩ ++ (page.ignoredSource id).toList ++ page.printedMarker ⟨id, .closingEnd⟩

variable (page id) in
/-- What has to hold for a node that is left as it is to keep its source. What its neighbours print for it is what
was written, and the end of its closing tag is not left to its parent, which does not have it cut off. -/
structure KeepsSource : Prop where
  opens : page.tree.lendsOpeningStart id = true → page.rewritesOpening id = true →
    (page.openingStartText id).toList <+: (page.sourceText (page.tree.node id).span).toList
  closes : page.omitsClosingTag id = false → page.tree.lendsClosingEnd id = true →
    ∃ next, page.tree.next? id = some next ∧ page.tree.timesBorrowed next = 1 ∧
      ∀ element, page.tree.kind id = .element element → element.tag.isVoid = true →
        ['/', '>'] <:+ (page.sourceText (page.tree.node id).span).toList

theorem visible_flatten_replicate (times : Nat) (text : List Char) :
    visible (List.replicate times text).flatten = (List.replicate times (visible text)).flatten := by
  induction times with
  | zero => rfl
  | succ times ih =>
    rw [List.replicate_succ, List.flatten_cons, visible_append, ih, List.replicate_succ, List.flatten_cons]

/-- What is seen of a node that is left as it is is seen of its kept text. -/
theorem spell_of_ignored (ignored : page.tree.isIgnored id = true) (inner : List Markup.Outline) :
    page.spell (.node id inner) = visible (page.keptText id) := by
  rw [spell, spellInner, if_pos ignored]
  unfold keptText printedMarker spellMarker markerInk
  rw [visible_append, visible_append, visible_flatten_replicate, visible_flatten_replicate]

/-- The comment before a node prints the start of its opening tag once, if the node lends it. -/
theorem printedMarker_openingStart (ignored : page.tree.isIgnored id = true) :
    page.printedMarker ⟨id, .openingStart⟩ =
      if page.tree.lendsOpeningStart id then (page.openingStartText id).toList else [] := by
  obtain ⟨prev, value, behind, kind⟩ := Tree.exists_comment ignored
  unfold printedMarker Tree.timesPrinted Tree.borrower?
  dsimp only
  cases lends : page.tree.lendsOpeningStart id with
  | true =>
    rw [if_pos rfl, behind, if_pos rfl]
    dsimp only
    rw [timesBorrowed_comment kind]
    exact List.append_nil _
  | false =>
    rw [if_neg Bool.false_ne_true, if_neg Bool.false_ne_true]
    dsimp only
    rw [ignored, Bool.not_true, Bool.and_false]
    rfl

theorem printedMarker_closingEnd (ignored : page.tree.isIgnored id = true) :
    page.printedMarker ⟨id, .closingEnd⟩ =
      if page.tree.lendsClosingEnd id then
        (List.replicate (((page.tree.next? id).or (page.tree.parent? id)).elim 0 page.tree.timesBorrowed)
          (page.closingEndText id).toList).flatten
      else [] := by
  have own : (if page.tree.hasMarker ⟨id, .closingEnd⟩ && !page.tree.isIgnored id then 1 else 0) = 0 := by
    rw [ignored, Bool.not_true, Bool.and_false]
    rfl
  unfold printedMarker Tree.timesPrinted Tree.borrower?
  dsimp only
  cases page.tree.lendsClosingEnd id with
  | true =>
    rw [if_pos rfl, if_pos rfl]
    cases (page.tree.next? id).or (page.tree.parent? id) with
    | none =>
      dsimp only
      rw [own]
      rfl
    | some borrower => rfl
  | false =>
    rw [if_neg Bool.false_ne_true, if_neg Bool.false_ne_true]
    dsimp only
    rw [own]
    rfl

theorem ignoredSource_eq_copy (covers : Covers page.tree) (front back : List Char)
    (opens : front = if page.tree.lendsOpeningStart id then (page.openingStartText id).toList else [])
    (closes : back = if (page.tree.next? id).any page.tree.borrowsPrevClosingEnd then (page.closingEndText id).toList
      else []) :
    page.ignoredSource id = page.copy ((page.tree.node id).span.start + byteLength front)
      ((page.tree.node id).span.stop - byteLength back) := by
  unfold ignoredSource markerBytes
  dsimp only
  rw [sourceEnd_eq covers, opens, closes, utf8ByteSize_eq_byteLength, utf8ByteSize_eq_byteLength]
  cases page.tree.lendsOpeningStart id <;> cases (page.tree.next? id).any page.tree.borrowsPrevClosingEnd <;> rfl

/-- The end of a closing tag is empty only if it is left out. -/
theorem closingEndText_eq_nil_iff : (page.closingEndText id).toList = [] ↔ page.omitsClosingTag id = true := by
  unfold closingEndText
  cases page.omitsClosingTag id with
  | true => exact iff_of_true rfl rfl
  | false =>
    refine iff_of_false ?_ Bool.false_ne_true
    rw [if_neg Bool.false_ne_true]
    split <;> first | decide | (split <;> decide)

theorem any_borrowsPrevClosingEnd (keeps : page.tree.lendsClosingEnd id = false) :
    (page.tree.next? id).any page.tree.borrowsPrevClosingEnd = false := by
  unfold Tree.lendsClosingEnd at keeps
  cases next : page.tree.next? id with
  | none => rfl
  | some next =>
    rw [next] at keeps
    exact keeps

/-- A text or a comment lends nothing, so all of it is copied. -/
theorem ignoredSource_of_isTextLikeNode (covers : Covers page.tree) {parent : NodeId} {before after : List NodeId}
    (split : page.tree.children parent = before ++ id :: after) (isTextLike : page.tree.isTextLikeNode id = true) :
    page.tree.lendsOpeningStart id = false ∧ page.tree.lendsClosingEnd id = false ∧
      page.ignoredSource id = page.sourceText (page.tree.node id).span := by
  have leaf : page.tree.children id = [] := by
    refine covers.shaped.leaf ?_
    unfold Tree.isTextLikeNode at isTextLike
    cases kind : page.tree.kind id <;> rw [kind] at isTextLike <;> first | rfl | cases isTextLike
  obtain ⟨noOpening, noClosing⟩ :=
    Tree.borrower?_of_isTextLikeNode covers.shaped.numbered split leaf isTextLike
  have keepsStart : page.tree.lendsOpeningStart id = false := by
    rw [← Tree.isSome_borrower?_openingStart, noOpening, Option.isSome_none]
  have keepsEnd : page.tree.lendsClosingEnd id = false := by
    rw [← Tree.isSome_borrower?_closingEnd, noClosing, Option.isSome_none]
  refine ⟨keepsStart, keepsEnd, ?_⟩
  have member := Tree.mem_of_split split
  have within := (covers.within member).2.1
  have inside : (page.tree.node id).span.stop ≤ byteLength page.source := covers.stop_le member
  have source : page.ignoredSource id = page.copy _ _ :=
    ignoredSource_eq_copy covers [] [] (by rw [keepsStart]; rfl) (by rw [any_borrowsPrevClosingEnd keepsEnd]; rfl)
  rw [source]
  unfold copy sourceText Markup.Span.slice
  dsimp only [Text.byteLength_nil]
  rw [Nat.add_zero, Nat.sub_zero, Nat.min_eq_left inside, Nat.min_eq_left (Nat.le_of_lt within)]

theorem keepsSource_of_isTextLikeNode (covers : Covers page.tree) (ignored : page.tree.isIgnored id = true)
    {parent : NodeId} {before after : List NodeId} (split : page.tree.children parent = before ++ id :: after)
    (isTextLike : page.tree.isTextLikeNode id = true) :
    page.keptText id = (page.sourceText (page.tree.node id).span).toList ∧ page.KeepsSource id := by
  obtain ⟨keepsStart, keepsEnd, source⟩ := ignoredSource_of_isTextLikeNode covers split isTextLike
  refine ⟨?_, fun lends => ?_, fun _ lends => ?_⟩
  · unfold keptText
    rw [printedMarker_openingStart ignored, printedMarker_closingEnd ignored, keepsStart, keepsEnd,
      if_neg Bool.false_ne_true, if_neg Bool.false_ne_true, List.nil_append, List.append_nil, source]
  · cases keepsStart.symm.trans lends
  · cases keepsEnd.symm.trans lends

/-- The start of the opening tag is kept if it is not lent, or if it is written as it is printed. -/
theorem isPrefix_iff_of_written (known : page.WrittenAt id text)
    (marked : page.tree.lendsOpeningStart id = true → (page.tree.kind id).hasMarks = true) :
    (if page.tree.lendsOpeningStart id then (page.openingStartText id).toList else []) <+: text ↔
      (page.tree.lendsOpeningStart id = true → page.rewritesOpening id = true →
        (page.openingStartText id).toList <+: text) := by
  cases lends : page.tree.lendsOpeningStart id with
  | false => exact iff_of_true List.nil_prefix nofun
  | true =>
    rw [if_pos rfl]
    refine ⟨fun starts _ _ => starts, fun starts => ?_⟩
    cases kept : page.rewritesOpening id with
    | false => exact known.openingStartText_isPrefix (marked lends) kept
    | true => exact starts rfl kept

/-- What is put before what is copied of a node does not meet what is put after it, nor is it all of the node. -/
theorem Closes.of_lent (lends : Bool) (closes : WrittenAt.Closes page id text) (nonempty : text ≠ []) :
    text ≠ (if lends then (page.openingStartText id).toList else []) ∧
      ((if lends then (page.openingStartText id).toList else []) <+: text →
        (page.closingEndText id).toList <:+ text →
          ∃ middle, text = (if lends then (page.openingStartText id).toList else []) ++ middle ++
            (page.closingEndText id).toList) := by
  cases lends with
  | true => exact ⟨closes.more, closes.apart⟩
  | false => exact ⟨nonempty, fun _ ⟨middle, same⟩ => ⟨middle, same.symm⟩⟩

/-- The parent prints the end of its last child's closing tag at least once, and nothing is cut off for it. -/
theorem keptText_iff_of_last (covers : Covers page.tree) (ignored : page.tree.isIgnored id = true)
    {parent : NodeId} {before : List NodeId} (split : page.tree.children parent = before ++ [id])
    (known : page.WrittenAt id text) (lends : page.tree.lendsClosingEnd id = true) :
    page.keptText id = text ↔
      (if page.tree.lendsOpeningStart id then (page.openingStartText id).toList else []) <+: text ∧
      page.omitsClosingTag id = true := by
  obtain ⟨above, -, ahead⟩ := covers.shaped.numbered.linked split
  rw [List.head?_nil] at ahead
  unfold keptText
  rw [printedMarker_openingStart ignored, printedMarker_closingEnd ignored, if_pos lends, ahead,
    ignoredSource_eq_copy covers _ [] rfl (by rw [ahead]; rfl), above]
  refine (append_copy_iff known.cut).trans (and_congr_right fun _ => ?_)
  have times := Tree.timesBorrowed_pos covers (Tree.mem_of_split split)
  rw [← closingEndText_eq_nil_iff]
  constructor
  · intro none
    exact List.flatten_eq_nil_iff.mp none (page.closingEndText id).toList
      (List.mem_replicate.mpr ⟨Nat.ne_of_gt times, rfl⟩)
  · intro none
    rw [none, List.flatten_replicate_nil]

/-- The end of a closing tag is cut off for the neighbour that it is lent to, and kept if that prints it once and as it
is written. -/
theorem keptText_iff_of_borrowed (covers : Covers page.tree) (ignored : page.tree.isIgnored id = true)
    {parent next : NodeId} {before after : List NodeId}
    (split : page.tree.children parent = before ++ id :: next :: after) (known : page.WrittenAt id text)
    (borrows : page.tree.borrowsPrevClosingEnd next = true) (lends : page.tree.lendsClosingEnd id = true) :
    page.keptText id = text ↔
      (if page.tree.lendsOpeningStart id then (page.openingStartText id).toList else []) <+: text ∧
      (page.omitsClosingTag id = false → page.tree.timesBorrowed next = 1 ∧
        ∀ element, page.tree.kind id = .element element → element.tag.isVoid = true → ['/', '>'] <:+ text) := by
  obtain ⟨-, -, ahead⟩ := covers.shaped.numbered.linked split
  rw [List.head?_cons] at ahead
  unfold keptText
  rw [printedMarker_openingStart ignored, printedMarker_closingEnd ignored, if_pos lends, ahead,
    ignoredSource_eq_copy covers _ (page.closingEndText id).toList rfl
      (by rw [ahead, Option.any_some, borrows, if_pos rfl])]
  cases closed : page.omitsClosingTag id with
  | true =>
    rw [closingEndText_eq_nil_iff.mpr closed, List.flatten_replicate_nil]
    exact (append_copy_iff known.cut).trans (and_congr_right fun _ => iff_of_true rfl nofun)
  | false =>
    obtain ⟨marked, noDoctype⟩ := Tree.hasMarks_of_borrowsPrevClosingEnd covers split borrows
    have closes := known.closes ignored marked noDoctype closed
    have some : (page.closingEndText id).toList ≠ [] := by
      rw [Ne, closingEndText_eq_nil_iff, closed]
      exact Bool.false_ne_true
    have nonempty : text ≠ [] := by
      rintro rfl
      have bytes := known.cut.stop_eq
      have within := (covers.within (Tree.mem_of_split split)).2.1
      rw [Text.byteLength_nil] at bytes
      omega
    obtain ⟨more, apart⟩ := Closes.of_lent (page.tree.lendsOpeningStart id) closes nonempty
    refine (append_copy_cut_iff known.cut some more).trans ⟨?_, ?_⟩
    · rintro ⟨once, middle, same⟩
      have ends : (page.closingEndText id).toList <:+ text := ⟨_, same.symm⟩
      exact ⟨⟨_, (List.append_assoc _ _ _).symm.trans same.symm⟩, fun _ => ⟨once, closes.ends.mp ends⟩⟩
    · rintro ⟨starts, printed⟩
      obtain ⟨once, void⟩ := printed rfl
      exact ⟨once, apart starts (closes.ends.mpr void)⟩

/-- The end of the closing tag is kept unless it is printed by the parent, for which it is not cut off, or by a
neighbour that prints it twice, not at all or not as it is written. -/
theorem keptText_iff_of_written (covers : Covers page.tree) (ignored : page.tree.isIgnored id = true)
    {parent : NodeId} {before after : List NodeId} (split : page.tree.children parent = before ++ id :: after)
    (known : page.WrittenAt id text) :
    page.keptText id = text ↔
      (if page.tree.lendsOpeningStart id then (page.openingStartText id).toList else []) <+: text ∧
      (page.omitsClosingTag id = false → page.tree.lendsClosingEnd id = true →
        ∃ next, page.tree.next? id = some next ∧ page.tree.timesBorrowed next = 1 ∧
          ∀ element, page.tree.kind id = .element element → element.tag.isVoid = true → ['/', '>'] <:+ text) := by
  obtain ⟨-, -, ahead⟩ := covers.shaped.numbered.linked split
  cases lends : page.tree.lendsClosingEnd id with
  | false =>
    unfold keptText
    rw [printedMarker_openingStart ignored, printedMarker_closingEnd ignored, lends,
      ignoredSource_eq_copy covers _ [] rfl (by rw [any_borrowsPrevClosingEnd lends]; rfl), if_neg Bool.false_ne_true]
    exact (append_copy_iff known.cut).trans (and_congr_right fun _ => iff_of_true rfl nofun)
  | true =>
    rw [ahead]
    cases after with
    | nil =>
      rw [keptText_iff_of_last covers ignored split known lends]
      refine and_congr_right fun _ => ⟨fun closed closes => ?_, fun printed => ?_⟩
      · rw [closed] at closes
        cases closes
      · rw [← Bool.not_eq_false]
        intro closed
        obtain ⟨_, some, _⟩ := printed closed rfl
        cases some
    | cons next rest =>
      have borrows : page.tree.borrowsPrevClosingEnd next = true := by
        unfold Tree.lendsClosingEnd at lends
        rw [ahead] at lends
        exact lends
      rw [keptText_iff_of_borrowed covers ignored split known borrows lends]
      refine and_congr_right fun _ => ⟨fun printed closed _ => ⟨next, rfl, printed closed⟩, fun printed closed => ?_⟩
      obtain ⟨_, ⟨⟩, here⟩ := printed closed rfl
      exact here

theorem keptText_iff_of_covers (covers : Covers page.tree) (ignored : page.tree.isIgnored id = true) :
    page.keptText id = (page.sourceText (page.tree.node id).span).toList ↔ page.KeepsSource id := by
  obtain ⟨prev, _, behind, -⟩ := Tree.exists_comment ignored
  obtain ⟨parent, before, after, split⟩ := covers.exists_split behind
  cases textLike : page.tree.isTextLikeNode id with
  | true =>
    obtain ⟨same, keeps⟩ := keepsSource_of_isTextLikeNode covers ignored split textLike
    exact iff_of_true same keeps
  | false =>
    have inside : id < page.tree.size := (covers.shaped.numbered.later (Tree.mem_of_split split)).2
    have noText : (page.tree.kind id).isText = false := by
      unfold Tree.isTextLikeNode Annotate.isTextLike at textLike
      exact (Bool.or_eq_false_iff.mp textLike).1
    obtain ⟨text, cut, written, tagged⟩ := covers.written id inside noText
    have known : page.WrittenAt id text := ⟨cut, written, tagged, covers.closed id inside noText⟩
    rw [known.sourceText_eq, keptText_iff_of_written covers ignored split known, isPrefix_iff_of_written known
      (Tree.hasMarks_of_lendsOpeningStart covers split)]
    exact ⟨fun ⟨opens, closes⟩ => ⟨known.sourceText_eq ▸ opens, known.sourceText_eq ▸ closes⟩,
      fun ⟨opens, closes⟩ => ⟨known.sourceText_eq ▸ opens, known.sourceText_eq ▸ closes⟩⟩

/-- A node that is left as it is is printed as a part of the source, as it stands there. What is seen of the node is
this part between the markers that neighbours print for it. The three together are the source of the node exactly if
the markers are written there as they are printed, each is printed once, and the last one not by the parent. -/
theorem keptText_eq_sourceText_iff {source : String} {options : Options} {annotated : Annotated}
    (ok : annotate source options = .ok annotated) (embedder : Embedder)
    (ignored : annotated.tree.isIgnored id = true) :
    let page : Page := ⟨annotated.tree, options, embedder⟩
    page.printIgnored id = Build.seq [page.before id, literalText (page.ignoredSource id), page.after id] ∧
      (∀ inner, page.spell (.node id inner) = visible (page.keptText id)) ∧
        (page.keptText id = (page.sourceText (annotated.tree.node id).span).toList ↔ page.KeepsSource id) := by
  intro page
  have covers : Covers page.tree := covers_of_annotate ok
  have ignored : page.tree.isIgnored id = true := ignored
  exact ⟨rfl, spell_of_ignored ignored, keptText_iff_of_covers covers ignored⟩

/-- An element between an ignore comment and another element, all of which touch. -/
def touchingSource : String :=
  "<p>a<!-- quill-ignore --><b  id=x>c</b ><i>d</i></p>"

/-- An element behind an ignore comment whose closing tag the parent ends. -/
def endingSource : String :=
  "<span><!-- quill-ignore --><b></b></span>"

/-- Whether a node is left as it is by a comment, is written like this and kept like that. -/
def isIgnoredAs (source : String) (id : NodeId) (written kept : String) : Bool :=
  (annotate source {}).toOption.any fun annotated =>
    let page : Page := ⟨annotated.tree, {}, Embed.decline⟩
    annotated.tree.isIgnored id && (page.sourceText (annotated.tree.node id).span = written &&
      page.keptText id = kept.toList)

theorem exists_of_isIgnoredAs {source written kept : String} (known : isIgnoredAs source id written kept = true) :
    ∃ annotated, annotate source {} = .ok annotated ∧ annotated.tree.isIgnored id = true ∧
      (Page.mk annotated.tree {} Embed.decline).sourceText (annotated.tree.node id).span = written ∧
      (Page.mk annotated.tree {} Embed.decline).keptText id = kept.toList := by
  unfold isIgnoredAs at known
  cases done : annotate source {} with
  | ok annotated =>
    rw [done] at known
    simp only [Except.toOption, Option.any_some, Bool.and_eq_true, decide_eq_true_eq] at known
    exact ⟨annotated, rfl, known⟩
  | error failure =>
    rw [done] at known
    cases known

/-- Where both markers are cut off the source is kept. The end of a closing tag that the parent prints is not. -/
theorem keptText_eq_sourceText_iff_touchingSource :
    (∃ annotated, annotate touchingSource {} = .ok annotated ∧ annotated.tree.isIgnored 4 = true ∧
      (Page.mk annotated.tree {} Embed.decline).sourceText (annotated.tree.node 4).span = "<b  id=x>c</b >" ∧
      (Page.mk annotated.tree {} Embed.decline).keptText 4 = "<b  id=x>c</b >".toList ∧
      (Page.mk annotated.tree {} Embed.decline).KeepsSource 4) ∧
    ∃ annotated, annotate endingSource {} = .ok annotated ∧ annotated.tree.isIgnored 3 = true ∧
      (Page.mk annotated.tree {} Embed.decline).sourceText (annotated.tree.node 3).span = "<b></b>" ∧
      (Page.mk annotated.tree {} Embed.decline).keptText 3 = "<b></b>>".toList ∧
      ¬(Page.mk annotated.tree {} Embed.decline).KeepsSource 3 := by
  constructor
  · have known : isIgnoredAs touchingSource 4 "<b  id=x>c</b >" "<b  id=x>c</b >" = true := by decide +kernel
    obtain ⟨annotated, done, ignored, written, kept⟩ := exists_of_isIgnoredAs known
    refine ⟨annotated, done, ignored, written, kept, ?_⟩
    refine (keptText_eq_sourceText_iff done Embed.decline ignored).2.2.mp ?_
    rw [kept, written]
  · have known : isIgnoredAs endingSource 3 "<b></b>" "<b></b>>" = true := by decide +kernel
    obtain ⟨annotated, done, ignored, written, kept⟩ := exists_of_isIgnoredAs known
    refine ⟨annotated, done, ignored, written, kept, fun keeps => ?_⟩
    have same := (keptText_eq_sourceText_iff done Embed.decline ignored).2.2.mpr keeps
    rw [kept, written] at same
    exact absurd same (by decide)

/-- The slash of a void element takes the place of what is cut off. -/
example : (annotate "<span><!-- quill-ignore --><img a>x</span>" {}).toOption.map (fun annotated =>
    String.ofList ((Page.mk annotated.tree {} Embed.decline).keptText 3)) = some "<img />" := by
  decide +kernel

end MarkupFormat.Print.Page
