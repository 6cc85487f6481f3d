import MarkupFormat.Proofs.Layout.Unbroken

/-!
# Layout keeps the texts

Rendering puts blanks and line endings between the texts of a document and takes blanks away again. The
ink of a document is what is left of its texts without these: the same characters in the same order
whatever the configuration, however groups and fills are laid out and whichever nodes are shared.
`visible_render` shows this for the nodes that a walk of the document enters.
-/

namespace MarkupFormat.Text

/-- Whether a layout may put `c` between texts: a blank or a part of a line ending. -/
def isLayoutSpace (c : Char) : Bool :=
  isLineBlank c || c = '\r' || c = '\n'

/-- The characters of a text that no layout adds or removes. -/
def visible (cs : List Char) : List Char :=
  cs.filter fun c => !isLayoutSpace c

@[simp]
theorem visible_nil : visible [] = [] := rfl

@[simp]
theorem visible_append (cs ds : List Char) : visible (cs ++ ds) = visible cs ++ visible ds :=
  List.filter_append ..

theorem visible_eq_nil {cs : List Char} (space : ∀ c ∈ cs, isLayoutSpace c = true) : visible cs = [] := by
  unfold visible
  rw [List.filter_eq_nil_iff]
  intro c member
  rw [space c member]
  nofun

theorem visible_of_all_blank {cs : List Char} (blank : cs.all isLineBlank = true) : visible cs = [] := by
  apply visible_eq_nil
  intro c member
  unfold isLayoutSpace
  rw [List.all_eq_true.mp blank c member]
  rfl

theorem visible_lineEnding (ending : LineEnding) : visible ending.text.toList = [] := by
  cases ending <;> decide

theorem visible_writtenChars (ending : LineEnding) (cs : List Char) :
    visible (writtenChars ending cs) = visible cs := by
  induction cs with
  | nil => rfl
  | cons c cs ih =>
    rw [writtenChars_cons, visible_append, ih]
    show _ = visible ([c] ++ cs)
    rw [visible_append]
    by_cases feed : c = '\n'
    · rw [if_pos feed, visible_lineEnding, feed]
      rfl
    · rw [if_neg feed]

end MarkupFormat.Text

namespace MarkupFormat.Layout

open Text (isLayoutSpace isLineBlank visible visible_append writtenChars)

/-! ### Nodes of a document -/

namespace Doc

/-- The nodes of a document in the order in which a walk enters them. A group with alternatives is
entered for its body. -/
def entered (doc : Doc) : List Doc :=
  (doc.walk ⟨fun nodes node => (.proceed, node :: nodes), fun nodes _ => nodes⟩ false []).2.reverse

mutual

/-- A node and the nodes below it, each before those below it. -/
def nodes : Doc → List Doc
  | doc@(text ..) | doc@(line ..) | doc@(breakParent _) | doc@(trim _) => [doc]
  | doc@(concat _ parts) | doc@(fill _ parts) => doc :: nodesAll parts
  | doc@(indent _ body) | doc@(align _ _ body) | doc@(group _ _ body) | doc@(indentIfBreak _ body _ _)
  | doc@(label _ _ body) | doc@(choice _ _ body _ _) => doc :: body.nodes
  | doc@(ifBreak _ broken flat _) => doc :: (broken.nodes ++ flat.nodes)

/-- The nodes of several documents. -/
def nodesAll : List Doc → List Doc
  | [] => []
  | doc :: docs => doc.nodes ++ nodesAll docs

end

theorem nodes_eq_cons (doc : Doc) : doc.nodes = doc :: nodesAll (doc.children false) := by
  cases doc <;> simp [nodes, nodesAll, children]

theorem mem_nodesAll {docs : List Doc} {node : Doc} :
    node ∈ nodesAll docs ↔ ∃ doc ∈ docs, node ∈ doc.nodes := by
  induction docs with
  | nil => simp [nodesAll]
  | cons doc docs ih => simp [nodesAll, ih]

/-- The nodes that pending frames are still to enter. -/
def pendingNodes : List Frame → List Doc
  | [] => []
  | .enter doc :: frames => doc.nodes ++ pendingNodes frames
  | .leave _ :: frames => pendingNodes frames

theorem pendingNodes_enter_append (docs : List Doc) (frames : List Frame) :
    pendingNodes (docs.map .enter ++ frames) = nodesAll docs ++ pendingNodes frames := by
  induction docs with
  | nil => rfl
  | cons doc docs ih =>
    simp only [List.map_cons, List.cons_append, pendingNodes, nodesAll, ih, List.append_assoc]

theorem walk_pendingNodes (frames : List Frame) (met : List Doc) :
    (Layout.walk ⟨fun nodes node => (.proceed, node :: nodes), fun nodes _ => nodes⟩ false met
      frames).2 = (pendingNodes frames).reverse ++ met := by
  fun_induction Layout.walk with
  | case1 met => rfl
  | case2 met doc frames ih => exact ih
  | case3 met doc frames after entered => cases entered
  | case4 met doc frames after entered => cases entered
  | case5 met doc frames after entered ih =>
    cases entered
    rw [ih, pendingNodes_enter_append]
    simp only [pendingNodes, nodes_eq_cons doc, List.cons_append, List.reverse_cons, List.append_assoc,
      List.nil_append]

theorem entered_eq_nodes (doc : Doc) : doc.entered = doc.nodes := by
  unfold entered Doc.walk
  rw [walk_pendingNodes, List.append_nil, List.reverse_reverse]
  exact List.append_nil _

/-! ### Ink -/

mutual

/-- The characters of the texts of a document that no layout changes, in order. Of two bodies of which
one is laid out the flat one counts. -/
def ink : Doc → List Char
  | text _ content => visible content.toList
  | concat _ parts | fill _ parts => inkAll parts
  | indent _ body | align _ _ body | group _ _ body | indentIfBreak _ body _ _ | label _ _ body
  | choice _ _ body _ _ => body.ink
  | ifBreak _ _ flat _ => flat.ink
  | line .. | breakParent _ | trim _ => []

/-- The ink of several documents. -/
def inkAll : List Doc → List Char
  | [] => []
  | doc :: docs => doc.ink ++ inkAll docs

end

theorem inkAll_append (docs more : List Doc) : inkAll (docs ++ more) = inkAll docs ++ inkAll more := by
  induction docs with
  | nil => rfl
  | cons doc docs ih => simp only [List.cons_append, inkAll, ih, List.append_assoc]

/-- Whether a node writes the same ink in every layout of its children: it has no alternatives, trims
nothing and aligns by columns only, and of two bodies it does not matter which one is laid out. -/
def isSteady : Doc → Bool
  | choice .. | trim _ | align _ (.text _) _ => false
  | ifBreak _ broken flat _ => broken.ink == flat.ink
  | _ => true

/-- Whether every node of a document writes the same ink in every layout. -/
def Steady (doc : Doc) : Prop :=
  ∀ node ∈ doc.nodes, node.isSteady = true

theorem Steady.self {doc : Doc} (steady : doc.Steady) : doc.isSteady = true :=
  steady doc (by rw [nodes_eq_cons]; exact List.mem_cons_self)

theorem Steady.child {doc child : Doc} (steady : doc.Steady) (below : child ∈ doc.children false) :
    child.Steady := by
  intro node member
  refine steady node ?_
  rw [nodes_eq_cons]
  exact List.mem_cons_of_mem _ (mem_nodesAll.mpr ⟨child, below, member⟩)

end Doc

/-! ### Indentation -/

namespace Indentation

/-- An indentation that is made up of blanks, as is every root it can go back to. -/
inductive Blank : Indentation → Prop
  | intro {value : String} {length : Nat} {steps : List IndentStep} {root : Option Indentation}
      (written : value.toList.all isLineBlank = true) (noText : ∀ content, .text content ∉ steps)
      (around : ∀ outer, root = some outer → Blank outer) : Blank ⟨value, length, steps, root⟩

variable {config : Config} {indentation : Indentation}

theorem Blank.value (blank : indentation.Blank) : visible indentation.value.toList = [] := by
  cases blank with
  | intro written => exact Text.visible_of_all_blank written

theorem Blank.noText (blank : indentation.Blank) (content : String) :
    .text content ∉ indentation.steps := by
  cases blank with
  | intro _ noText => exact noText content

theorem Blank.root (blank : indentation.Blank) {outer : Indentation}
    (root : indentation.root = some outer) : outer.Blank := by
  cases blank with
  | intro _ _ around => exact around outer root

theorem blank_none : none.Blank :=
  .intro rfl (fun _ => List.not_mem_nil) nofun

theorem all_run {c : Char} (blank : isLineBlank c = true) (count : Nat) :
    (Replay.run c count).toList.all isLineBlank = true := by
  unfold Replay.run
  rw [String.toList_ofList, List.all_eq_true]
  intro d member
  rw [List.eq_of_mem_replicate member]
  exact blank

theorem all_addTabs (config : Config) {replay : Replay} (count : Nat)
    (blank : replay.value.toList.all isLineBlank = true) :
    (replay.addTabs config count).value.toList.all isLineBlank = true := by
  unfold Replay.addTabs
  rw [String.toList_append, List.all_append, blank, all_run (by decide)]
  rfl

theorem all_addSpaces {replay : Replay} (count : Nat) (blank : replay.value.toList.all isLineBlank = true) :
    (replay.addSpaces count).value.toList.all isLineBlank = true := by
  unfold Replay.addSpaces
  rw [String.toList_append, List.all_append, blank, all_run (by decide)]
  rfl

theorem all_flush {replay : Replay} (blank : replay.value.toList.all isLineBlank = true) :
    (replay.flush config).value.toList.all isLineBlank = true := by
  unfold Replay.flush
  split
  · exact all_addTabs config _ blank
  · exact all_addSpaces _ blank

/-- A step that adds no text leaves only blanks. -/
theorem all_step {replay : Replay} {step : IndentStep} (noText : ∀ content, step ≠ .text content)
    (blank : replay.value.toList.all isLineBlank = true) :
    (replay.step config step).value.toList.all isLineBlank = true := by
  cases step with
  | indent =>
    unfold Replay.step
    dsimp only
    split
    · exact all_addTabs config _ (all_flush blank)
    · exact all_addSpaces _ (all_flush blank)
  | text content => exact absurd rfl (noText content)
  | columns count => exact blank

theorem all_foldl {steps : List IndentStep} {replay : Replay} (noText : ∀ content, .text content ∉ steps)
    (blank : replay.value.toList.all isLineBlank = true) :
    (steps.foldl (Replay.step config) replay).value.toList.all isLineBlank = true := by
  induction steps generalizing replay with
  | nil => exact blank
  | cons step steps ih =>
    refine ih (fun content member => noText content (List.mem_cons_of_mem _ member)) ?_
    refine all_step (fun content same => noText content ?_) blank
    rw [same]
    exact List.mem_cons_self

theorem blank_ofSteps {steps : List IndentStep} {root : Option Indentation}
    (noText : ∀ content, .text content ∉ steps) (around : ∀ outer, root = some outer → outer.Blank) :
    (ofSteps config steps root).Blank := by
  refine .intro ?_ noText around
  exact all_addSpaces _ (all_foldl noText rfl)

theorem blank_push {step : IndentStep} (blank : indentation.Blank) (noText : ∀ content, step ≠ .text content) :
    (indentation.push config step).Blank := by
  refine blank_ofSteps (fun content member => ?_) fun outer root => blank.root root
  rcases List.mem_append.mp member with member | member
  · exact blank.noText content member
  · exact noText content (List.mem_singleton.mp member).symm

theorem blank_indent (blank : indentation.Blank) : (indentation.indent config).Blank :=
  blank_push blank nofun

theorem blank_align {kind : AlignKind} (blank : indentation.Blank) (noText : ∀ content, kind ≠ .text content) :
    (indentation.align config kind).Blank := by
  cases kind with
  | width columns =>
    unfold align
    dsimp only
    split
    · exact blank
    · exact blank_push blank nofun
  | text content => exact absurd rfl (noText content)
  | dedent =>
    refine blank_ofSteps (fun content member => ?_) fun outer root => blank.root root
    exact blank.noText content (List.dropLast_subset _ member)
  | dedentToRoot =>
    unfold align
    cases root : indentation.root with
    | none => exact blank_none
    | some outer => exact blank.root root
  | markAsRoot =>
    cases blank with
    | intro written noText around =>
      refine .intro written noText fun outer same => ?_
      cases same
      exact .intro written noText around

end Indentation

/-! ### Rendering -/

/-- A command that writes the same ink in every layout. -/
structure Command.Steady (command : Command) : Prop where
  doc : command.doc.Steady
  indentation : command.indentation.Blank

/-- The ink of waiting nodes. -/
def Command.ink (pending : List Command) : List Char :=
  Doc.inkAll (pending.map (·.doc))

theorem Command.ink_append (first second : List Command) :
    Command.ink (first ++ second) = Command.ink first ++ Command.ink second := by
  unfold Command.ink
  rw [List.map_append, Doc.inkAll_append]

theorem Command.ink_map_on (command : Command) (mode : Mode) (docs : List Doc) :
    Command.ink (docs.map (command.on mode)) = Doc.inkAll docs := by
  unfold Command.ink
  rw [List.map_map]
  exact congrArg Doc.inkAll (List.map_id docs)

theorem Emitter.visible_trim (out : Emitter) : visible out.trim.chars = visible out.chars := by
  have split : out.chars = out.trim.chars ++ (out.reversed.takeWhile isLineBlank).reverse := by
    unfold trim chars
    rw [← List.reverse_append, List.takeWhile_append_dropWhile]
  have blank : (out.reversed.takeWhile isLineBlank).reverse.all isLineBlank = true := by
    rw [List.all_reverse, List.all_takeWhile]
  rw [split, visible_append, Text.visible_of_all_blank blank, List.append_nil]

namespace RenderContext

variable {context : RenderContext} {state : RenderState} {command : Command} {rest : List Command}

theorem visible_writeText (content : String) :
    visible (context.writeText state content).out.chars =
      visible state.out.chars ++ visible content.toList := by
  unfold writeText
  rw [Emitter.chars_emit, Text.toList_writeLineEndings, visible_append, Text.visible_writtenChars]

theorem visible_breakLine {kind : LineKind} {indentation : Indentation} (blank : indentation.Blank) :
    visible (context.breakLine state kind indentation).out.chars = visible state.out.chars := by
  unfold breakLine
  dsimp only
  split
  · cases root : indentation.root with
    | none =>
      simp only [Emitter.newline, Emitter.chars_emit, visible_append, Text.visible_lineEnding,
        List.append_nil]
    | some outer =>
      simp only [Emitter.newline, Emitter.chars_emit, visible_append, Text.visible_lineEnding,
        (blank.root root).value, List.append_nil]
  · simp only [Emitter.newline, Emitter.chars_emit, visible_append, Text.visible_lineEnding, blank.value,
      Emitter.visible_trim, List.append_nil]

theorem visible_writeLine {kind : LineKind} {indentation : Indentation} {mode : Mode}
    (blank : indentation.Blank) :
    visible (context.writeLine state kind indentation mode).out.chars = visible state.out.chars := by
  unfold writeLine
  split
  · rfl
  · rw [Emitter.chars_emit, visible_append]
    exact List.append_nil _
  · exact visible_breakLine blank
  · exact visible_breakLine blank

theorem ink_openFill (command : Command) (mark : Mark) (parts : List Doc) :
    Command.ink (context.openFill state command mark parts) = Doc.inkAll parts := by
  unfold openFill
  split
  · rfl
  · dsimp only
    split
    · rfl
    · rfl
  · rfl
  · simp only [Command.ink, Command.on, List.map_cons, List.map_nil, Doc.inkAll, Doc.ink, List.append_nil]

theorem steady_openFill {mark : Mark} {parts : List Doc} (blank : command.indentation.Blank)
    (steady : ∀ part ∈ parts, part.Steady) :
    ∀ other ∈ context.openFill state command mark parts, other.Steady := by
  intro other member
  rcases mem_openFill member with ⟨mode, part, inside, rfl⟩ | ⟨before, later, rfl, rfl⟩
  · exact ⟨steady part inside, blank⟩
  · refine ⟨fun node member => ?_, blank⟩
    rcases List.mem_cons.mp member with rfl | below
    · rfl
    · obtain ⟨part, inside, member⟩ := Doc.mem_nodesAll.mp below
      exact steady part (List.mem_append_right before inside) node member

/-- The commands that replace a steady one are steady. -/
theorem steady_renderStep (steady : command.Steady) :
    ∀ other ∈ (context.renderStep state rest command).2, other.Steady := by
  have self := steady.doc.self
  -- A body that is laid out in the place of the node, with some indentation.
  have body {doc : Doc} {mode : Mode} {indentation : Indentation} (below : doc ∈ command.doc.children false)
      (blank : indentation.Blank) : ∀ other ∈ [(⟨indentation, mode, doc⟩ : Command)], other.Steady := by
    intro other member
    rw [List.mem_singleton.mp member]
    exact ⟨steady.doc.child below, blank⟩
  unfold renderStep
  cases doc : command.doc <;> rw [doc] at self <;> dsimp only
  case text => nofun
  case line => nofun
  case breakParent => nofun
  case trim => cases self
  case choice => cases self
  case concat mark parts =>
    intro other member
    obtain ⟨part, inside, rfl⟩ := List.mem_map.mp member
    exact ⟨steady.doc.child (by rw [doc]; exact inside), steady.indentation⟩
  case indent mark inner =>
    exact body (by rw [doc]; exact List.mem_cons_self) (Indentation.blank_indent steady.indentation)
  case align mark kind inner =>
    refine body (by rw [doc]; exact List.mem_cons_self) (Indentation.blank_align steady.indentation ?_)
    rintro content rfl
    cases self
  case group mark info inner =>
    obtain ⟨mode, same⟩ := chosen_openGroup context state rest command mark info inner
    rw [same]
    exact body (by rw [doc]; exact List.mem_cons_self) steady.indentation
  case fill mark parts =>
    exact steady_openFill steady.indentation fun part inside => steady.doc.child (by rw [doc]; exact inside)
  case ifBreak mark broken flat id =>
    refine body ?_ steady.indentation
    rw [doc]
    split
    · exact List.mem_cons_self
    · exact List.mem_cons_of_mem _ List.mem_cons_self
  case indentIfBreak mark inner id negate =>
    split
    · exact body (by rw [doc]; exact List.mem_cons_self) steady.indentation
    · exact body (by rw [doc]; exact List.mem_cons_self) (Indentation.blank_indent steady.indentation)
  case label mark name inner => exact body (by rw [doc]; exact List.mem_cons_self) steady.indentation

/-- A step moves ink from the waiting node to the output. -/
theorem visible_renderStep (steady : command.Steady) :
    visible (context.renderStep state rest command).1.out.chars ++
        Command.ink (context.renderStep state rest command).2 =
      visible state.out.chars ++ command.doc.ink := by
  have self := steady.doc.self
  have single (other : Command) : Command.ink [other] = other.doc.ink := List.append_nil _
  unfold renderStep
  cases doc : command.doc <;> rw [doc] at self <;> dsimp only
  case text mark content =>
    rw [visible_writeText]
    exact List.append_nil _
  case line mark kind =>
    rw [visible_writeLine steady.indentation]
    rfl
  case breakParent => rfl
  case trim => cases self
  case choice => cases self
  case concat mark parts =>
    rw [Command.ink_map_on]
    rfl
  case fill mark parts =>
    rw [ink_openFill]
    rfl
  case group mark info inner =>
    obtain ⟨mode, same⟩ := chosen_openGroup context state rest command mark info inner
    rw [same, single]
    rfl
  case ifBreak mark broken flat id =>
    have agree : broken.ink = flat.ink := by simpa [Doc.isSteady] using self
    rw [single]
    split
    · exact congrArg (visible state.out.chars ++ ·) agree
    · rfl
  case indentIfBreak mark inner id negate =>
    rw [single]
    split
    · rfl
    · rfl
  all_goals
    rw [single]
    rfl

/-- The ink that was written and the ink that waits are `total`, and what waits is steady. -/
def Carries (total : List Char) (moment : Moment) : Prop :=
  (∀ command ∈ moment.pending, command.Steady) ∧
    visible moment.state.out.chars ++ Command.ink moment.pending = total

theorem carries_advance {total : List Char} (carries : Carries total ⟨state, command :: rest⟩) :
    Carries total (context.advance state command rest) := by
  obtain ⟨steady, whole⟩ := carries
  have head := steady command List.mem_cons_self
  refine ⟨fun other member => ?_, ?_⟩
  · rcases List.mem_append.mp member with inside | later
    · exact steady_renderStep head other inside
    · exact steady other (List.mem_cons_of_mem _ later)
  · show visible (context.renderStep state rest command).1.out.chars ++
      Command.ink ((context.renderStep state rest command).2 ++ rest) = total
    rw [Command.ink_append, ← List.append_assoc, visible_renderStep head, List.append_assoc]
    exact whole

/-- Rendering steady nodes writes their ink, in their order. -/
theorem visible_run {pending : List Command} (steady : ∀ command ∈ pending, command.Steady) :
    visible (context.run state pending).out.chars = visible state.out.chars ++ Command.ink pending := by
  have reached := context.reaches_end state pending
  have carries : Carries (visible state.out.chars ++ Command.ink pending) ⟨state, pending⟩ := ⟨steady, rfl⟩
  have last := reached.preserves (fun _ _ _ => carries_advance) carries
  rw [← last.2]
  exact (List.append_nil _).symm

end RenderContext

namespace Doc

theorem visible_render_eq_ink {doc : Doc} (steady : doc.Steady) (config : Config) :
    visible (doc.render config).toList = doc.ink := by
  have pending : ∀ command ∈ [(⟨.none, .broken, doc⟩ : Command)], command.Steady := by
    intro command member
    rw [List.mem_singleton.mp member]
    exact ⟨steady, Indentation.blank_none⟩
  unfold render renderInto Emitter.text
  rw [String.toList_ofList, RenderContext.visible_run pending]
  exact List.append_nil _

/-- Whether a node is neither a choice of what is laid out nor a trim, and aligns by columns only. -/
def isFlowing : Doc → Bool
  | choice .. | ifBreak .. | trim _ | align _ (.text _) _ => false
  | _ => true

theorem isSteady_of_isFlowing {doc : Doc} (flowing : doc.isFlowing = true) : doc.isSteady = true := by
  cases doc <;> first | rfl | cases flowing | skip
  case align mark kind body => cases kind <;> first | rfl | cases flowing

/-- The texts of some nodes, one after the other. -/
def textsOf (nodes : List Doc) : List Char :=
  (nodes.filterMap Doc.text?).flatMap String.toList

theorem textsOf_append (nodes more : List Doc) : textsOf (nodes ++ more) = textsOf nodes ++ textsOf more := by
  unfold textsOf
  rw [List.filterMap_append, List.flatMap_append]

mutual

/-- Where nothing depends on the layout, the ink is that of all texts. -/
theorem ink_eq_visible_nodes : ∀ (doc : Doc), (∀ node ∈ doc.nodes, node.isFlowing = true) →
    doc.ink = visible (textsOf doc.nodes)
  | text mark content, _ => by simp [ink, nodes, textsOf, text?]
  | line .., _ | breakParent _, _ | trim _, _ => rfl
  | concat _ parts, flowing | fill _ parts, flowing =>
    inkAll_eq_visible_nodes parts fun node member => flowing node (List.mem_cons_of_mem _ member)
  | indent _ body, flowing | align _ _ body, flowing | group _ _ body, flowing
  | indentIfBreak _ body _ _, flowing | label _ _ body, flowing | choice _ _ body _ _, flowing =>
    ink_eq_visible_nodes body fun node member => flowing node (List.mem_cons_of_mem _ member)
  | ifBreak .., flowing => nomatch flowing _ List.mem_cons_self

theorem inkAll_eq_visible_nodes : ∀ (docs : List Doc), (∀ node ∈ nodesAll docs, node.isFlowing = true) →
    inkAll docs = visible (textsOf (nodesAll docs))
  | [], _ => rfl
  | doc :: docs, flowing => by
    have first := ink_eq_visible_nodes doc fun node member =>
      flowing node (List.mem_append_left _ member)
    have others := inkAll_eq_visible_nodes docs fun node member =>
      flowing node (List.mem_append_right _ member)
    simp only [inkAll, nodesAll, textsOf_append, visible_append, first, others]

end

/-- Whatever the configuration, the output without blanks and line endings is the texts of the document
without them, in the order in which a walk enters these. -/
theorem visible_render {doc : Doc} (flowing : ∀ node ∈ doc.entered, node.isFlowing = true)
    (config other : Config) :
    visible (doc.render config).toList = visible (textsOf doc.entered) ∧
      visible (doc.render config).toList = visible (doc.render other).toList := by
  rw [entered_eq_nodes] at flowing ⊢
  have steady : doc.Steady := fun node member => isSteady_of_isFlowing (flowing node member)
  rw [visible_render_eq_ink steady config, visible_render_eq_ink steady other]
  exact ⟨ink_eq_visible_nodes doc flowing, rfl⟩

/-- A fill of three words that stands in a group and, as the same node, indented after it. -/
def sharedWords : Doc :=
  let words := fill 1 [text 2 "a\tb", line 3 .plain, text 4 "c\n", line 5 .soft, text 6 "d"]
  concat 0 [group 7 ⟨none, false⟩ words, line 8 .hard, indent 9 words]

/-- One column or eighty, the shared words are written twice and in order. -/
theorem visible_render_sharedWords :
    (∀ node ∈ sharedWords.entered, node.isFlowing = true) ∧
      visible (sharedWords.render { printWidth := 1 }).toList = "abcdabcd".toList ∧
      visible (sharedWords.render { printWidth := 1 }).toList = visible (sharedWords.render {}).toList := by
  have flowing : ∀ node ∈ sharedWords.entered, node.isFlowing = true := by
    rw [entered_eq_nodes, ← List.all_eq_true]
    decide
  have texts : visible (textsOf sharedWords.entered) = "abcdabcd".toList := by
    rw [entered_eq_nodes]
    decide
  have same := visible_render flowing { printWidth := 1 } {}
  exact ⟨flowing, same.1.trans texts, same.2⟩

end Doc

end MarkupFormat.Layout
