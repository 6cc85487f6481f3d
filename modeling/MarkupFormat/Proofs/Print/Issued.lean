import MarkupFormat.Proofs.Layout.Issued
import MarkupFormat.Proofs.Print.AttributeText

/-!
# Marks of printed pages

A page on which nothing is embedded is printed by builders and nothing else, and no document is built into two others.
So the marks tell the nodes of its document apart (`marksTellApart_print`).
-/

namespace MarkupFormat.Print

open Layout (Build Doc GroupId Supply)
open Layout.Build (Issues IssuesAll IssuesDoc issuesAll_intersperse issuesAll_splitLines issues_align
  issues_bareLine issues_bind issues_bind_of_yields issues_breakParent issues_concat issues_empty issues_fill
  issues_freshGroup issues_group issues_groupWith issues_hardline issues_ifBreakFor issues_indent issues_indentIfBreak
  issues_literalline issues_mapM issues_pure issues_seq issues_text issues_throw issues_transform_text
  yields_of_makes)
open Markup (Attribute FrontMatter NodeId Outline Tree)

variable {α β : Type} {docs : α → List Doc} {known : List Doc}

/-! ### Computations that print -/

namespace Printing

variable {printing : Printing α}

/-- What is printed is built over documents that are known, with marks issued on the way. -/
def Issues (known : List Doc) (printing : Printing α) (docs : α → List Doc) : Prop :=
  ∀ requests, Build.Issues known (printing.run requests) fun result => docs result.1

/-- A document is printed. -/
abbrev IssuesDoc (known : List Doc) (printing : Printing Doc) : Prop :=
  Issues known printing fun doc => [doc]

theorem issues_pure {value : α} (sub : docs value ⊆ known) : Issues known (pure value) docs :=
  fun _ => Build.issues_pure sub

section Bind

variable {next : α → Printing β} {after : β → List Doc} (first : Issues known printing docs)

include first

theorem issues_bind_of_yields {holds : α → Prop} (yields : Yields printing holds)
    (then_ : ∀ value, holds value → Issues (docs value ++ known) (next value) after) :
    Issues known (printing >>= next) after := by
  intro requests
  rw [StateT.run_bind]
  exact Build.issues_bind_of_yields (first requests) (yields requests) fun result here => then_ result.1 here result.2

theorem issues_bind (then_ : ∀ value, Issues (docs value ++ known) (next value) after) :
    Issues known (printing >>= next) after :=
  issues_bind_of_yields first yields_true fun value _ => then_ value

end Bind

theorem issues_lift {build : Build α} (issues : Build.Issues known build docs) :
    Issues known (liftM build) docs := by
  intro requests
  have lifted : Build.Issues known (liftM build : StateT Supply (Except Format.FormatError) α) docs := by
    intro supply result issued ran
    change (build.run supply).mapError Format.FormatError.document = .ok result at ran
    cases done : build.run supply with
    | error failure =>
      rw [done] at ran
      cases ran
    | ok made =>
      rw [done] at ran
      cases ran
      exact issues supply _ issued done
  show Build.Issues known (liftM build >>= fun value => pure (value, requests)) _
  exact Build.issues_bind lifted fun value => Build.issues_pure (List.subset_append_left _ _)

theorem issues_mapM {values : List β} {make : β → Printing Doc}
    (each : ∀ value ∈ values, ∀ more, known ⊆ more → IssuesDoc more (make value)) :
    Issues known (values.mapM make) id := by
  induction values generalizing known with
  | nil => exact issues_pure (List.nil_subset _)
  | cons value rest ih =>
    rw [List.mapM_cons]
    refine issues_bind (each value List.mem_cons_self known (List.Subset.refl _)) fun first => ?_
    refine issues_bind (ih fun other member more sub => ?_) fun others => issues_pure ?_
    · exact each other (List.mem_cons_of_mem _ member) more
        (List.Subset.trans (List.subset_append_right _ _) sub)
    · exact List.cons_subset.mpr ⟨by simp, List.subset_append_left _ _⟩

end Printing

/-! ### Texts and attributes -/

theorem issues_literalText (content : String) : IssuesDoc known (literalText content) := by
  refine issues_bind_of_yields (issues_text content) (yields_of_makes (makes_text content)) fun doc ⟨mark, same⟩ => ?_
  refine issues_bind issues_literalline fun line => ?_
  subst same
  refine issues_transform_text ?_
  dsimp only
  split
  · exact issues_bind (issuesAll_splitLines content (by simp)) fun _ => issues_concat (by simp)
  · exact issues_pure (by simp)

theorem issues_quotedAttribute (name : String) {mark : Layout.Mark} {content : String}
    (member : Doc.text mark content ∈ known) : IssuesDoc known (quotedAttribute name (.text mark content)) := by
  have escaped {more : List Doc} (member : Doc.text mark content ∈ more) :
      IssuesDoc more (escapeDoubleQuotes (.text mark content)) := by
    refine issues_transform_text ?_
    dsimp only
    split
    · exact issues_text _
    · exact issues_pure (by simpa using member)
  refine issues_seq ⟨fun _ _ => issues_text _, fun _ _ => issues_text _, fun _ sub => ?_, fun _ _ => issues_text _⟩
  exact issues_bind (escaped (sub member)) fun _ => issues_group (by simp)

theorem issues_plainAttribute (name : String) (value : List Char) : IssuesDoc known (plainAttribute name value) :=
  issues_seq ⟨fun _ _ => issues_text _, fun _ _ => issues_text _, fun _ _ => issues_text _,
    fun _ _ => issues_literalText _, fun _ _ => issues_text _⟩

/-! ### Tags -/

namespace Page

variable {page : Page} {id : NodeId}

theorem issues_borrowed (owned : Option Markup.OwnedMarker) : IssuesDoc known (page.borrowed owned) :=
  issues_text _

theorem issues_openingStart : IssuesDoc known (page.openingStart id) := by
  unfold openingStart
  split
  · exact issues_empty
  · exact issues_seq ⟨fun _ _ => issues_text _, fun _ _ => issues_text _⟩

theorem issues_openingEnd : IssuesDoc known (page.openingEnd id) := by
  unfold openingEnd
  split
  · exact issues_empty
  · exact issues_text _

theorem issues_closingStart : IssuesDoc known (page.closingStart id) := by
  unfold closingStart
  split
  · exact issues_empty
  · exact issues_seq ⟨fun _ _ => issues_text _, fun _ _ => issues_text _⟩

theorem issues_closingEnd : IssuesDoc known (page.closingEnd id) := by
  unfold closingEnd
  split
  · exact issues_empty
  · exact issues_seq ⟨fun _ _ => issues_text _, fun _ _ => issues_text _⟩

theorem issues_closingTag : IssuesDoc known (page.closingTag id) := by
  refine issues_seq ⟨fun _ _ => ?_, fun _ _ => issues_closingEnd⟩
  split
  · exact issues_empty
  · exact issues_closingStart

/-! ### Attributes -/

theorem issues_beforeBracket (stays : Bool) : IssuesDoc known (page.beforeBracket id stays) := by
  unfold beforeBracket
  split
  · exact issues_text _
  · exact issues_empty
  · exact issues_bareLine .plain
  · exact issues_bareLine .soft

variable (declines : page.Declines)

section Declines

include declines

theorem issues_embed (request : Embed.Request) : Printing.Issues known (page.embed request) Option.toList := by
  have kept : Printing.Issues known (modify (request :: ·) : Printing Unit) fun _ => [] :=
    fun _ => issues_pure (List.nil_subset _)
  have answers : Printing.Issues known (liftM (page.embedder request)) fun _ => [] := by
    rw [declines]
    exact Printing.issues_lift (issues_pure (List.nil_subset _))
  have none : Build.Yields (page.embedder request) fun answer => answer = none := by
    rw [declines]
    exact Layout.Build.yields_pure rfl
  refine Printing.issues_bind kept fun _ => ?_
  refine Printing.issues_bind_of_yields answers (Printing.yields_lift none) fun answer same => ?_
  subst same
  exact Printing.issues_pure (List.nil_subset _)

theorem issues_knownValue? (name : String) (value : List Char) :
    Printing.Issues known (page.knownValue? name value) Option.toList := by
  unfold knownValue?
  split
  · refine Printing.issues_bind_of_yields (issues_embed declines _) (yields_embed declines _) fun answer none => ?_
    subst none
    exact Printing.issues_pure (List.nil_subset _)
  · dsimp only
    split
    · exact Printing.issues_pure (List.nil_subset _)
    · exact Printing.issues_bind (Printing.issues_lift (issues_text _)) fun _ => Printing.issues_pure (by simp)
  · exact Printing.issues_pure (List.nil_subset _)

theorem issues_printAttribute (attr : Attribute) : Printing.IssuesDoc known (page.printAttribute attr) := by
  unfold printAttribute
  split
  · exact Printing.issues_lift (issues_literalText _)
  · dsimp only
    split
    · rw [pure_bind]
      exact Printing.issues_lift (issues_plainAttribute _ _)
    · refine Printing.issues_bind_of_yields (issues_knownValue? declines _ _) (yields_knownValue? declines _ _)
        fun known either => ?_
      obtain ⟨rfl, -⟩ | ⟨-, -, mark, rfl⟩ := either
      · exact Printing.issues_lift (issues_plainAttribute _ _)
      · exact Printing.issues_lift (issues_quotedAttribute _ (by simp))

theorem issues_printAttributes : Printing.IssuesDoc known (page.printAttributes id) := by
  have space {more : List Doc} : Printing.IssuesDoc more (liftM (Build.text " ")) :=
    Printing.issues_lift (issues_text _)
  have line {more : List Doc} : Printing.IssuesDoc more (liftM Build.line) :=
    Printing.issues_lift (issues_bareLine .plain)
  unfold printAttributes
  dsimp only
  split
  · split
    · exact space
    · exact Printing.issues_lift issues_empty
  · refine Printing.issues_bind (Printing.issues_mapM fun attr _ more _ => ?_) fun printed => ?_
    · split
      · exact Printing.issues_lift (issues_literalText _)
      · exact issues_printAttribute declines attr
    · have finish {more : List Doc} {between first : Doc} (sub : printed ⊆ more) (isLine : between ∈ more)
          (start : first ∈ more) (stays : Bool) : Printing.IssuesDoc more (do
            let list ← Build.concat [first, ← Build.concat (printed.intersperse between)]
            Build.concat [← Build.indent list, ← page.beforeBracket id stays]) := by
        have spaced := Layout.Build.subset_intersperse sub isLine
        refine Printing.issues_bind (Printing.issues_lift (issues_concat spaced)) fun inner => ?_
        refine Printing.issues_bind (Printing.issues_lift (issues_concat (by simp [start]))) fun list => ?_
        refine Printing.issues_bind (Printing.issues_lift (issues_indent (by simp))) fun indented => ?_
        refine Printing.issues_bind (Printing.issues_lift (issues_beforeBracket stays)) fun last => ?_
        exact Printing.issues_lift (issues_concat (by simp))
      have begin {more : List Doc} {between : Doc} (sub : printed ⊆ more) (isLine : between ∈ more)
          (oneLine stays : Bool) : Printing.IssuesDoc more (do
            let first ← if oneLine then (liftM (Build.text " ") : Printing Doc) else liftM Build.line
            let list ← Build.concat [first, ← Build.concat (printed.intersperse between)]
            Build.concat [← Build.indent list, ← page.beforeBracket id stays]) := by
        have kept {first : Doc} : printed ⊆ [first] ++ more := List.subset_append_of_subset_right _ sub
        cases oneLine with
        | true => exact Printing.issues_bind space fun _ => finish kept (by simp [isLine]) (by simp) stays
        | false => exact Printing.issues_bind line fun _ => finish kept (by simp [isLine]) (by simp) stays
      split
      · exact Printing.issues_bind (Printing.issues_lift issues_hardline) fun _ => begin (by simp) (by simp) _ _
      · exact Printing.issues_bind line fun _ => begin (by simp) (by simp) _ _

theorem issues_openingTag : Printing.IssuesDoc known (page.openingTag id) := by
  refine Printing.issues_bind (Printing.issues_lift issues_openingStart) fun start => ?_
  refine Printing.issues_bind (issues_printAttributes declines) fun attributes => ?_
  dsimp only
  split
  · exact Printing.issues_bind (Printing.issues_lift issues_empty) fun _ =>
      Printing.issues_lift (issues_concat (by simp))
  · exact Printing.issues_bind (Printing.issues_lift issues_openingEnd) fun _ =>
      Printing.issues_lift (issues_concat (by simp))

end Declines

end Page

/-! ### Children -/

section Children

variable {tree : Tree} {id : NodeId} {doc : Doc} {children : List (NodeId × Doc)}

theorem issues_separator (separator : Separator) : IssuesDoc known separator.doc := by
  cases separator with
  | nothing => exact issues_empty
  | softline => exact issues_bareLine .soft
  | line => exact issues_bareLine .plain
  | hardline => exact issues_hardline

theorem issuesAll_emptyLine : IssuesAll known emptyLine :=
  issues_bind issues_hardline fun _ => issues_bind issues_hardline fun _ => issues_pure (by simp)

theorem issuesAll_ownLine (member : doc ∈ known) : IssuesAll known (ownLine tree id doc) := by
  unfold ownLine
  split
  · exact issues_pure (by simp [member])
  · next prev separator _ =>
    refine issues_bind (issues_separator separator) fun between => ?_
    split
    · exact issues_bind issues_hardline fun _ => issues_pure (by simp [member])
    · exact issues_pure (by simp [member])

theorem issuesAll_flowingText (member : doc ∈ known) : IssuesAll known (flowingText tree id doc) := by
  unfold flowingText
  split
  · exact issues_pure (by simp [member])
  · next prev separator _ =>
    split
    · exact issues_pure (by simp [member])
    · split
      · exact issues_bind issuesAll_emptyLine fun _ => issues_pure (by simp [member])
      · exact issues_bind (issues_separator separator) fun _ => issues_pure (by simp [member])

/-- What is built in two lists. -/
abbrev both (parts : List Doc × List Doc) : List Doc :=
  parts.1 ++ parts.2

theorem issues_precedingParts (prevGroup : Option GroupId) : Issues known (precedingParts tree id prevGroup) both := by
  unfold precedingParts
  split
  · exact issues_pure (by simp)
  · next prev separator _ =>
    split
    · exact issues_bind issuesAll_emptyLine fun _ => issues_pure (by simp)
    · split
      · exact issues_bind issues_hardline fun _ => issues_pure (by simp)
      · split
        · exact issues_bind (issues_separator separator) fun _ => issues_pure (by simp)
        · refine issues_bind issues_empty fun _ => issues_bind (issues_bareLine .soft) fun _ => ?_
          exact issues_bind (issues_ifBreakFor prevGroup (by simp) (by simp)) fun _ => issues_pure (by simp)

theorem issues_followingParts : Issues known (followingParts tree id) both := by
  unfold followingParts
  split
  · exact issues_pure (by simp)
  · next next separator _ =>
    dsimp only
    split
    · split
      · exact issues_bind issuesAll_emptyLine fun _ => issues_pure (by simp)
      · exact issues_pure (by simp)
    · split
      · split
        · exact issues_bind issues_hardline fun _ => issues_pure (by simp)
        · exact issues_pure (by simp)
      · exact issues_bind (issues_separator separator) fun _ => issues_pure (by simp)

theorem issuesAll_flowing (member : doc ∈ known) (group : GroupId) (prevGroup : Option GroupId) :
    IssuesAll known (flowing tree id doc group prevGroup) := by
  unfold flowing
  split
  · exact issuesAll_flowingText member
  · refine issues_bind (issues_precedingParts prevGroup) fun (outerBefore, innerBefore) => ?_
    refine issues_bind issues_followingParts fun (innerAfter, outerAfter) => ?_
    refine issues_bind (issues_concat (by simp [member])) fun content => ?_
    refine issues_bind (issues_groupWith (some group) false (by simp)) fun inner => ?_
    refine issues_bind (issues_concat (by grind)) fun whole => ?_
    exact issues_bind (issues_group (by simp)) fun _ => issues_pure (by grind)

theorem issuesAll_flowAll (members : children.map (·.2) ⊆ known) (prevGroup : Option GroupId) :
    IssuesAll known (flowAll tree prevGroup children) := by
  induction children generalizing prevGroup known with
  | nil => exact issues_pure (by simp)
  | cons child rest ih =>
    obtain ⟨here, others⟩ := List.cons_subset.mp members
    refine issues_bind (issues_freshGroup _) fun group => ?_
    refine issues_bind (issuesAll_flowing here group prevGroup) fun parts => ?_
    exact issues_bind (ih (List.subset_append_of_subset_right _ others) (some group)) fun _ => issues_pure (by simp)

theorem issues_joinChildren (members : children.map (·.2) ⊆ known) (parent : NodeId) :
    IssuesDoc known (joinChildren tree parent children) := by
  unfold joinChildren
  split
  · refine issues_bind issues_breakParent fun first => ?_
    have each : ∀ child ∈ children, ∀ more, [first] ++ known ⊆ more →
        IssuesAll more (ownLine tree child.1 child.2) := fun child member more sub =>
      issuesAll_ownLine (sub (List.mem_append_right _ (members (List.mem_map_of_mem member))))
    exact issues_bind (issues_mapM each) fun _ => issues_concat (by simp [List.flatMap_id])
  · exact issues_bind (issuesAll_flowAll members none) fun _ => issues_concat (by simp)

end Children

/-! ### Texts -/

theorem issuesAll_joinLast {last : Doc} (after : last ∈ known) (part : Doc) (parts : List Doc)
    (members : part :: parts ⊆ known) : IssuesAll known (joinLast last part parts) := by
  induction parts generalizing part with
  | nil =>
    have inside : [part, last] ⊆ known := by simpa [after] using members
    exact issues_bind (issues_concat inside) fun _ => issues_pure (by simp)
  | cons next parts ih =>
    obtain ⟨here, others⟩ := List.cons_subset.mp members
    exact issues_bind (ih next others) fun _ => issues_pure (by simp [here])

theorem issuesAll_wrapParts {first last : Doc} {parts : List Doc} (before : first ∈ known) (after : last ∈ known)
    (members : parts ⊆ known) : IssuesAll known (wrapParts first last parts) := by
  cases parts with
  | nil =>
    refine issues_bind issues_empty fun _ => issues_bind (issues_concat (by simp [before])) fun _ => ?_
    exact issuesAll_joinLast (by simp [after]) _ _ (by simp)
  | cons part parts =>
    obtain ⟨here, others⟩ := List.cons_subset.mp members
    refine issues_bind (issues_concat (by simp [before, here])) fun _ => ?_
    exact issuesAll_joinLast (by simp [after]) _ _ (by grind)

theorem issues_expressionText (value : List Char) : IssuesDoc known (expressionText value) := by
  unfold expressionText
  dsimp only
  refine issues_seq ⟨fun _ _ => issues_literalText _, fun _ _ => ?_⟩
  split
  · exact issues_hardline
  · exact issues_empty

namespace Page

variable {page : Page} {id : NodeId}

theorem issuesAll_textParts (value : List Char) : IssuesAll known (page.textParts id value) := by
  unfold textParts
  dsimp only
  split
  · split
    · exact issues_bind issues_literalline fun _ => issuesAll_splitLines _ (by simp)
    · exact issues_bind issues_hardline fun _ => issuesAll_splitLines _ (by simp)
  · exact issues_bind (issues_bareLine .plain) fun _ =>
      issuesAll_intersperse (fun word _ _ _ => issues_text _) (by simp)

theorem issues_printText (value : List Char) : IssuesDoc known (page.printText id value) := by
  unfold printText
  split
  · exact issues_expressionText value
  · refine issues_bind (issues_borrowed _) fun first => issues_bind (issues_borrowed _) fun last => ?_
    refine issues_bind (issuesAll_textParts value) fun parts => ?_
    exact issues_bind (issuesAll_wrapParts (by simp) (by simp) (by simp)) fun _ => issues_fill (by simp)

theorem issues_printDoctype (value : String) : IssuesDoc known (page.printDoctype id value) := by
  have body {more : List Doc} : IssuesDoc more (Build.seq [page.openingStart id, Build.text " ",
      Build.text (String.ofList (normalizeDoctype value.toList))]) :=
    issues_seq ⟨fun _ _ => issues_openingStart, fun _ _ => issues_text _, fun _ _ => issues_text _⟩
  refine issues_bind body fun whole => issues_seq ⟨fun _ sub => ?_, fun _ _ => issues_closingEnd⟩
  exact issues_group (sub (by simp))

theorem issues_printComment : IssuesDoc known (page.printComment id) :=
  issues_seq ⟨fun _ _ => issues_borrowed _, fun _ _ => issues_literalText _, fun _ _ => issues_borrowed _⟩

/-! ### Elements -/

theorem issues_printIgnored : IssuesDoc known (page.printIgnored id) :=
  issues_seq ⟨fun _ _ => issues_borrowed _, fun _ _ => issues_literalText _, fun _ _ => issues_borrowed _⟩

theorem issues_hug (tagGroup : GroupId) :
    IssuesDoc known (do Build.ifBreakFor (← Build.softline) (← Build.empty) (some tagGroup)) :=
  issues_bind (issues_bareLine .soft) fun _ => issues_bind issues_empty fun _ =>
    issues_ifBreakFor (some tagGroup) (by simp) (by simp)

theorem issues_lineBefore (first : Markup.Node) (tagGroup : GroupId) :
    IssuesDoc known (page.lineBefore id first tagGroup) := by
  unfold lineBefore
  split
  · exact issues_hug tagGroup
  · split
    · exact issues_bareLine .plain
    · split
      · exact issues_bind (issues_bareLine .soft) fun _ => issues_align .dedentToRoot (by simp)
      · exact issues_bareLine .soft

theorem issues_lineAfter (last : Markup.Node) (tagGroup : GroupId) :
    IssuesDoc known (page.lineAfter id last tagGroup) := by
  unfold lineAfter
  split
  · split
    · exact issues_text _
    · exact issues_empty
  · split
    · exact issues_hug tagGroup
    · split
      · exact issues_bareLine .plain
      · split
        · exact issues_empty
        · exact issues_bareLine .soft

variable {children : List (NodeId × Doc)}

theorem issues_body (members : children.map (·.2) ⊆ known) (tagGroup : GroupId) :
    IssuesDoc known (page.body id children tagGroup) := by
  unfold body
  split
  · next first last _ _ =>
    have finish {more : List Doc} {breaks : Build Doc} (line : ∀ more, IssuesDoc more breaks) {indented : Doc}
        (member : indented ∈ more) : IssuesDoc more
          (Build.seq [breaks, return indented, page.lineAfter id (page.tree.node last) tagGroup]) :=
      issues_seq ⟨fun _ _ => line _, fun _ sub => issues_pure (by simp [sub member]),
        fun _ _ => issues_lineAfter _ tagGroup⟩
    refine issues_bind (issues_lineBefore _ tagGroup) fun before => ?_
    refine issues_bind (issues_joinChildren (List.subset_append_of_subset_right _ members) id) fun joined => ?_
    refine issues_bind (issues_concat (by simp)) fun content => ?_
    split
    · split
      · exact issues_bind (issues_indentIfBreak tagGroup false (by simp)) fun _ =>
          finish (fun _ => issues_breakParent) (by simp)
      · exact issues_bind (issues_indent (by simp)) fun _ => finish (fun _ => issues_breakParent) (by simp)
    · split
      · exact issues_bind (issues_indentIfBreak tagGroup false (by simp)) fun _ =>
          finish (fun _ => issues_empty) (by simp)
      · exact issues_bind (issues_indent (by simp)) fun _ => finish (fun _ => issues_empty) (by simp)
  · unfold emptyBody
    dsimp only
    split
    · exact issues_bareLine .plain
    · exact issues_empty

section Declines

variable (declines : page.Declines)

include declines

theorem issues_printCopied : Printing.IssuesDoc known (page.printCopied id) := by
  refine Printing.issues_bind (Printing.issues_lift (issues_borrowed _)) fun before => ?_
  refine Printing.issues_bind (issues_openingTag declines) fun tag => ?_
  refine Printing.issues_bind (Printing.issues_lift (issues_group (by simp))) fun opening => ?_
  refine Printing.issues_bind (Printing.issues_lift (issues_literalText _)) fun content => ?_
  refine Printing.issues_bind (Printing.issues_lift issues_closingTag) fun closing => ?_
  exact Printing.issues_bind (Printing.issues_lift (issues_borrowed _)) fun _ =>
    Printing.issues_lift (issues_concat (by simp))

theorem issues_printElement (members : children.map (·.2) ⊆ known) :
    Printing.IssuesDoc known (page.printElement id children) := by
  refine Printing.issues_bind (Printing.issues_lift (issues_freshGroup _)) fun tagGroup => ?_
  refine Printing.issues_bind (Printing.issues_lift (issues_body members tagGroup)) fun body => ?_
  refine Printing.issues_bind (issues_openingTag declines) fun tag => ?_
  refine Printing.issues_bind (Printing.issues_lift (issues_groupWith (some tagGroup) false (by simp)))
    fun opening => ?_
  refine Printing.issues_bind (Printing.issues_lift issues_closingTag) fun closing => ?_
  exact Printing.issues_bind (Printing.issues_lift (issues_concat (by simp))) fun _ =>
    Printing.issues_lift (issues_group (by simp))

/-! ### Nodes -/

theorem issues_embeddedBody? (id parent : NodeId) (value : String) :
    Printing.Issues known (page.embeddedBody? id parent value) Option.toList := by
  unfold embeddedBody?
  split
  · exact Printing.issues_pure (List.nil_subset _)
  · refine Printing.issues_bind_of_yields (issues_embed declines _) (yields_embed declines _) fun answer none => ?_
    subst none
    exact Printing.issues_pure (List.nil_subset _)

theorem issues_embeddedExpression? (parent : NodeId) (value : String) :
    Printing.Issues known (page.embeddedExpression? parent value) Option.toList := by
  refine Printing.issues_bind_of_yields (issues_embed declines _) (yields_embed declines _) fun answer none => ?_
  subst none
  exact Printing.issues_pure (List.nil_subset _)

theorem issues_embeddedFrontMatter? (block : FrontMatter) :
    Printing.Issues known (page.embeddedFrontMatter? block) Option.toList := by
  have fenced {more : List Doc} (doc : Doc) (member : doc ∈ more) : IssuesDoc more
      (Build.seq [Build.text block.startDelimiter, Build.text block.explicitLanguage, Build.hardline, return doc,
        Build.empty, Build.text block.endDelimiter]) :=
    issues_seq ⟨fun _ _ => issues_text _, fun _ _ => issues_text _, fun _ _ => issues_hardline,
      fun _ sub => issues_pure (by simp [sub member]), fun _ _ => issues_empty, fun _ _ => issues_text _⟩
  unfold embeddedFrontMatter?
  split
  · exact Printing.issues_pure (List.nil_subset _)
  · dsimp only
    split
    · have nothing : Printing.Issues known (some <$> (liftM Build.empty : Printing Doc)) Option.toList := by
        rw [map_eq_pure_bind]
        exact Printing.issues_bind (Printing.issues_lift issues_empty) fun _ => Printing.issues_pure (by simp)
      refine Printing.issues_bind nothing fun answer => ?_
      cases answer with
      | none => exact Printing.issues_pure (List.nil_subset _)
      | some doc =>
        refine Printing.issues_bind (Printing.issues_lift (fenced doc (by simp))) fun body => ?_
        exact Printing.issues_bind (Printing.issues_lift (issues_align .markAsRoot (by simp))) fun _ =>
          Printing.issues_pure (by simp)
    · refine Printing.issues_bind_of_yields (issues_embed declines _) (yields_embed declines _) fun answer none => ?_
      subst none
      exact Printing.issues_pure (List.nil_subset _)

theorem issues_embedded? (id : NodeId) : Printing.Issues known (page.embedded? id) Option.toList := by
  unfold embedded?
  split
  · dsimp only
    split
    · exact issues_embeddedBody? declines id _ _
    · split
      · exact issues_embeddedExpression? declines _ _
      · exact Printing.issues_pure (List.nil_subset _)
  · exact issues_embeddedFrontMatter? declines _
  · exact Printing.issues_pure (List.nil_subset _)

theorem issues_assemble (members : children.map (·.2) ⊆ known) :
    Printing.IssuesDoc known (page.assemble id children) := by
  have tags {more : List Doc} : IssuesDoc more (Build.seq [page.openingStart id, page.closingEnd id]) :=
    issues_seq ⟨fun _ _ => issues_openingStart, fun _ _ => issues_closingEnd⟩
  unfold assemble
  split
  · split
    · exact Printing.issues_lift issues_empty
    · refine Printing.issues_bind (Printing.issues_lift (issues_joinChildren members id)) fun joined => ?_
      refine Printing.issues_bind (Printing.issues_lift (issues_group (by simp))) fun group => ?_
      exact Printing.issues_bind (Printing.issues_lift issues_hardline) fun _ =>
        Printing.issues_lift (issues_concat (by simp))
  · exact issues_printElement declines members
  · exact issues_printElement declines members
  · refine Printing.issues_bind (Printing.issues_lift issues_openingStart) fun opening => ?_
    exact Printing.issues_bind (Printing.issues_lift issues_closingEnd) fun _ =>
      Printing.issues_lift (issues_concat (by grind))
  · exact Printing.issues_lift tags
  · exact Printing.issues_lift tags
  · exact Printing.issues_lift (issues_printText _)
  · exact Printing.issues_lift (issues_printDoctype _)
  · exact Printing.issues_lift issues_printComment
  · exact Printing.issues_lift (issues_literalText _)
  · exact Printing.issues_lift (issues_literalText _)
  · exact fun _ => issues_throw

end Declines

mutual

theorem issues_printNode (declines : page.Declines) (known : List Doc) :
    ∀ outline : Outline, Printing.IssuesDoc known (page.printNode outline)
  | .node id inner => by
    rw [printNode]
    refine Printing.issues_bind (issues_embedded? declines id) fun answer => ?_
    cases answer with
    | some doc => exact Printing.issues_pure (by simp)
    | none =>
      dsimp only
      split
      · exact issues_printCopied declines
      · exact Printing.issues_bind (issues_printNodes declines _ inner) fun _ => issues_assemble declines (by simp)

theorem issues_printNodes (declines : page.Declines) (known : List Doc) :
    ∀ outlines : List Outline, Printing.Issues known (page.printNodes outlines) (·.map (·.2))
  | [] => by
    rw [printNodes]
    exact Printing.issues_pure (List.nil_subset _)
  | .node id inner :: rest => by
    have finish {more : List Doc} (doc : Doc) (member : doc ∈ more) :
        Printing.Issues more (do return (id, doc) :: (← page.printNodes rest)) (·.map (·.2)) :=
      Printing.issues_bind (issues_printNodes declines more rest) fun _ => Printing.issues_pure (by simp [member])
    rw [printNodes]
    split
    · exact Printing.issues_bind (Printing.issues_lift issues_printIgnored) fun doc => finish doc (by simp)
    · exact Printing.issues_bind (issues_printNode declines known (.node id inner)) fun doc => finish doc (by simp)

end

/-- The marks of a page that is printed from a new supply, or from any other, tell the nodes of its document apart. -/
theorem marksTellApart_print (declines : page.Declines) : Printing.Yields page.print Doc.MarksTellApart := by
  intro requests supply result ran
  have issued := issues_printNode declines [] _ requests supply result (.nil supply) ran
  exact issued.marksTellApart (List.mem_append_left _ (List.mem_singleton_self _))

end Page

end MarkupFormat.Print
