/-!
# Layout documents

A `Doc` describes text together with the places where its lines may break. Every node carries a
mark that tells it apart from the others: two occurrences with one mark are the same node, met
along two paths. Marks matter to the analyses that look at a node only once.
-/

namespace MarkupFormat.Layout

/-- Tells nodes apart. -/
abbrev Mark := Nat

/-- Names a group, so that a node elsewhere can depend on how the group was laid out. -/
structure GroupId where
  index : Nat
  /-- Shown in dumps only. -/
  name : String
  deriving DecidableEq, Hashable, Repr, Inhabited

/-- The kinds of line break. -/
inductive LineKind where
  /-- Nothing when flat, a new line when broken. -/
  | soft
  /-- A space when flat, a new line when broken. -/
  | plain
  /-- Always a new line. -/
  | hard
  /-- Always a new line, without the current indentation. -/
  | literal
  deriving DecidableEq, Repr, Inhabited

/-- Whether the line breaks even when flat. -/
def LineKind.isHard : LineKind → Bool
  | hard | literal => true
  | soft | plain => false

/-- What an aligned node does to the indentation of its body. -/
inductive AlignKind where
  /-- Adds columns of spaces. -/
  | width (columns : Nat)
  /-- Adds a text. -/
  | text (content : String)
  /-- Undoes the innermost step. -/
  | dedent
  /-- Goes back to the nearest root, or to the first column. -/
  | dedentToRoot
  /-- Makes the current indentation the root. -/
  | markAsRoot
  deriving DecidableEq, Repr, Inhabited

/-- What all groups have: a name, if they can be referred to, and whether they must break. -/
structure GroupInfo where
  id : Option GroupId
  mustBreak : Bool
  deriving DecidableEq, Repr, Inhabited

/-- A layout document. -/
inductive Doc where
  | text (mark : Mark) (content : String)
  | concat (mark : Mark) (parts : List Doc)
  /-- Indents its body by one step. -/
  | indent (mark : Mark) (body : Doc)
  | align (mark : Mark) (kind : AlignKind) (body : Doc)
  /-- Flat if it fits, broken otherwise. -/
  | group (mark : Mark) (info : GroupInfo) (body : Doc)
  /-- A group with alternatives, from the most compact to the most expanded. The body is what is
  laid out flat, and is the first alternative when the node is built. -/
  | choice (mark : Mark) (info : GroupInfo) (body first : Doc) (others : List Doc)
  /-- Contents at even places and line breaks at odd places, wrapped greedily. -/
  | fill (mark : Mark) (parts : List Doc)
  | line (mark : Mark) (kind : LineKind)
  /-- Breaks the groups around it. -/
  | breakParent (mark : Mark)
  /-- One of two bodies, by how the named group, or else the enclosing one, was laid out. -/
  | ifBreak (mark : Mark) (broken flat : Doc) (id : Option GroupId)
  /-- Indents its body if the named group broke, or if it did not when negated. -/
  | indentIfBreak (mark : Mark) (body : Doc) (id : GroupId) (negate : Bool)
  /-- Removes blanks at the end of the current line. -/
  | trim (mark : Mark)
  /-- A name for its body that has no effect on the layout. -/
  | label (mark : Mark) (name : String) (body : Doc)
  deriving Inhabited

namespace Doc

/-- The mark of a node. -/
def mark : Doc → Mark
  | text m _ | concat m _ | indent m _ | align m _ _ | group m _ _ | choice m _ _ _ _ | fill m _
  | line m _ | breakParent m | ifBreak m _ _ _ | indentIfBreak m _ _ _ | trim m | label m _ _ => m

/-- What kind of node this is, for messages and dumps. -/
def typeName : Doc → String
  | text .. => "text"
  | concat .. => "concat"
  | indent .. => "indent"
  | align .. => "align"
  | group .. | choice .. => "group"
  | fill .. => "fill"
  | line .. => "line"
  | breakParent .. => "break-parent"
  | ifBreak .. => "if-break"
  | indentIfBreak .. => "indent-if-break"
  | trim .. => "trim"
  | label .. => "label"

/-- The content of a text. -/
def text? : Doc → Option String
  | text _ content => some content
  | _ => none

/-- The kind of a bare line break. -/
def line? : Doc → Option LineKind
  | line _ kind => some kind
  | _ => none

/-- Whether `parts` are a line that always breaks and the break of the groups around it. -/
def isForcedLine : List Doc → Bool
  | [line _ kind, breakParent _] => kind.isHard
  | _ => false

theorem exists_of_isForcedLine {parts : List Doc} (forced : isForcedLine parts = true) :
    ∃ mark kind breakMark, parts = [line mark kind, breakParent breakMark] ∧ kind.isHard = true := by
  unfold isForcedLine at forced
  split at forced
  · exact ⟨_, _, _, rfl, forced⟩
  · cases forced

/-- Whether the node may separate the contents of a fill: a line, or a forced line. -/
def isLineSeparator : Doc → Bool
  | line .. => true
  | concat _ parts => isForcedLine parts
  | _ => false

/-- The nodes directly below a node, in order. Of a group with alternatives these are the
alternatives if `alternatives` holds and the body otherwise. -/
def children (alternatives : Bool) : Doc → List Doc
  | text .. | line .. | breakParent .. | trim .. => []
  | concat _ parts | fill _ parts => parts
  | indent _ body | align _ _ body | group _ _ body | indentIfBreak _ body _ _ | label _ _ body =>
    [body]
  | choice _ _ body first others => if alternatives then first :: others else [body]
  | ifBreak _ broken flat _ => [broken, flat]

mutual

/-- A bound on the work that a node can cause: the number of nodes met when every path is
followed, where the parts of a fill count once more. -/
def weight : Doc → Nat
  | text .. | line .. | breakParent .. | trim .. => 1
  | concat _ parts => 1 + weights parts
  | fill _ parts => 1 + (weights parts + parts.length)
  | indent _ body | align _ _ body | group _ _ body | indentIfBreak _ body _ _ | label _ _ body =>
    1 + body.weight
  | choice _ _ body first others => 1 + (body.weight + (first.weight + weights others))
  | ifBreak _ broken flat _ => 1 + (broken.weight + flat.weight)

/-- The weight of several nodes. -/
def weights : List Doc → Nat
  | [] => 0
  | doc :: docs => doc.weight + weights docs

end

theorem weight_pos (doc : Doc) : 0 < doc.weight := by
  cases doc <;> simp only [weight] <;> omega

theorem weight_le_weights {doc : Doc} {docs : List Doc} (h : doc ∈ docs) :
    doc.weight ≤ weights docs := by
  induction docs with
  | nil => cases h
  | cons head tail ih =>
    cases h with
    | head => simp only [weights]; omega
    | tail _ h => have := ih h; simp only [weights]; omega

theorem weights_children_lt (alternatives : Bool) (doc : Doc) :
    weights (doc.children alternatives) < doc.weight := by
  cases doc <;> simp only [children, weights, weight] <;> try omega
  cases alternatives <;> simp [weights] <;> omega

end Doc

/-- Ways in which a document can be built wrongly. -/
inductive DocError where
  /-- A fill has something other than a line break between two contents. -/
  | fillSeparator (index : Nat) (found : String)
  /-- A group with alternatives was given none. -/
  | noAlternatives
  deriving DecidableEq, Repr, Inhabited

/-- What is told about the error. -/
def DocError.message : DocError → String
  | fillSeparator index found =>
    "fill part " ++ toString index ++ " must be a line break, found " ++ found
  | noAlternatives => "conditional group needs at least one expanded state"

end MarkupFormat.Layout
