import MarkupFormat.Layout.Build
import Std.Data.HashMap

/-!
# Rebuilding documents by a rule

`Doc.transform` rebuilds a document from its leaves upwards and hands each rebuilt node to a rule.
A node that occurs several times is transformed once, and its result is one node again.
-/

namespace MarkupFormat.Layout

/-- What a run of a rule over a document has done so far. -/
structure RuleRun where
  /-- Results by the mark of the node that the rule was run for. -/
  results : Std.HashMap Mark Doc := {}
  /-- The nodes handed to the rule, the last one first. -/
  applied : List Doc := []

/-- Computations that run a rule over nodes. -/
abbrev Transforming := StateT RuleRun Build

/-- Applies `rule` to a rebuilt node and keeps the result for the node it was rebuilt from. -/
def Transforming.apply (rule : Doc → Build Doc) (mark : Mark) (rebuilt : Doc) :
    Transforming Doc := do
  let result ← rule rebuilt
  modify fun run =>
    { results := run.results.insert mark result, applied := rebuilt :: run.applied }
  return result

namespace Doc

mutual

/-- The result of the rule for a node, which is worked out at its first occurrence. -/
def runRule (rule : Doc → Build Doc) (doc : Doc) : Transforming Doc := do
  match (← get).results[doc.mark]? with
  | some result => return result
  | none =>
    let rebuilt ← rebuild rule doc
    Transforming.apply rule doc.mark rebuilt

/-- The node over the results for its children. Leaves stay the nodes they are. -/
def rebuild (rule : Doc → Build Doc) : Doc → Transforming Doc
  | .concat _ parts => do Build.concat (← runRuleAll rule parts)
  | .fill _ parts => do return .fill (← Build.freshMark) (← runRuleAll rule parts)
  | .indent _ body => do Build.indent (← runRule rule body)
  | .align _ kind body => do Build.align kind (← runRule rule body)
  | .indentIfBreak _ body id negate => do Build.indentIfBreak (← runRule rule body) id negate
  | .label _ name body => do Build.label name (← runRule rule body)
  | .ifBreak _ broken flat id => do
    let broken ← runRule rule broken
    Build.ifBreakFor broken (← runRule rule flat) id
  | .group _ info body => do Build.groupWith (← runRule rule body) info.id info.mustBreak
  | .choice _ info _ first others => do
    let first ← runRule rule first
    Build.choiceWith (first :: (← runRuleAll rule others)) info.id info.mustBreak
  | .text mark content => return .text mark content
  | .line mark kind => return .line mark kind
  | .breakParent mark => return .breakParent mark
  | .trim mark => return .trim mark

/-- The results for several nodes in order. -/
def runRuleAll (rule : Doc → Build Doc) : List Doc → Transforming (List Doc)
  | [] => return []
  | doc :: docs => do
    let doc ← runRule rule doc
    return doc :: (← runRuleAll rule docs)

end

/-- The document that the rule leads to, and what the run did. -/
def transform (rule : Doc → Build Doc) (doc : Doc) : Build (Doc × RuleRun) :=
  (doc.runRule rule).run {}

/-- `doc` with each line feed inside its texts replaced by `replacement`. -/
def replaceLineEndings (doc replacement : Doc) : Build Doc := do
  let rule : Doc → Build Doc := fun node =>
    match node with
    | .text _ content =>
      if '\n' ∈ content.toList then do Build.concat (← Build.splitLines content replacement)
      else return node
    | _ => return node
  return (← doc.transform rule).1

end Doc

end MarkupFormat.Layout
