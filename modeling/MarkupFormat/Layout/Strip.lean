import MarkupFormat.Layout.Build

/-!
# Removing a final line break

A document built elsewhere may end with a forced new line that its new surroundings do not want.
Only what comes last is looked at: the last part of a concatenation or a fill, the body of a
wrapper, and both branches of a conditional.
-/

namespace MarkupFormat.Layout.Doc

/-- `parts`, last first, without the pairs of a line and the break of its groups at the front. -/
def dropForcedLines : List Doc → List Doc
  | .breakParent mark :: before :: parts =>
    if before.line?.isSome then dropForcedLines parts else .breakParent mark :: before :: parts
  | parts => parts

/-- How many of `parts` stay when the pairs of a line and the break of its groups at the end are
dropped. -/
def keptParts (parts : List Doc) : Nat :=
  (dropForcedLines parts.reverse).length

mutual

/-- `doc` without a forced line at its end. A final text loses its final line endings. -/
def stripFinalLine : Doc → Build Doc
  | .concat _ parts => do Build.concat (← stripLast (keptParts parts) parts)
  | .fill _ parts => do return .fill (← Build.freshMark) (← stripLast (keptParts parts) parts)
  | .indent _ body => do Build.indent (← stripFinalLine body)
  | .align _ kind body => do Build.align kind (← stripFinalLine body)
  | .indentIfBreak _ body id negate => do Build.indentIfBreak (← stripFinalLine body) id negate
  | .label _ name body => do Build.label name (← stripFinalLine body)
  | .group _ info body => do Build.groupWith (← stripFinalLine body) info.id info.mustBreak
  | .choice _ info body first others => do
    return .choice (← Build.freshMark) info (← stripFinalLine body) first others
  | .ifBreak _ broken flat id => do
    let broken ← stripFinalLine broken
    Build.ifBreakFor broken (← stripFinalLine flat) id
  | .text _ content => Build.text (Text.trimEnd (fun c => c = '\n' || c = '\r') content)
  | .line mark kind => return .line mark kind
  | .breakParent mark => return .breakParent mark
  | .trim mark => return .trim mark

/-- The first `count` of `parts`, the last of them stripped. -/
def stripLast : Nat → List Doc → Build (List Doc)
  | 0, _ => return []
  | _, [] => return []
  | 1, part :: _ => return [← stripFinalLine part]
  | count + 2, part :: parts => return part :: (← stripLast (count + 1) parts)

end

end MarkupFormat.Layout.Doc
