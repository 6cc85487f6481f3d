import MarkupFormat.Layout.Doc
import MarkupFormat.Text.Quoted

/-!
# Dumps of documents

A dump shows a document as the calls that would build it. Group ids are numbered in the order in
which the dump mentions them.
-/

namespace MarkupFormat.Layout.Doc

open Text (quoted)

/-- Computations that number group ids by their first mention. -/
abbrev Dump := StateM (List GroupId)

/-- The name of an id together with its number. -/
def dumpId (id : GroupId) : Dump String := do
  let known ← get
  let index := known.idxOf id
  if index = known.length then set (known ++ [id])
  return id.name ++ "#" ++ toString (index + 1)

/-- Named options after the arguments of a call. -/
def dumpOptions : List String → String
  | [] => ""
  | options => ", \x7b " ++ ", ".intercalate options ++ " \x7d"

def dumpLine : LineKind → String
  | .soft => "softline"
  | .plain => "line"
  | .hard => "hardlineWithoutBreakParent"
  | .literal => "literallineWithoutBreakParent"

/-- The call that aligns `body`. -/
def dumpAlign (kind : AlignKind) (body : String) : String :=
  match kind with
  | .width columns => "align(" ++ toString columns ++ ", " ++ body ++ ")"
  | .text content => "align(" ++ quoted content ++ ", " ++ body ++ ")"
  | .dedent => "dedent(" ++ body ++ ")"
  | .dedentToRoot => "dedentToRoot(" ++ body ++ ")"
  | .markAsRoot => "markAsRoot(" ++ body ++ ")"

/-- The options of a group. -/
def dumpInfo (info : GroupInfo) : Dump String := do
  let mustBreak := if info.mustBreak then ["shouldBreak: true"] else []
  match info.id with
  | none => return dumpOptions mustBreak
  | some id => return dumpOptions (mustBreak ++ ["id: " ++ (← dumpId id)])

/-- The name of a forced line. -/
def forcedLineName : List Doc → String
  | .line _ .literal :: _ => "literalline"
  | _ => "hardline"

mutual

/-- Dumps a node. -/
def dumpDoc : Doc → Dump String
  | .text _ content => return quoted content
  | .concat _ parts => do
    if isForcedLine parts then return forcedLineName parts
    else return "[" ++ ", ".intercalate (← dumpDocs parts) ++ "]"
  | .indent _ body => return "indent(" ++ (← dumpDoc body) ++ ")"
  | .align _ kind body => return dumpAlign kind (← dumpDoc body)
  | .group _ info body => do
    let body ← dumpDoc body
    return "group(" ++ body ++ (← dumpInfo info) ++ ")"
  | .choice _ info _ first others => do
    let first ← dumpDoc first
    let others ← dumpDocs others
    return "conditionalGroup([" ++ ", ".intercalate (first :: others) ++ "]" ++
      (← dumpInfo info) ++ ")"
  | .fill _ parts => return "fill([" ++ ", ".intercalate (← dumpDocs parts) ++ "])"
  | .line _ kind => return dumpLine kind
  | .breakParent _ => return "breakParent"
  | .ifBreak _ broken flat id => do
    let broken ← dumpDoc broken
    let flat ← dumpDoc flat
    let options ← id.mapM fun id => return "groupId: " ++ (← dumpId id)
    return "ifBreak(" ++ broken ++ ", " ++ flat ++ dumpOptions options.toList ++ ")"
  | .indentIfBreak _ body id negate => do
    let body ← dumpDoc body
    let id := "groupId: " ++ (← dumpId id)
    let options := if negate then [id, "negate: true"] else [id]
    return "indentIfBreak(" ++ body ++ dumpOptions options ++ ")"
  | .trim _ => return "trim"
  | .label _ name body => return "label(" ++ quoted name ++ ", " ++ (← dumpDoc body) ++ ")"

/-- Dumps several nodes in order. -/
def dumpDocs : List Doc → Dump (List String)
  | [] => return []
  | doc :: docs => do
    let doc ← dumpDoc doc
    return doc :: (← dumpDocs docs)

end

/-- Shows `doc` as the calls that would build it. -/
def dump (doc : Doc) : String :=
  ((dumpDoc doc).run []).1

end MarkupFormat.Layout.Doc
