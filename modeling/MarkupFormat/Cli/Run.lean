import MarkupFormat.Cli.FormatCommand
import MarkupFormat.Cli.Usage
import MarkupFormat.Layout.Dump
import MarkupFormat.Markup.ErrorDoc

/-!
# The command line

`run` is the whole program as a function of its arguments, its files and its standard input.
-/

namespace MarkupFormat.Cli

open Format (Options)
open Markup (ErrorCode)

/-- The format command. -/
def formatCommand (stdin : ByteArray) (args : List String) : Command Unit := do
  match FormatRequest.ofArguments args with
  | .error e => Command.fail e.message
  | .ok .help => Command.say formatUsage
  | .ok (.format settings paths) =>
    if settings.stdin then
      match settings.stdinConflict? paths with
      | some conflict => Command.fail conflict
      | none => runStdin settings stdin
    else runFiles settings paths

/-- Shows the annotated tree of a file. -/
def showTree (path : String) : Command Unit := do
  let content ← Command.readText path
  let options : Options := { filePath := some path }
  match Annotate.annotate content options with
  | .error e => Command.fail (errorReport path (.parse e) content)
  | .ok annotated =>
    Command.say ("Tree for '" ++ path ++ "' (" ++ toString annotated.made ++ " nodes):\n")
    Command.say annotated.tree.dump

/-- Shows the document of a file. -/
def showDocument (path : String) : Command Unit := do
  let content ← Command.readText path
  let options : Options := { filePath := some path }
  match Format.document content options (return Embed.decline) with
  | .error e => Command.fail (errorReport path e content)
  | .ok (doc, _) => Command.say (doc.dump ++ "\n")

/-- Explains an error code. -/
def explain (name : String) : Command Unit := do
  match ErrorCode.ofText? name with
  | some code => Command.say (code.explanation ++ "\n")
  | none =>
    Command.fail (textOfLines ["Unknown error code: " ++ name, "",
      "Codes have the format EXXXX where X is a digit.",
      "Known codes: " ++ ", ".intercalate (ErrorCode.all.map ErrorCode.text)])

/-- A command with one argument that it needs. Others do not matter. -/
def withArgument (args : List String) (hint : String) (command : String → Command Unit) :
    Command Unit :=
  match args with
  | [] => Command.fail hint
  | arg :: _ => command arg

/-- The command that arguments name. -/
def dispatch (stdin : ByteArray) : List String → Command Unit
  | [] => Command.say usage
  | name :: args => do
    match name with
    | "fmt" => formatCommand stdin args
    | "parse" => withArgument args "Usage: quill parse <file.html>\n" showTree
    | "doc" => withArgument args "Usage: quill doc <file.html>\n" showDocument
    | "help" | "--help" | "-h" => Command.say usage
    | "version" | "--version" | "-v" => Command.say version
    | "explain" | "--explain" =>
      withArgument args "Usage: quill explain <ERROR_CODE>\nExample: quill explain E0001\n" explain
    | _ =>
      Command.warn ("Unknown command: " ++ name ++ "\n\n")
      Command.say usage
      Command.stop

/-- Runs the program. -/
def run (args : List String) (files : Files) (stdin : ByteArray) (folders : Folders := {}) :
    Outcome :=
  (dispatch stdin args).run { store := { files with toFolders := folders } }

end MarkupFormat.Cli
