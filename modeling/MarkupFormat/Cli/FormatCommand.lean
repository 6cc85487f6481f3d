import MarkupFormat.Cli.Arguments
import MarkupFormat.Cli.ErrorReport
import MarkupFormat.Cli.FileStore
import MarkupFormat.Cli.LineDiff
import MarkupFormat.Cli.Selection

/-!
# The format command

Formats files, the files of folders, or the standard input. Each file is judged by its own content,
and only a file whose formatted text differs is changed.

A command is a step of a session, which holds what a run of the program can see and change: the
files, and what was written to either stream. A command that stops ends the run with an exit code.
-/

namespace MarkupFormat.Cli

open Format (format)

/-! ### Sessions -/

/-- The files and the streams of a run. -/
structure Session where
  store : FileStore
  out : String := ""
  err : String := ""
  deriving Inhabited

/-- Steps of a run. A step that fails ends the run with an exit code. -/
abbrev Command := ExceptT Nat (StateM Session)

namespace Command

/-- Writes to the standard output. -/
def say (text : String) : Command Unit :=
  modify fun session => { session with out := session.out ++ text }

/-- Writes to the standard error. -/
def warn (text : String) : Command Unit :=
  modify fun session => { session with err := session.err ++ text }

/-- Ends the run as a failure. -/
def stop {α : Type} : Command α :=
  throw 1

/-- Ends the run as a failure, with a word about it. -/
def fail {α : Type} (text : String) : Command α := do
  warn text
  stop

/-- The text of a file. The run ends if it cannot be read. -/
def readText (path : String) : Command String := do
  match (← get).store.readText path with
  | .ok text => return text
  | .error fault => fail (fault.message path ++ "\n")

/-- Changes the text of a file. -/
def writeText (place : Place) (text : String) : Command Unit :=
  modify fun session => { session with store := session.store.write place text.toUTF8 }

end Command

/-- What is left of a run. -/
structure Outcome where
  code : Nat
  session : Session
  deriving Inhabited

/-- Runs a command. One that does not stop succeeds. -/
def Command.run (command : Command Unit) (session : Session) : Outcome :=
  match (ExceptT.run command).run session with
  | (.ok _, session) => ⟨0, session⟩
  | (.error code, session) => ⟨code, session⟩

/-! ### Formatting files -/

/-- What comes of formatting a text. -/
inductive Verdict where
  | unchanged
  | changed (text : String)
  | failed (report : String)
  deriving DecidableEq, Repr, Inhabited

/-- What comes of formatting the content of a file. -/
def judge (settings : Settings) (path content : String) : Verdict :=
  match format content { settings.options with filePath := some path } with
  | .error e => .failed (errorReport path e content)
  | .ok text => if text = content then .unchanged else .changed text

/-- How many files came out how. -/
structure Tally where
  changed : Nat := 0
  unchanged : Nat := 0
  failed : Nat := 0
  deriving DecidableEq, Repr, Inhabited

/-- Two tallies as one. -/
def Tally.add (tally other : Tally) : Tally :=
  ⟨tally.changed + other.changed, tally.unchanged + other.unchanged, tally.failed + other.failed⟩

/-- Formats the file at a place. -/
def formatFile (settings : Settings) (path : String) (place : Place) : Command Tally := do
  let content ← Command.readText path
  match judge settings path content with
  | .unchanged => return { unchanged := 1 }
  | .failed report =>
    Command.warn report
    return { failed := 1 }
  | .changed text =>
    if settings.check then Command.say ("Would format: " ++ path ++ "\n")
    else if settings.diff then Command.say (diffText path content text)
    else
      Command.writeText place text
      Command.say ("Formatted: " ++ path ++ "\n")
    return { changed := 1 }

/-- The path of a file, by that of a folder and the names from there. -/
def joinPath (folder : String) (place : Place) : String :=
  if folder.toList.getLast? = some '/' then folder ++ pathText place
  else folder ++ "/" ++ pathText place

/-- The files that a path stands for, by their paths and places: the file itself, or the files of
the folder that are to be formatted. -/
def targets? (settings : Settings) (store : FileStore) (path : String) :
    Option (List (String × Place)) :=
  match store.fileAt? path, store.folderAt? path with
  | some place, _ => some [(path, place)]
  | none, some folder =>
    some ((store.selected settings.noIgnore folder).map fun place =>
      (joinPath path place, folder ++ place))
  | none, none => none

/-- Formats several files. -/
def formatFiles (settings : Settings) : List (String × Place) → Command Tally
  | [] => return {}
  | (path, place) :: files => do
    let tally ← formatFile settings path place
    return tally.add (← formatFiles settings files)

/-- Formats what a path stands for. -/
def formatPath (settings : Settings) (path : String) : Command Tally := do
  match targets? settings (← get).store path with
  | some files => formatFiles settings files
  | none =>
    Command.warn ("Path not found: " ++ path ++ "\n")
    return { failed := 1 }

/-- Formats what several paths stand for. -/
def formatPaths (settings : Settings) : List String → Command Tally
  | [] => return {}
  | path :: paths => do
    let tally ← formatPath settings path
    return tally.add (← formatPaths settings paths)

/-- What is told about the files at the end. -/
def summary (settings : Settings) (tally : Tally) : String :=
  if tally.changed = 0 ∧ tally.unchanged = 0 then ""
  else
    let verb := if settings.check then "would format" else "formatted"
    "\n" ++ toString tally.changed ++ " " ++ verb ++ ", " ++ toString tally.unchanged ++
      " unchanged\n"

/-- Whether the run has failed: a file could not be formatted, or is not as a check wants it. -/
def Tally.isFailure (tally : Tally) (settings : Settings) : Bool :=
  (settings.check && tally.changed > 0) || tally.failed > 0

/-- Formats files. Without paths these are the files of the working directory. -/
def runFiles (settings : Settings) (paths : List String) : Command Unit := do
  let paths := if paths = [] then ["."] else paths
  let tally ← formatPaths settings paths
  let store := (← get).store
  if paths.length > 1 || paths.any fun path => (store.folderAt? path).isSome then
    Command.say (summary settings tally)
  if tally.isFailure settings then Command.stop

/-- Formats the standard input. -/
def runStdin (settings : Settings) (stdin : ByteArray) : Command Unit := do
  match String.fromUTF8? stdin with
  | none => Command.fail "Error reading from stdin: stream did not contain valid UTF-8\n"
  | some content =>
    match format content settings.options with
    | .ok text => Command.say text
    | .error e => Command.fail (errorReport "<stdin>" e content)

end MarkupFormat.Cli
