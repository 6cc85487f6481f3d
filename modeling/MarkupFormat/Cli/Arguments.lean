import MarkupFormat.Format.Options
import MarkupFormat.Text.Search

/-!
# Arguments of the format command

Options begin with a dash; some have a value after an equals sign. All other arguments are paths.
The first argument that cannot be understood ends the reading.
-/

namespace MarkupFormat.Cli

open Format (Options Sensitivity)
open Text (LineEnding)

/-- What the format command is asked to do. -/
structure Settings where
  /-- Files are only compared with their formatted text. -/
  check : Bool := false
  /-- Differences are shown instead of files being changed. -/
  diff : Bool := false
  /-- The source is the standard input. -/
  stdin : Bool := false
  /-- No file is left out. -/
  noIgnore : Bool := false
  options : Options := {}
  deriving Inhabited

/-- An argument that cannot be understood. -/
inductive ArgumentError where
  | unknownOption (arg : String)
  | missingValue (name : String)
  | badValue (name value : String)
  /-- A value that is none of those listed. -/
  | badChoice (name value choices : String)
  deriving DecidableEq, Repr, Inhabited

/-- What is told about the argument. -/
def ArgumentError.message : ArgumentError → String
  | unknownOption arg =>
    "Unknown option: " ++ arg ++ "\nRun 'quill fmt --help' for usage\n"
  | missingValue name => "error: " ++ name ++ " requires a value\n"
  | badValue name value => "error: invalid value for " ++ name ++ ": '" ++ value ++ "'\n"
  | badChoice name value choices =>
    "error: invalid value for " ++ name ++ ": '" ++ value ++ "' (expected " ++ choices ++ ")\n"

/-- The largest width that is understood. -/
def maxWidth : Nat := UInt64.size - 1

/-- The number that decimal digits stand for. -/
def decimal (digits : List Char) : Nat :=
  digits.foldl (fun value digit => 10 * value + (digit.toNat - '0'.toNat)) 0

/-- A positive width. It may have a plus sign. -/
def readWidth? (value : String) : Option Nat :=
  let digits := match value.toList with
    | '+' :: digits => digits
    | digits => digits
  if digits ≠ [] ∧ digits.all Char.isDigit ∧ 0 < decimal digits ∧ decimal digits ≤ maxWidth then
    some (decimal digits)
  else none

/-- A width that an option needs. -/
def readWidth (name : String) (value : Option String) : Except ArgumentError Nat :=
  match value with
  | none => .error (.missingValue name)
  | some value =>
    match readWidth? value with
    | some width => .ok width
    | none => .error (.badValue name value)

/-- A choice that an option needs. -/
def readChoice {α : Type} (name choices : String) (ofName? : String → Option α)
    (value : Option String) : Except ArgumentError α :=
  match ofName? (value.getD "") with
  | some choice => .ok choice
  | none => .error (.badChoice name (value.getD "") choices)

/-- The name of an option and its value, if there is an equals sign. -/
def splitOption (arg : String) : String × Option String :=
  match Text.breakOn ['='] arg.toList with
  | some (name, value) => (String.ofList name, some (String.ofList value))
  | none => (arg, none)

/-- The options with one more set by an argument. A value that is not needed does not matter. -/
def Settings.readOption (settings : Settings) (arg : String) : Except ArgumentError Settings := do
  let (name, value) := splitOption arg
  let options := settings.options
  let set (options : Options) : Settings := { settings with options := options }
  match name with
  | "--print-width" =>
    let width ← readWidth name value
    return set { options with config := { options.config with printWidth := width } }
  | "--tab-width" =>
    let width ← readWidth name value
    return set { options with config := { options.config with tabWidth := width } }
  | "--use-tabs" =>
    return set { options with config := { options.config with useTabs := true } }
  | "--end-of-line" =>
    let ending ← readChoice name "lf, crlf, cr or auto" LineEnding.ofName? value
    return set { options with config := { options.config with lineEnding := ending } }
  | "--whitespace-sensitivity" =>
    let sensitivity ← readChoice name "css, strict or ignore" Sensitivity.ofName? value
    return set { options with sensitivity := sensitivity }
  | "--bracket-same-line" => return set { options with bracketSameLine := true }
  | "--single-attribute-per-line" => return set { options with singleAttributePerLine := true }
  | "--require-pragma" => return set { options with requirePragma := true }
  | "--insert-pragma" => return set { options with insertPragma := true }
  | _ => throw (.unknownOption arg)

/-- What the arguments ask for. -/
inductive FormatRequest where
  | help
  | format (settings : Settings) (paths : List String)
  deriving Inhabited

/-- Reads arguments after others that gave settings and paths, the last path first. -/
def readArguments (settings : Settings) (paths : List String) :
    List String → Except ArgumentError FormatRequest
  | [] => .ok (.format settings paths.reverse)
  | arg :: args =>
    match arg with
    | "--check" => readArguments { settings with check := true } paths args
    | "--diff" => readArguments { settings with diff := true } paths args
    | "--stdin" => readArguments { settings with stdin := true } paths args
    | "--no-ignore" => readArguments { settings with noIgnore := true } paths args
    | "--help" | "-h" => .ok .help
    | _ =>
      if arg.toList.head? = some '-' then
        match settings.readOption arg with
        | .ok settings => readArguments settings paths args
        | .error e => .error e
      else readArguments settings (arg :: paths) args

/-- What the arguments of the format command ask for. -/
def FormatRequest.ofArguments (args : List String) : Except ArgumentError FormatRequest :=
  readArguments {} [] args

/-- Why the standard input cannot be formatted with the given settings and paths. -/
def Settings.stdinConflict? (settings : Settings) (paths : List String) : Option String :=
  if paths ≠ [] then some "Cannot specify paths with --stdin\n"
  else if settings.check then some "Cannot use --check with --stdin\n"
  else if settings.diff then some "Cannot use --diff with --stdin\n"
  else none

end MarkupFormat.Cli
