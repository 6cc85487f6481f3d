import MarkupFormat.Cli.FileStore
import MarkupFormat.Format.Options
import MarkupFormat.Text.Blank
import MarkupFormat.Text.Search

/-!
# Files to format

Which files of a folder are formatted: those whose name tells that they hold markup, unless they
or a folder on the way to them are hidden, hold what a build makes, or fit a pattern.

A pattern is one line of a file that lies in the folder that is formatted. It is compared with the
path from that folder. A pattern may have one star, for anything within a name, or one double
star, for anything.
-/

namespace MarkupFormat.Cli

open Text (breakOn)

/-! ### Patterns -/

/-- A pattern, by its stars. -/
inductive IgnorePattern where
  /-- Anything may stand between the two parts. -/
  | anything (before after : List Char)
  /-- Anything but a slash may stand between the two parts. -/
  | withinName (before after : List Char)
  /-- A path, or a name anywhere. -/
  | exactly (path : List Char)
  /-- A pattern with more stars than are understood fits nothing. -/
  | nothing
  deriving DecidableEq, Repr, Inhabited

namespace IgnorePattern

/-- The file that patterns are read from. -/
def fileName : String := ".quillfmtignore"

/-- Reads a pattern. Slashes next to a double star do not count. -/
def ofChars (pattern : List Char) : IgnorePattern :=
  match breakOn ['*', '*'] pattern with
  | some (before, after) =>
    if Text.occursIn ['*', '*'] after then nothing
    else anything (Text.dropEnd (· = '/') before) (after.dropWhile (· = '/'))
  | none =>
    match breakOn ['*'] pattern with
    | some (before, after) => if '*' ∈ after then nothing else withinName before after
    | none => exactly pattern

/-- The patterns of a file: its lines, but for blank lines and remarks. -/
def ofText (content : String) : List IgnorePattern :=
  (((Text.splitOnChars (· = '\n') content.toList).map (Text.dropEnds Text.isWhiteSpace)).filter
    fun line => line ≠ [] && line.head? ≠ some '#').map ofChars

/-- Whether a pattern fits a path, whose last name is given. -/
def fits (pattern : IgnorePattern) (path name : List Char) : Bool :=
  match pattern with
  | anything before after => before.isPrefixOf path && after.isSuffixOf path
  | withinName before after =>
    before.length + after.length ≤ path.length && before.isPrefixOf path &&
      after.isSuffixOf path &&
      !((path.drop before.length).take
        (path.length - after.length - before.length)).contains '/'
  | exactly text => path = text || (text ++ ['/']).isPrefixOf path || name = text
  | nothing => false

end IgnorePattern

/-! ### Selected files -/

/-- Whether a name tells that a file holds markup. -/
def isMarkupName (name : String) : Bool :=
  match Format.extension? name with
  | some extension => ["html", "htm", "jinja"].contains (extension.map Char.toLower)
  | none => false

/-- Whether a name is always left out. -/
def isSkippedName (name : String) : Bool :=
  name.toList.head? = some '.' || name = "target" || name = "node_modules"

/-- The names of a place with slashes between them. -/
def pathText (place : Place) : String :=
  "/".intercalate place

/-- Whether a file or a folder is left out, by its path from the folder that is formatted. -/
def isLeftOut (patterns : List IgnorePattern) (place : Place) : Bool :=
  match place.getLast? with
  | none => false
  | some name =>
    isSkippedName name ||
      patterns.any fun pattern => pattern.fits (pathText place).toList name.toList

/-- A place and the folders on the way to it, but for the first. -/
def wayTo (place : Place) : List Place :=
  (List.range place.length).map fun count => place.take (count + 1)

/-- Whether a file is formatted, by its path from the folder that is formatted. -/
def isSelected (patterns : Option (List IgnorePattern)) (place : Place) : Bool :=
  place.getLast?.any isMarkupName &&
    match patterns with
    | none => true
    | some patterns => !(wayTo place).any (isLeftOut patterns)

/-- The patterns of a folder. -/
def FileStore.patterns (store : FileStore) (folder : Place) : List IgnorePattern :=
  match (store.content? (folder ++ [IgnorePattern.fileName])).bind String.fromUTF8? with
  | some content => IgnorePattern.ofText content
  | none => []

/-- The files of a folder to format, by their paths from there. If `all` holds, none is left
out. -/
def FileStore.selected (store : FileStore) (all : Bool) (folder : Place) : List Place :=
  let patterns := if all then none else some (store.patterns folder)
  (store.filesBelow folder).filter (isSelected patterns)

end MarkupFormat.Cli
