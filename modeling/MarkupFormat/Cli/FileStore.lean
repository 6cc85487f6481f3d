import MarkupFormat.Text.Blank

/-!
# Files

The files and folders of a file system. A folder is there if it is the working directory or one
that is listed, or if something is below it. A path that starts with a slash is read from the root,
any other one from the working directory.
-/

namespace MarkupFormat.Cli

/-- The names on the way from the root to a file or a folder. -/
abbrev Place := List String

/-- Why a file cannot be read. -/
inductive ReadFault where
  | notFound
  /-- A file stands where the path needs a folder. -/
  | notFolder
  /-- A folder stands where a file is needed. -/
  | isFolder
  /-- The bytes of the file are no text. -/
  | notText
  deriving DecidableEq, Repr, Inhabited

/-- What is told about a file that cannot be read. -/
def ReadFault.message (path : String) : ReadFault → String
  | notFound => "cannot find file '" ++ path ++ "'"
  | notFolder => "error reading '" ++ path ++ "': Not a directory (os error 20)"
  | isFolder => "error reading '" ++ path ++ "': Is a directory (os error 21)"
  | notText => "'" ++ path ++ "' contains invalid UTF-8 data"

/-- Files with their bytes. -/
structure Files where
  files : List (Place × ByteArray)
  deriving Inhabited

/-- Folders that are there even if no file is below them. -/
structure Folders where
  /-- The working directory. -/
  home : Place := []
  folders : List Place := []
  deriving DecidableEq, Inhabited

/-- What a file system holds. -/
structure FileStore extends Files, Folders
  deriving Inhabited

namespace FileStore

variable (store : FileStore)

/-- The bytes of the file at a place. -/
def content? (place : Place) : Option ByteArray :=
  store.files.lookup place

def isFile (place : Place) : Bool :=
  (store.content? place).isSome

/-- Whether a place is below a folder. -/
def isBelow (folder place : Place) : Bool :=
  folder.isPrefixOf place && folder ≠ place

def isFolder (place : Place) : Bool :=
  (store.home :: store.folders).any place.isPrefixOf ||
    store.files.any fun (file, _) => isBelow place file

/-- Changes the bytes of a file. -/
def write (place : Place) (content : ByteArray) : FileStore :=
  { store with
    files := store.files.map fun (file, old) => (file, if file = place then content else old) }

/-- The files below a folder, by the names on the way from there, in the order of these. -/
def filesBelow (folder : Place) : List Place :=
  let found := store.files.filterMap fun (file, _) =>
    if isBelow folder file then some (file.drop folder.length) else none
  found.mergeSort fun a b => !decide (b < a)

/-! ### Paths -/

/-- Where a name leads from a folder. The root is above itself. -/
def follow (place : Place) (name : String) : Place :=
  if name = "" || name = "." then place
  else if name = ".." then place.dropLast
  else place ++ [name]

/-- One step of a path, from a place that has to be a folder. -/
def enter (place : Place) (name : String) : Except ReadFault Place :=
  if store.isFile place then .error .notFolder
  else if !store.isFolder place then .error .notFound
  else .ok (follow place name)

/-- The place where a path starts. -/
def origin (home : Place) (path : String) : Place :=
  if path.toList.head? = some '/' then [] else home

/-- The place that a path leads to. Something need not be there. -/
def resolve (path : String) : Except ReadFault Place :=
  if path = "" then .error .notFound
  else (Text.splitOn (· = '/') path).foldlM store.enter (origin store.home path)

/-- The file that a path leads to. -/
def fileAt? (path : String) : Option Place :=
  (store.resolve path).toOption.filter store.isFile

/-- The folder that a path leads to. -/
def folderAt? (path : String) : Option Place :=
  (store.resolve path).toOption.filter store.isFolder

/-- The text of the file that a path leads to. -/
def readText (path : String) : Except ReadFault String := do
  let place ← store.resolve path
  match store.content? place with
  | some content =>
    match String.fromUTF8? content with
    | some text => .ok text
    | none => .error .notText
  | none => .error (if store.isFolder place then .isFolder else .notFound)

end FileStore

end MarkupFormat.Cli
