import MarkupFormat.Cli.Run

/-!
# The program

Loads the files that the arguments can reach, runs the command line on them, and writes back what
has changed.
-/

namespace MarkupFormat.Cli

open FileStore (follow isBelow origin)

/-- What is at a place, as an entry of the root. -/
def entryAt (place : Place) : IO.FS.DirEntry :=
  ⟨"/", pathText place⟩

/-- The files and the folders at a place and below it. What cannot be read is left out. -/
partial def loadEntry (place : Place) (entry : IO.FS.DirEntry) :
    IO (List (Place × ByteArray) × List Place) := do
  try
    if ← entry.path.isDir then
      let below ← (← entry.path.readDir).toList.mapM fun entry =>
        loadEntry (place ++ [entry.fileName]) entry
      return (below.flatMap (·.1), place :: below.flatMap (·.2))
    else return ([(place, ← IO.FS.readBinFile entry.path)], [])
  catch _ => return ([], [])

/-- The places on the way of a path, and the one where it ends. -/
def placesOn (home : Place) (path : String) : List Place × Place :=
  (Text.splitOn (· = '/') path).foldl
    (fun (way, place) name => (way ++ [place], follow place name)) ([], origin home path)

/-- The files below the working directory and at the paths among the arguments. -/
def loadStore (args : List String) : IO FileStore := do
  let home := (Text.splitOn (· = '/') (← IO.currentDir).toString).filter (· ≠ "")
  let paths := (args.filter fun arg => !arg.startsWith "-").map (placesOn home)
  let ends := (home :: paths.map (·.2)).eraseDups
  let loaded ← (ends.filter fun place => !ends.any (isBelow · place)).mapM fun place =>
    loadEntry place (entryAt place)
  let ways ← (paths.flatMap (·.1)).filterM fun place => (entryAt place).path.isDir
  return {
    files := loaded.flatMap (·.1)
    home := home
    folders := loaded.flatMap (·.2) ++ ways }

/-- Writes the files whose bytes differ from those loaded. -/
def saveFiles (loaded store : FileStore) : IO Unit :=
  for (place, content) in store.files do
    if loaded.content? place != some content then
      IO.FS.writeBinFile (entryAt place).path content

/-- Runs the command line on the files that are there. The standard input is read only if the
arguments ask for it. -/
def runOnFiles (args : List String) : IO UInt32 := do
  let store ← loadStore args
  let stdin ←
    if args.contains "--stdin" then (← IO.getStdin).readBinToEnd else pure ByteArray.empty
  let outcome := run args store.toFiles stdin store.toFolders
  IO.print outcome.session.out
  IO.eprint outcome.session.err
  saveFiles store outcome.session.store
  return outcome.code.toUInt32

end MarkupFormat.Cli

def main (args : List String) : IO UInt32 :=
  MarkupFormat.Cli.runOnFiles args
