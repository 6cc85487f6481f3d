import MarkupFormat.Cli.FormatCommand
import MarkupFormat.Proofs.Markup.Losslessness

/-!
# Paths and the files that they select

Where paths lead, and which files are formatted for them, as far as this does not depend on what files hold.

Files form a tree of folders if no file stands where another one needs a folder and their names can be written in
a path. What a path leads to depends on where there are files and not on what they hold (`SamePlaces.resolve`), and
the path that is made up for a file in a folder leads to that file (`resolve_joinPath`).

A path selects the file that it leads to, or those of its folder that are to be formatted. It reaches these and the
file with the patterns of the folder. The selected files are told by where there are files and by what the reached
ones hold (`selectedBy_congr`).
-/

namespace MarkupFormat.Cli

open Text (splitOn splitOnChars)

/-- A name that stands for a file or a folder wherever it is written. -/
structure IsName (name : String) : Prop where
  nonempty : name ≠ ""
  notHere : name ≠ "."
  notAbove : name ≠ ".."
  noSlash : '/' ∉ name.toList

instance (name : String) : Decidable (IsName name) :=
  decidable_of_iff (name ≠ "" ∧ name ≠ "." ∧ name ≠ ".." ∧ '/' ∉ name.toList)
    ⟨fun ⟨nonempty, notHere, notAbove, noSlash⟩ => ⟨nonempty, notHere, notAbove, noSlash⟩,
      fun isName => ⟨isName.nonempty, isName.notHere, isName.notAbove, isName.noSlash⟩⟩

namespace FileStore

/-- Files whose places are those of a tree of folders. -/
structure IsTree (store : FileStore) : Prop where
  nodup : (store.files.map (·.1)).Nodup
  nonempty : ∀ place, store.isFile place = true → place ≠ []
  names : ∀ place, store.isFile place = true → ∀ name ∈ place, IsName name
  apart : ∀ place other, store.isFile place = true → store.isFile other = true → place <+: other → place = other

/-- There are files and folders at the same places. -/
structure SamePlaces (store other : FileStore) : Prop where
  files : store.files.map (·.1) = other.files.map (·.1)
  folders : store.toFolders = other.toFolders

theorem SamePlaces.refl (store : FileStore) : store.SamePlaces store :=
  ⟨rfl, rfl⟩

theorem SamePlaces.trans {store middle other : FileStore} (first : store.SamePlaces middle)
    (second : middle.SamePlaces other) : store.SamePlaces other :=
  ⟨first.files.trans second.files, first.folders.trans second.folders⟩

variable {store other : FileStore} {place folder : Place} {path : String}

theorem isFile_iff : store.isFile place = true ↔ place ∈ store.files.map (·.1) := by
  unfold isFile content?
  rw [Option.isSome_iff_exists]
  constructor
  · rintro ⟨content, found⟩
    obtain ⟨before, after, split, _⟩ := List.lookup_eq_some_iff.mp found
    simp [split]
  · intro member
    cases found : store.files.lookup place with
    | some content => exact ⟨content, rfl⟩
    | none =>
      obtain ⟨file, inside, rfl⟩ := List.mem_map.mp member
      have none := List.lookup_eq_none_iff.mp found file inside
      simp at none

instance (store : FileStore) : Decidable store.IsTree :=
  let places := store.files.map (·.1)
  decidable_of_iff (places.Nodup ∧ (∀ place ∈ places, place ≠ []) ∧ (∀ place ∈ places, ∀ name ∈ place, IsName name) ∧
      ∀ place ∈ places, ∀ other ∈ places, place <+: other → place = other)
    ⟨fun ⟨nodup, nonempty, names, apart⟩ =>
      ⟨nodup, fun place file => nonempty place (isFile_iff.mp file), fun place file => names place (isFile_iff.mp file),
        fun place other file file' => apart place (isFile_iff.mp file) other (isFile_iff.mp file')⟩,
    fun tree => ⟨tree.nodup, fun place file => tree.nonempty place (isFile_iff.mpr file),
      fun place file => tree.names place (isFile_iff.mpr file),
      fun place file other file' => tree.apart place other (isFile_iff.mpr file) (isFile_iff.mpr file')⟩⟩

theorem isFolder_eq (store : FileStore) (place : Place) :
    store.isFolder place = ((store.home :: store.folders).any place.isPrefixOf ||
      (store.files.map (·.1)).any (isBelow place)) := by
  rw [isFolder, List.any_map]
  rfl

theorem filesBelow_eq (store : FileStore) (folder : Place) :
    store.filesBelow folder =
      ((store.files.map (·.1)).filterMap fun file =>
        if isBelow folder file then some (file.drop folder.length) else none).mergeSort fun a b => !decide (b < a) := by
  rw [filesBelow, List.filterMap_map]
  rfl

theorem mem_filesBelow : place ∈ store.filesBelow folder ↔ place ≠ [] ∧ store.isFile (folder ++ place) = true := by
  rw [filesBelow_eq, (List.mergeSort_perm _ _).mem_iff, List.mem_filterMap, isFile_iff]
  unfold isBelow
  constructor
  · rintro ⟨file, inside, found⟩
    split at found
    · next below =>
      obtain ⟨⟨rest, rfl⟩, other⟩ : folder <+: file ∧ folder ≠ file := by simpa using below
      obtain rfl : rest = place := by simpa using found
      exact ⟨by rintro rfl; simp at other, inside⟩
    · cases found
  · rintro ⟨some, inside⟩
    refine ⟨folder ++ place, inside, ?_⟩
    rw [if_pos (by simpa using some), List.drop_left]

/-! ### What a path leads to -/

namespace SamePlaces

theorem isFile (same : store.SamePlaces other) (place : Place) : store.isFile place = other.isFile place := by
  rw [Bool.eq_iff_iff, isFile_iff, isFile_iff, same.files]

theorem isFolder (same : store.SamePlaces other) (place : Place) :
    store.isFolder place = other.isFolder place := by
  rw [isFolder_eq, isFolder_eq, same.files, same.folders]

theorem filesBelow (same : store.SamePlaces other) (folder : Place) :
    store.filesBelow folder = other.filesBelow folder := by
  rw [filesBelow_eq, filesBelow_eq, same.files]

theorem resolve (same : store.SamePlaces other) (path : String) : store.resolve path = other.resolve path := by
  have enter : store.enter = other.enter := by
    funext place name
    rw [FileStore.enter, FileStore.enter, same.isFile, same.isFolder]
  rw [FileStore.resolve, FileStore.resolve, enter, same.folders]

theorem fileAt? (same : store.SamePlaces other) (path : String) : store.fileAt? path = other.fileAt? path := by
  rw [FileStore.fileAt?, FileStore.fileAt?, same.resolve, funext same.isFile]

theorem folderAt? (same : store.SamePlaces other) (path : String) :
    store.folderAt? path = other.folderAt? path := by
  rw [FileStore.folderAt?, FileStore.folderAt?, same.resolve, funext same.isFolder]

end SamePlaces

theorem resolve_eq_ok_iff : store.resolve path = .ok place ↔
    path ≠ "" ∧ (splitOn (· = '/') path).foldlM store.enter (origin store.home path) = .ok place := by
  unfold resolve
  split
  · next empty => simp [empty]
  · next other => simp [other]

theorem foldlM_enter (tree : store.IsTree) {names : List String} (file : store.isFile (folder ++ names) = true) :
    names.foldlM store.enter folder = .ok (folder ++ names) := by
  induction names generalizing folder with
  | nil =>
    rw [List.append_nil]
    rfl
  | cons name names ih =>
    have notFile : store.isFile folder = false := by
      rw [Bool.eq_false_iff]
      intro isFile
      have same := tree.apart _ _ isFile file (List.prefix_append _ _)
      simp at same
    have isFolder : store.isFolder folder = true := by
      rw [isFolder_eq, Bool.or_eq_true]
      refine .inr (List.any_eq_true.mpr ⟨_, isFile_iff.mp file, ?_⟩)
      simp [isBelow]
    have plain := tree.names _ file name (by simp)
    have entered : store.enter folder name = .ok (folder ++ [name]) := by
      simp [enter, follow, notFile, isFolder, plain.nonempty, plain.notHere, plain.notAbove]
    rw [List.foldlM_cons, entered]
    have rest := @ih (folder ++ [name]) (by simpa using file)
    rw [List.append_assoc] at rest
    exact rest

theorem splitOn_pathText (names : ∀ name ∈ place, IsName name) (some : place ≠ []) :
    splitOnChars (· = '/') (pathText place).toList = place.map String.toList := by
  cases place with
  | nil => exact absurd rfl some
  | cons name rest =>
    rw [pathText, String.toList_intercalate, List.map_cons]
    refine Text.splitOnChars_intercalate (by decide) fun piece member d inside => ?_
    obtain ⟨name, isName, rfl⟩ := List.mem_map.mp (List.map_cons ▸ member)
    have other : d ≠ '/' := by
      rintro rfl
      exact (names name isName).noSlash inside
    simpa using other

theorem splitOnChars_pathText (cs : List Char) (names : ∀ name ∈ place, IsName name) (some : place ≠ []) :
    (splitOnChars (· = '/') (cs ++ '/' :: (pathText place).toList)).map String.ofList =
      (splitOnChars (· = '/') cs).map String.ofList ++ place := by
  rw [Text.splitOnChars_append (by decide), List.map_append, splitOn_pathText names some, List.map_map]
  simp [Function.comp_def]

theorem eq_of_enter_empty (entered : store.enter place "" = .ok folder) : place = folder := by
  unfold enter at entered
  split at entered
  · cases entered
  · split at entered
    · cases entered
    · exact Except.ok.inj entered

theorem foldlM_enter_of_append_empty {names : List String} {start : Place}
    (walked : (names ++ [""]).foldlM store.enter start = .ok folder) : names.foldlM store.enter start = .ok folder := by
  rw [List.foldlM_append] at walked
  cases reached : names.foldlM store.enter start with
  | error fault =>
    rw [reached] at walked
    cases walked
  | ok place =>
    rw [reached] at walked
    have one : [""].foldlM store.enter place = store.enter place "" := by
      rw [List.foldlM_cons]
      exact bind_pure (store.enter place "")
    rw [eq_of_enter_empty (one.symm.trans walked)]

theorem origin_append {more : String} (some : path ≠ "") (home : Place) : origin home (path ++ more) = origin home path := by
  unfold origin
  rw [String.toList_append]
  cases chars : path.toList with
  | nil => exact absurd (String.toList_eq_nil_iff.mp chars) some
  | cons c cs => rfl

theorem resolve_of_append {cs : List Char} {more : String} (tree : store.IsTree)
    (file : store.isFile (folder ++ place) = true) (some : path ≠ "")
    (split : splitOn (· = '/') (path ++ more) = (splitOnChars (· = '/') cs).map String.ofList ++ place)
    (walked : ((splitOnChars (· = '/') cs).map String.ofList).foldlM store.enter (origin store.home path) = .ok folder) :
    store.resolve (path ++ more) = .ok (folder ++ place) := by
  refine resolve_eq_ok_iff.mpr ⟨by simp [some], ?_⟩
  rw [split, origin_append some, List.foldlM_append, walked]
  exact foldlM_enter tree file

theorem resolve_joinPath (tree : store.IsTree) (found : store.resolve path = .ok folder) (some : place ≠ [])
    (file : store.isFile (folder ++ place) = true) : store.resolve (joinPath path place) = .ok (folder ++ place) := by
  have names : ∀ name ∈ place, IsName name := fun name member => tree.names _ file name (List.mem_append_right _ member)
  obtain ⟨written, walked⟩ := resolve_eq_ok_iff.mp found
  unfold joinPath
  split
  · next slash =>
    -- The path of the folder ends with a slash, so its last name is empty and leads nowhere.
    obtain ⟨cs, ends⟩ : ∃ cs, path.toList = cs ++ ['/'] := List.getLast?_eq_some_iff.mp slash
    have folderNames : splitOn (· = '/') path = (splitOnChars (· = '/') cs).map String.ofList ++ [""] := by
      rw [splitOn, ends, Text.splitOnChars_append (by decide), List.map_append]
      rfl
    rw [folderNames] at walked
    refine resolve_of_append tree file written ?_ (foldlM_enter_of_append_empty walked)
    rw [splitOn, String.toList_append, ends, List.append_assoc]
    exact splitOnChars_pathText cs names some
  · rw [String.append_assoc]
    refine resolve_of_append tree file written ?_ walked
    rw [splitOn, String.toList_append, String.toList_append]
    exact splitOnChars_pathText _ names some

end FileStore

/-! ### Selected files -/

variable {settings : Settings} {store other : FileStore} {path : String} {file : String × Place}

/-- The files to format for a path, by their paths and places. -/
def selectedBy (settings : Settings) (store : FileStore) (path : String) : List (String × Place) :=
  (targets? settings store path).getD []

/-- The place of the file with the patterns that a path needs. -/
def patternPlace? (settings : Settings) (store : FileStore) (path : String) : Option Place :=
  if settings.noIgnore || (store.fileAt? path).isSome then none
  else (store.folderAt? path).map (· ++ [IgnorePattern.fileName])

/-- The places of the files that are read for a path. -/
def reachedBy (settings : Settings) (store : FileStore) (path : String) : List Place :=
  (selectedBy settings store path).map (·.2) ++ (patternPlace? settings store path).toList

/-- There is nothing at a path. -/
def FileStore.isMissing (store : FileStore) (path : String) : Bool :=
  (store.fileAt? path).isNone && (store.folderAt? path).isNone

theorem targets?_eq_none_iff : targets? settings store path = none ↔ store.isMissing path = true := by
  unfold targets? FileStore.isMissing
  split <;> simp_all

theorem selectedBy_of_isMissing (missing : store.isMissing path = true) : selectedBy settings store path = [] := by
  rw [selectedBy, targets?_eq_none_iff.mpr missing]
  rfl

theorem targets?_of_present (present : store.isMissing path = false) :
    targets? settings store path = some (selectedBy settings store path) := by
  unfold selectedBy
  cases found : targets? settings store path with
  | some files => rfl
  | none =>
    rw [targets?_eq_none_iff.mp found] at present
    cases present

theorem mem_selectedBy (member : file ∈ selectedBy settings store path) :
    (path = file.1 ∧ store.fileAt? path = some file.2) ∨
      ∃ folder place, store.folderAt? path = some folder ∧ place ∈ store.selected settings.noIgnore folder ∧
        file = (joinPath path place, folder ++ place) := by
  unfold selectedBy targets? at member
  split at member
  · next place isFile =>
    obtain rfl := List.mem_singleton.mp member
    exact .inl ⟨rfl, isFile⟩
  · next folder isFile isFolder =>
    obtain ⟨place, inside, rfl⟩ := List.mem_map.mp member
    exact .inr ⟨folder, place, isFolder, inside, rfl⟩
  · cases member

/-! ### Where selected files lie -/

theorem isPrefix_of_mem_reachedBy {folder place : Place} (notFile : store.fileAt? path = none)
    (isFolder : store.folderAt? path = some folder) (reached : place ∈ reachedBy settings store path) :
    folder <+: place := by
  obtain selected | needed := List.mem_append.mp reached
  · obtain ⟨file, member, rfl⟩ := List.mem_map.mp selected
    obtain ⟨_, isFile⟩ | ⟨found, below, isFolder', _, rfl⟩ := mem_selectedBy member
    · rw [notFile] at isFile
      cases isFile
    · obtain rfl := Option.some.inj (isFolder.symm.trans isFolder')
      exact List.prefix_append _ _
  · have needed := Option.mem_toList.mp needed
    unfold patternPlace? at needed
    split at needed
    · cases needed
    · rw [isFolder] at needed
      obtain rfl := Option.some.inj needed
      exact List.prefix_append _ _

theorem resolve_of_filter {holds : Place → Bool} {place : Place}
    (found : (store.resolve path).toOption.filter holds = some place) :
    store.resolve path = .ok place ∧ holds place = true := by
  obtain ⟨reached, holds⟩ := Option.filter_eq_some_iff.mp found
  cases resolved : store.resolve path with
  | ok place =>
    rw [resolved] at reached
    exact ⟨congrArg _ (Option.some.inj reached), holds⟩
  | error fault =>
    rw [resolved] at reached
    cases reached

theorem resolve_of_mem_selectedBy (tree : store.IsTree) (member : file ∈ selectedBy settings store path) :
    store.resolve file.1 = .ok file.2 ∧ store.isFile file.2 = true := by
  obtain ⟨rfl, isFile⟩ | ⟨folder, place, isFolder, inside, rfl⟩ := mem_selectedBy member
  · exact resolve_of_filter isFile
  · obtain ⟨resolved, _⟩ := resolve_of_filter isFolder
    obtain ⟨some, below⟩ := FileStore.mem_filesBelow.mp (List.mem_filter.mp inside).1
    exact ⟨FileStore.resolve_joinPath tree resolved some below, below⟩

theorem nodup_filesBelow (tree : store.IsTree) (folder : Place) : (store.filesBelow folder).Nodup := by
  rw [FileStore.filesBelow_eq, (List.mergeSort_perm _ _).nodup_iff, List.nodup_iff_pairwise_ne,
    List.pairwise_filterMap]
  refine (List.nodup_iff_pairwise_ne.mp tree.nodup).imp fun {first second} apart one found two found' same => ?_
  split at found
  · next below =>
    split at found'
    · next below' =>
      obtain ⟨⟨rest, rfl⟩, _⟩ : folder <+: first ∧ folder ≠ first := by simpa [FileStore.isBelow] using below
      obtain ⟨⟨rest', rfl⟩, _⟩ : folder <+: second ∧ folder ≠ second := by simpa [FileStore.isBelow] using below'
      obtain rfl : rest = one := by simpa using found
      obtain rfl : rest' = two := by simpa using found'
      exact apart (same ▸ rfl)
    · cases found'
  · cases found

theorem nodup_selectedBy (tree : store.IsTree) (settings : Settings) (path : String) :
    ((selectedBy settings store path).map (·.2)).Nodup := by
  unfold selectedBy targets?
  split
  · simp
  · next folder _ _ =>
    have nodup := (nodup_filesBelow tree folder).filter
      (isSelected (if settings.noIgnore then none else some (store.patterns folder)))
    rw [Option.getD_some, List.map_map, List.nodup_iff_pairwise_ne, List.pairwise_map]
    exact (List.nodup_iff_pairwise_ne.mp nodup).imp fun apart same => apart (List.append_cancel_left same)
  · exact List.nodup_nil

/-! ### What the selection depends on -/

theorem isMissing_congr (same : store.SamePlaces other) (path : String) :
    store.isMissing path = other.isMissing path := by
  rw [FileStore.isMissing, FileStore.isMissing, same.fileAt?, same.folderAt?]

theorem patternPlace?_congr (same : store.SamePlaces other) (settings : Settings) (path : String) :
    patternPlace? settings store path = patternPlace? settings other path := by
  rw [patternPlace?, patternPlace?, same.fileAt?, same.folderAt?]

theorem selectedBy_congr (same : store.SamePlaces other)
    (kept : ∀ place ∈ patternPlace? settings store path, store.content? place = other.content? place) :
    selectedBy settings store path = selectedBy settings other path := by
  unfold selectedBy targets?
  rw [← same.fileAt?, ← same.folderAt?]
  split
  · rfl
  · next folder notFile isFolder =>
    have selected : store.selected settings.noIgnore folder = other.selected settings.noIgnore folder := by
      unfold FileStore.selected
      rw [same.filesBelow]
      split
      · rfl
      · next ignores =>
        have needed : patternPlace? settings store path = some (folder ++ [IgnorePattern.fileName]) := by
          simp [patternPlace?, ignores, notFile, isFolder]
        rw [FileStore.patterns, FileStore.patterns, kept _ needed]
    rw [selected]
  · rfl

end MarkupFormat.Cli
