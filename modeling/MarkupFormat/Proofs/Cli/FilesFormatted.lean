import MarkupFormat.Cli.Run
import MarkupFormat.Proofs.Cli.Verdicts

/-!
# Formatted files

The format command comes to a verdict on each selected file, whichever path selects it, as long as no file is selected
for one path and reached for a later one (`gives_formatFiles`, `gives_formatPaths`). `run_fmt` says what a run leaves
behind and how it ends.
-/

namespace MarkupFormat.Cli

variable {settings : Settings} {store : FileStore} {place : Place} {files : List (String × Place)}
  {session after : Session} {text path : String}

/-! ### Runs of commands -/

namespace Command

variable {α β : Type} {command : Command α} {middle : Session} {value : α} {result : β}

/-- A command comes to a value and leaves a session. -/
def Gives (command : Command α) (session : Session) (value : α) (after : Session) : Prop :=
  (ExceptT.run command).run session = (.ok value, after)

theorem Gives.bind {next : α → Command β} (first : command.Gives session value middle)
    (second : (next value).Gives middle result after) : (command >>= next).Gives session result after := by
  unfold Gives at first second ⊢
  rw [ExceptT.run_bind, StateT.run_bind, first]
  exact second

theorem run_bind {command : Command α} {next : α → Command Unit} (first : command.Gives session value middle) :
    Command.run (command >>= next) session = Command.run (next value) middle := by
  unfold Gives at first
  unfold Command.run
  rw [ExceptT.run_bind, StateT.run_bind, first]
  rfl

theorem gives_say (text : String) (session : Session) :
    (say text).Gives session () { session with out := session.out ++ text } :=
  rfl

theorem gives_warn (text : String) (session : Session) :
    (warn text).Gives session () { session with err := session.err ++ text } :=
  rfl

theorem gives_writeText (place : Place) (text : String) (session : Session) :
    (writeText place text).Gives session () { session with store := session.store.write place text.toUTF8 } :=
  rfl

theorem gives_get (session : Session) : (get : Command Session).Gives session session session :=
  rfl

theorem gives_readText (found : session.store.readText path = .ok text) :
    (readText path).Gives session text session := by
  refine (gives_get session).bind ?_
  rw [found]
  rfl

end Command

open Command (Gives gives_say gives_warn gives_writeText gives_get gives_readText)

theorem gives_formatFile (settings : Settings) (resolved : session.store.resolve path = .ok place)
    (holds : session.store.text? place = some text) :
    ∃ after, (formatFile settings path place).Gives session (.ofVerdicts [judge settings path text]) after ∧
      after.store = session.store.settle settings (path, place) := by
  have read := gives_readText (FileStore.readText_of_text? resolved holds)
  unfold FileStore.settle FileStore.newText?
  rw [FileStore.verdict?_of_text? holds]
  dsimp only
  cases judged : judge settings path text with
  | unchanged => exact ⟨session, read.bind (by rw [judged]; rfl), rfl⟩
  | failed report =>
    refine ⟨{ session with err := session.err ++ report }, read.bind ?_, rfl⟩
    rw [judged]
    exact (gives_warn report session).bind rfl
  | changed new =>
    cases check : settings.check with
    | true =>
      refine ⟨{ session with out := session.out ++ ("Would format: " ++ path ++ "\n") }, read.bind ?_, rfl⟩
      rw [judged]
      simp only [check, if_true]
      exact (gives_say _ session).bind rfl
    | false =>
      cases diff : settings.diff with
      | true =>
        refine ⟨{ session with out := session.out ++ diffText path text new }, read.bind ?_, rfl⟩
        rw [judged]
        simp only [check, diff, if_true]
        exact (gives_say _ session).bind rfl
      | false =>
        refine ⟨{ session with
          store := session.store.write place new.toUTF8
          out := session.out ++ ("Formatted: " ++ path ++ "\n") }, read.bind ?_, rfl⟩
        rw [judged]
        simp only [check, diff]
        exact (gives_writeText place new session).bind ((gives_say _ _).bind rfl)

theorem gives_formatFiles (settings : Settings) (session : Session)
    (resolved : ∀ file ∈ files, session.store.resolve file.1 = .ok file.2)
    (holds : ∀ file ∈ files, (session.store.text? file.2).isSome = true) (nodup : (files.map (·.2)).Nodup) :
    ∃ after, (formatFiles settings files).Gives session (.ofVerdicts (verdicts settings session.store files)) after ∧
      after.store = session.store.settleAll settings files := by
  induction files generalizing session with
  | nil => exact ⟨session, rfl, rfl⟩
  | cons file files ih =>
    obtain ⟨path, place⟩ := file
    obtain ⟨leads, resolved⟩ := List.forall_mem_cons.mp resolved
    obtain ⟨first, holds⟩ := List.forall_mem_cons.mp holds
    obtain ⟨apart, nodup⟩ := List.nodup_cons.mp nodup
    obtain ⟨text, found⟩ := Option.isSome_iff_exists.mp first
    obtain ⟨middle, gives, settled⟩ := gives_formatFile settings leads found
    -- No place occurs twice, so the other files still hold what the verdicts are about.
    have kept : ∀ file ∈ files, middle.store.content? file.2 = session.store.content? file.2 := by
      intro file member
      rw [settled]
      refine FileStore.content?_settle_of_ne fun same => apart ?_
      have inside := List.mem_map_of_mem (f := (·.2)) member
      rwa [same] at inside
    have same : middle.store.SamePlaces session.store := settled ▸ FileStore.samePlaces_settle _ _ _
    have holds : ∀ file ∈ files, (middle.store.text? file.2).isSome = true := by
      intro file member
      rw [FileStore.text?, kept file member]
      exact holds file member
    have resolved : ∀ file ∈ files, middle.store.resolve file.1 = .ok file.2 := fun file member =>
      (same.resolve _).trans (resolved file member)
    obtain ⟨after, rest, store⟩ := ih middle resolved holds nodup
    refine ⟨after, ?_, ?_⟩
    · have count : Tally.ofVerdicts (verdicts settings session.store ((path, place) :: files)) =
          (Tally.ofVerdicts [judge settings path text]).add (.ofVerdicts (verdicts settings middle.store files)) := by
        rw [← Tally.ofVerdicts_append, verdicts_congr kept, verdicts,
          List.filterMap_cons_some (FileStore.verdict?_of_text? found)]
        rfl
      rw [count]
      exact gives.bind (rest.bind rfl)
    · rw [store, settled]
      rfl

/-! ### Runs over paths -/

/-- No file is selected for one path and reached for a later one. -/
def ReachedApart (settings : Settings) (store : FileStore) (paths : List String) : Prop :=
  paths.Pairwise fun path later => ∀ file ∈ selectedBy settings store path, file.2 ∉ reachedBy settings store later

/-- The files to format for several paths. -/
def selectedByAll (settings : Settings) (store : FileStore) (paths : List String) : List (String × Place) :=
  paths.flatMap (selectedBy settings store)

theorem ReachedApart.nodup {paths : List String} (tree : store.IsTree) (apart : ReachedApart settings store paths) :
    ((selectedByAll settings store paths).map (·.2)).Nodup := by
  rw [selectedByAll, List.map_flatMap, List.nodup_iff_pairwise_ne, List.pairwise_flatMap]
  refine ⟨fun path _ => List.nodup_iff_pairwise_ne.mp (nodup_selectedBy tree settings path), apart.imp ?_⟩
  intro path later others place first other second same
  obtain ⟨file, member, rfl⟩ := List.mem_map.mp first
  exact others file member (List.mem_append_left _ (same ▸ second))

/-- What formatting files comes to when some paths lead nowhere. -/
def tallyOf (settings : Settings) (store : FileStore) (paths : List String) : Tally :=
  (Tally.ofVerdicts (verdicts settings store (selectedByAll settings store paths))).add
    { failed := paths.countP store.isMissing }

theorem tallyOf_cons (settings : Settings) (store : FileStore) (path : String) (paths : List String) :
    tallyOf settings store (path :: paths) = (tallyOf settings store [path]).add (tallyOf settings store paths) := by
  have split : verdicts settings store (selectedByAll settings store (path :: paths)) =
      verdicts settings store (selectedByAll settings store [path]) ++
        verdicts settings store (selectedByAll settings store paths) := by
    simp [verdicts, selectedByAll]
  have count : ([path] ++ paths).countP store.isMissing =
      [path].countP store.isMissing + paths.countP store.isMissing := List.countP_append
  rw [List.singleton_append] at count
  unfold tallyOf
  rw [split, Tally.ofVerdicts_append, count]
  simp only [Tally.add, Tally.mk.injEq]
  omega

theorem gives_formatPath (settings : Settings) (tree : store.IsTree) (readable : store.IsReadable)
    (same : session.store.SamePlaces store)
    (kept : ∀ place ∈ reachedBy settings store path, session.store.content? place = store.content? place) :
    ∃ after, (formatPath settings path).Gives session (tallyOf settings store [path]) after ∧
      after.store = session.store.settleAll settings (selectedBy settings store path) := by
  have reads := gives_get session
  cases missing : store.isMissing path with
  | true =>
    have none : targets? settings session.store path = none :=
      targets?_eq_none_iff.mpr ((isMissing_congr same path).trans missing)
    have count : tallyOf settings store [path] = { failed := 1 } := by
      simp [tallyOf, selectedByAll, selectedBy_of_isMissing missing, missing, verdicts, Tally.ofVerdicts, Tally.add]
    rw [selectedBy_of_isMissing missing, count]
    refine ⟨{ session with err := session.err ++ ("Path not found: " ++ path ++ "\n") }, reads.bind ?_, rfl⟩
    rw [none]
    exact (gives_warn _ session).bind rfl
  | false =>
    have selected : selectedBy settings session.store path = selectedBy settings store path := by
      refine selectedBy_congr same fun place needed => kept place (List.mem_append_right _ ?_)
      rw [← patternPlace?_congr same]
      exact Option.mem_toList.mpr needed
    have targets : targets? settings session.store path = some _ :=
      targets?_of_present ((isMissing_congr same path).trans missing)
    have places {file : String × Place} (member : file ∈ selectedBy settings store path) :
        session.store.content? file.2 = store.content? file.2 :=
      kept _ (List.mem_append_left _ (List.mem_map_of_mem member))
    have resolved : ∀ file ∈ selectedBy settings store path, session.store.resolve file.1 = .ok file.2 :=
      fun file member => (same.resolve _).trans (resolve_of_mem_selectedBy tree member).1
    have holds : ∀ file ∈ selectedBy settings store path, (session.store.text? file.2).isSome = true := by
      intro file member
      rw [FileStore.text?, places member]
      exact readable _ (resolve_of_mem_selectedBy tree member).2
    have count : tallyOf settings store [path] =
        .ofVerdicts (verdicts settings session.store (selectedBy settings store path)) := by
      rw [verdicts_congr fun file => places]
      simp [tallyOf, selectedByAll, missing, Tally.add]
    have nodup := nodup_selectedBy tree settings path
    obtain ⟨after, gives, settled⟩ := gives_formatFiles settings session resolved holds nodup
    refine ⟨after, reads.bind ?_, settled⟩
    rw [targets, selected, count]
    exact gives

theorem gives_formatPaths {paths : List String} (session : Session) (tree : store.IsTree) (readable : store.IsReadable)
    (apart : ReachedApart settings store paths) (same : session.store.SamePlaces store)
    (kept : ∀ path ∈ paths, ∀ place ∈ reachedBy settings store path,
      session.store.content? place = store.content? place) :
    ∃ after, (formatPaths settings paths).Gives session (tallyOf settings store paths) after ∧
      after.store = session.store.settleAll settings (selectedByAll settings store paths) := by
  induction paths generalizing session with
  | nil => exact ⟨session, rfl, rfl⟩
  | cons path paths ih =>
    obtain ⟨first, apart⟩ := List.pairwise_cons.mp apart
    obtain ⟨here, kept⟩ := List.forall_mem_cons.mp kept
    obtain ⟨middle, gives, settled⟩ := gives_formatPath settings tree readable same here
    have same : middle.store.SamePlaces store := (settled ▸ FileStore.samePlaces_settleAll _ _ _).trans same
    have kept : ∀ later ∈ paths, ∀ place ∈ reachedBy settings store later,
        middle.store.content? place = store.content? place := by
      intro later member place reached
      rw [settled, FileStore.content?_settleAll_of_notMem, kept later member place reached]
      intro selected
      obtain ⟨file, inside, rfl⟩ := List.mem_map.mp selected
      exact first later member file inside reached
    obtain ⟨after, rest, store'⟩ := ih middle apart same kept
    refine ⟨after, ?_, ?_⟩
    · rw [tallyOf_cons]
      exact gives.bind (rest.bind rfl)
    · rw [store', settled]
      exact (List.foldl_append).symm

/-! ### What a run leaves behind -/

/-- The paths that are formatted: those that are given, or the working directory. -/
def pathsOrHere (paths : List String) : List String :=
  if paths = [] then ["."] else paths

/-- Whether the counts are told at the end. -/
def tellsCounts (store : FileStore) (paths : List String) : Bool :=
  paths.length > 1 || paths.any fun path => (store.folderAt? path).isSome

theorem run_runFiles {paths : List String} {tally : Tally}
    (gives : (formatPaths settings (pathsOrHere paths)).Gives session tally after) :
    Command.run (runFiles settings paths) session =
      ⟨if tally.isFailure settings then 1 else 0,
        { after with
          out := after.out ++
            if tellsCounts after.store (pathsOrHere paths) then summary settings tally else "" }⟩ := by
  have ends (last : Session) : Command.run (if tally.isFailure settings then Command.stop else pure ()) last =
      ⟨if tally.isFailure settings then 1 else 0, last⟩ := by
    split <;> rfl
  refine (Command.run_bind gives).trans ((Command.run_bind (gives_get after)).trans ?_)
  show Command.run (if tellsCounts after.store (pathsOrHere paths) then _ else _) after = _
  cases tellsCounts after.store (pathsOrHere paths) with
  | true => exact (Command.run_bind (gives_say _ after)).trans (ends _)
  | false =>
    refine (ends after).trans ?_
    simp

theorem run_fmt_eq {args : List String} {paths : List String} (store : FileStore) (stdin : ByteArray)
    (asked : FormatRequest.ofArguments args = .ok (.format settings paths)) (fromFiles : settings.stdin = false) :
    run ("fmt" :: args) store.toFiles stdin store.toFolders = Command.run (runFiles settings paths) { store := store } := by
  show Command.run (formatCommand stdin args) { store := store } = _
  unfold formatCommand
  rw [asked]
  simp only [fromFiles]
  rfl

/-- What formatting the files that paths select makes of a store, how it counts them, and how it ends. -/
structure FormatsOnly (settings : Settings) (store : FileStore) (paths : List String) (outcome : Outcome) :
    Prop where
  shown : settings.check = true ∨ settings.diff = true → outcome.session.store = store
  formatted : settings.check = false → settings.diff = false → ∀ file ∈ selectedByAll settings store paths, ∀ text,
    store.formatted? settings file = some (.ok text) →
      outcome.session.store.content? file.2 = some text.toUTF8
  failed : ∀ file ∈ selectedByAll settings store paths, Fails settings store file →
    outcome.session.store.content? file.2 = store.content? file.2
  untouched : ∀ place ∉ (selectedByAll settings store paths).map (·.2),
    outcome.session.store.content? place = store.content? place
  samePlaces : outcome.session.store.SamePlaces store
  /-- The order of the files does not matter. -/
  anyOrder : ∀ order, order.Perm (selectedByAll settings store paths) → ∃ after,
    (formatFiles settings order).Gives { store := store }
      (.ofVerdicts (verdicts settings store (selectedByAll settings store paths))) after ∧
    after.store = outcome.session.store
  /-- The counts are those that are told at the end. -/
  counted : ∃ tally after, (formatPaths settings paths).Gives { store := store } tally after ∧
    tally.changed + tally.unchanged + tally.failed =
      (selectedByAll settings store paths).length + paths.countP store.isMissing ∧
    outcome.session.out = after.out ++ if tellsCounts store paths then summary settings tally else ""
  code : outcome.code = 0 ∨ outcome.code = 1
  code_eq_one_iff : outcome.code = 1 ↔
    (∃ path ∈ paths, store.isMissing path = true) ∨
    (∃ file ∈ selectedByAll settings store paths, Fails settings store file) ∨
    settings.check = true ∧ ∃ file ∈ selectedByAll settings store paths, Differs settings store file

/-- The format command changes the selected files that can be formatted, and no others. -/
theorem run_fmt {args : List String} {paths : List String} (tree : store.IsTree) (readable : store.IsReadable)
    (asked : FormatRequest.ofArguments args = .ok (.format settings paths)) (fromFiles : settings.stdin = false)
    (apart : ReachedApart settings store (pathsOrHere paths)) (stdin : ByteArray) :
    FormatsOnly settings store (pathsOrHere paths) (run ("fmt" :: args) store.toFiles stdin store.toFolders) := by
  obtain ⟨after, gives, settled⟩ :=
    gives_formatPaths { store := store } tree readable apart (.refl store) fun _ _ _ _ => rfl
  have resolved : ∀ file ∈ selectedByAll settings store (pathsOrHere paths),
      store.resolve file.1 = .ok file.2 ∧ store.isFile file.2 = true := by
    intro file member
    obtain ⟨path, _, inside⟩ := List.mem_flatMap.mp member
    exact resolve_of_mem_selectedBy tree inside
  have nodup := apart.nodup tree
  have tells : tellsCounts after.store = tellsCounts store := by
    have same : after.store.SamePlaces store := settled ▸ FileStore.samePlaces_settleAll _ _ _
    funext paths
    rw [tellsCounts, tellsCounts, funext same.folderAt?]
  have ran := (run_fmt_eq store stdin asked fromFiles).trans (run_runFiles gives)
  have left : (run ("fmt" :: args) store.toFiles stdin store.toFolders).session.store = after.store := by
    rw [ran]
  rw [settled] at left
  constructor
  case shown =>
    intro shown
    rw [left]
    exact FileStore.settleAll_of_shown shown _
  case formatted =>
    intro check diff file member text formatted
    rw [left, FileStore.content?_settleAll_of_mem nodup member]
    exact FileStore.content?_settle_of_ok check diff formatted
  case failed =>
    intro file member ⟨error, fails⟩
    rw [left, FileStore.content?_settleAll_of_mem nodup member]
    exact FileStore.content?_settle_of_error fails
  case untouched =>
    intro place apart
    rw [left]
    exact FileStore.content?_settleAll_of_notMem apart
  case samePlaces =>
    rw [left]
    exact FileStore.samePlaces_settleAll _ _ _
  case anyOrder =>
    intro order perm
    rw [left, ← ofVerdicts_perm perm, ← FileStore.settleAll_perm nodup perm]
    refine gives_formatFiles settings { store := store } (fun file member => (resolved file (perm.mem_iff.mp member)).1)
      (fun file member => readable _ (resolved file (perm.mem_iff.mp member)).2) ?_
    exact (perm.map _).nodup_iff.mpr nodup
  case counted =>
    refine ⟨_, after, gives, ?_, ?_⟩
    · have holds : ∀ file ∈ selectedByAll settings store (pathsOrHere paths), (store.text? file.2).isSome = true :=
        fun file member => readable _ (resolved file member).2
      have total := Tally.total_ofVerdicts (verdicts settings store (selectedByAll settings store (pathsOrHere paths)))
      rw [length_verdicts holds] at total
      simp only [tallyOf, Tally.add]
      omega
    · rw [ran, tells]
  case code =>
    rw [ran]
    simp only
    split <;> simp
  case code_eq_one_iff =>
    rw [ran, ← failed_pos_iff, ← changed_pos_iff]
    have missing : 0 < (pathsOrHere paths).countP store.isMissing ↔
        ∃ path ∈ pathsOrHere paths, store.isMissing path = true := List.countP_pos_iff
    rw [← missing]
    have ends (failure : Bool) : (if failure = true then 1 else 0) = 1 ↔ failure = true := by
      cases failure <;> simp
    rw [ends, Tally.isFailure_iff]
    simp only [tallyOf, Tally.add, Nat.add_zero]
    rw [Nat.add_pos_iff_pos_or_pos, or_comm, or_comm (a := 0 < (Tally.ofVerdicts _).failed), or_assoc]

/-- A page that can be formatted beside the working directory, which has a folder of pages with the patterns of those
that are left out, and an empty folder. -/
def siteStore : FileStore where
  files := [(["a.html"], "<p>\na</p>".toUTF8), (["work", "site", ".quillfmtignore"], "drafts/\n".toUTF8),
    (["work", "site", "b.html"], "<p".toUTF8), (["work", "site", "drafts", "c.html"], "<p>c</p>".toUTF8)]
  home := ["work"]
  folders := [["work", "empty"]]

/-- The settings that ask for tabs. -/
def tabSettings : Settings :=
  { options := { config := { useTabs := true } } }

theorem run_fmt_site :
    siteStore.IsTree ∧ siteStore.IsReadable ∧
      FormatRequest.ofArguments ["site", "--use-tabs", "../a.html", "/gone", "empty"] =
        .ok (.format tabSettings ["site", "../a.html", "/gone", "empty"]) ∧
      ReachedApart tabSettings siteStore ["site", "../a.html", "/gone", "empty"] ∧
      siteStore.isMissing "/gone" = true ∧ siteStore.isMissing "empty" = false ∧
      (run ["fmt", "site", "--use-tabs", "../a.html", "/gone", "empty"] siteStore.toFiles ByteArray.empty
        siteStore.toFolders).code = 1 ∧
      FormatsOnly tabSettings siteStore ["site", "../a.html", "/gone", "empty"]
        (run ["fmt", "site", "--use-tabs", "../a.html", "/gone", "empty"] siteStore.toFiles ByteArray.empty
          siteStore.toFolders) := by
  have tree : siteStore.IsTree := by decide +kernel
  have readable : siteStore.IsReadable := by decide +kernel
  have missing : siteStore.isMissing "/gone" = true := by decide +kernel
  have present : siteStore.isMissing "empty" = false := by decide +kernel
  have asked : FormatRequest.ofArguments ["site", "--use-tabs", "../a.html", "/gone", "empty"] =
      .ok (.format tabSettings ["site", "../a.html", "/gone", "empty"]) := rfl
  have apart : ReachedApart tabSettings siteStore ["site", "../a.html", "/gone", "empty"] := by
    have page : selectedBy tabSettings siteStore "../a.html" = [("../a.html", ["a.html"])] := by decide +kernel
    have onlyPage : reachedBy tabSettings siteStore "../a.html" = [["a.html"]] := by decide +kernel
    have nothing : reachedBy tabSettings siteStore "/gone" = [] := by decide +kernel
    have folder : siteStore.fileAt? "site" = none ∧ siteStore.folderAt? "site" = some ["work", "site"] := by
      decide +kernel
    have other : siteStore.fileAt? "empty" = none ∧ siteStore.folderAt? "empty" = some ["work", "empty"] := by
      decide +kernel
    have inside : ∀ file ∈ selectedBy tabSettings siteStore "site", ["work", "site"] <+: file.2 := fun file member =>
      isPrefix_of_mem_reachedBy folder.1 folder.2 (List.mem_append_left _ (List.mem_map_of_mem member))
    have inOther {place : Place} (reached : place ∈ reachedBy tabSettings siteStore "empty") :
        ["work", "empty"] <+: place := isPrefix_of_mem_reachedBy other.1 other.2 reached
    have noPage : ∀ file ∈ selectedBy tabSettings siteStore "site", file.2 ∉ [["a.html"]] := by
      intro file member same
      have below := inside file member
      rw [List.mem_singleton.mp same] at below
      exact absurd below (by decide)
    have noOther : ∀ file ∈ selectedBy tabSettings siteStore "site",
        file.2 ∉ reachedBy tabSettings siteStore "empty" := by
      intro file member reached
      have both := (List.prefix_of_prefix_length_le (inside file member) (inOther reached) (by decide)).eq_of_length
        (by decide)
      simp at both
    have pageApart : ["a.html"] ∉ reachedBy tabSettings siteStore "empty" :=
      fun reached => absurd (inOther reached) (by decide)
    have selectsNothing : selectedBy tabSettings siteStore "/gone" = [] :=
      selectedBy_of_isMissing missing
    simp only [ReachedApart, List.pairwise_cons, List.forall_mem_cons, onlyPage, nothing, page, selectsNothing]
    exact ⟨⟨noPage, by simp, noOther, by simp⟩, ⟨by simp, by simpa using pageApart, by simp⟩, by simp⟩
  have formats := run_fmt tree readable asked rfl apart ByteArray.empty
  exact ⟨tree, readable, asked, apart, missing, present,
    formats.code_eq_one_iff.mpr (.inl ⟨"/gone", by simp [pathsOrHere], missing⟩), formats⟩

end MarkupFormat.Cli
