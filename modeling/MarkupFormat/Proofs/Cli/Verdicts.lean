import Mathlib.Data.List.Nodup
import MarkupFormat.Proofs.Cli.Paths

/-!
# Verdicts on files

What comes of formatting a file depends on its own text alone, and at most that file is changed. So the order of the
files does not matter, neither to what they hold afterwards (`settleAll_perm`) nor to how often each verdict is found
(`ofVerdicts_perm`).
-/

namespace MarkupFormat.Cli

open Format (FormatError format)

variable {settings : Settings} {store other : FileStore} {place : Place} {file next : String × Place}
  {files : List (String × Place)} {session after : Session} {text path : String}

/-! ### The files of a store -/

namespace FileStore

/-- The text of the file at a place. -/
def text? (store : FileStore) (place : Place) : Option String :=
  (store.content? place).bind String.fromUTF8?

/-- Every file holds a text. -/
def IsReadable (store : FileStore) : Prop :=
  ∀ place, store.isFile place = true → (store.text? place).isSome = true

instance (store : FileStore) : Decidable store.IsReadable :=
  let places := store.files.map (·.1)
  decidable_of_iff (∀ place ∈ places, (store.text? place).isSome = true)
    ⟨fun holds place file => holds place (isFile_iff.mp file),
      fun readable place file => readable place (isFile_iff.mpr file)⟩

theorem toUTF8_of_text? (holds : store.text? place = some text) : store.content? place = some text.toUTF8 := by
  obtain ⟨content, found, decoded⟩ := Option.bind_eq_some_iff.mp holds
  unfold String.fromUTF8? at decoded
  split at decoded
  · rw [← Option.some.inj decoded]
    exact found
  · cases decoded

theorem readText_of_text? (resolved : store.resolve path = .ok place)
    (holds : store.text? place = some text) : store.readText path = .ok text := by
  obtain ⟨content, found, decoded⟩ := Option.bind_eq_some_iff.mp holds
  unfold readText
  rw [resolved]
  simp [bind, Except.bind, found, decoded]

theorem content?_write (store : FileStore) (place target : Place) (content : ByteArray) :
    (store.write target content).content? place =
      if place = target then (store.content? place).map fun _ => content else store.content? place := by
  unfold content? write
  induction store.files with
  | nil => simp
  | cons file files ih =>
    obtain ⟨name, old⟩ := file
    rw [List.map_cons, List.lookup_cons, List.lookup_cons]
    by_cases here : place = name
    · subst here
      by_cases aimed : place = target <;> simp [aimed]
    · simp only [show (place == name) = false from by simpa using here]
      exact ih

theorem samePlaces_write (store : FileStore) (place : Place) (content : ByteArray) :
    (store.write place content).SamePlaces store :=
  ⟨by simp [write, Function.comp_def], rfl⟩

theorem write_comm (store : FileStore) {first second : Place} (apart : first ≠ second) (one two : ByteArray) :
    (store.write first one).write second two = (store.write second two).write first one := by
  simp only [write, mk.injEq, Files.mk.injEq, and_true, List.map_map]
  refine List.map_congr_left fun (file, content) _ => ?_
  by_cases here : file = first
  · simp [here, apart]
  · simp [here]

/-! ### What becomes of one file -/

/-- What comes of formatting a file. -/
def verdict? (settings : Settings) (store : FileStore) (file : String × Place) : Option Verdict :=
  (store.text? file.2).map (judge settings file.1)

/-- The text that takes the place of that of a file. -/
def newText? (settings : Settings) (store : FileStore) (file : String × Place) : Option String :=
  match store.verdict? settings file with
  | some (.changed text) => if settings.check || settings.diff then none else some text
  | _ => none

/-- The files after one of them was formatted. -/
def settle (settings : Settings) (store : FileStore) (file : String × Place) : FileStore :=
  (store.newText? settings file).elim store fun text => store.write file.2 text.toUTF8

theorem samePlaces_settle (settings : Settings) (store : FileStore) (file : String × Place) :
    (store.settle settings file).SamePlaces store := by
  unfold settle
  cases store.newText? settings file with
  | none => exact .refl store
  | some text => exact samePlaces_write _ _ _

theorem content?_settle_of_ne (apart : place ≠ file.2) :
    (store.settle settings file).content? place = store.content? place := by
  unfold settle
  cases store.newText? settings file with
  | none => rfl
  | some text => exact (content?_write _ _ _ _).trans (if_neg apart)

theorem content?_settle_self (holds : store.text? file.2 = some text) :
    (store.settle settings file).content? file.2 = some ((store.newText? settings file).getD text).toUTF8 := by
  have content := toUTF8_of_text? holds
  unfold settle
  cases store.newText? settings file with
  | none => exact content
  | some new =>
    rw [Option.elim_some, content?_write, if_pos rfl, content]
    rfl

theorem verdict?_of_text? (holds : store.text? file.2 = some text) :
    store.verdict? settings file = some (judge settings file.1 text) :=
  congrArg (Option.map (judge settings file.1)) holds

theorem verdict?_congr (same : store.content? file.2 = other.content? file.2) :
    store.verdict? settings file = other.verdict? settings file := by
  rw [verdict?, verdict?, text?, text?, same]

theorem newText?_settle (settings : Settings) (store : FileStore) (apart : file.2 ≠ next.2) :
    (store.settle settings next).newText? settings file = store.newText? settings file := by
  rw [newText?, newText?, verdict?_congr (content?_settle_of_ne apart)]

theorem settle_comm (apart : file.2 ≠ next.2) :
    (store.settle settings file).settle settings next = (store.settle settings next).settle settings file := by
  have first := newText?_settle settings store apart
  have second := newText?_settle settings store apart.symm
  rw [settle, second, settle.eq_def settings (store.settle settings next), first]
  unfold settle
  cases store.newText? settings file with
  | none => rfl
  | some one =>
    cases store.newText? settings next with
    | none => rfl
    | some two => exact write_comm _ apart _ _

/-- The files after several of them were formatted. -/
def settleAll (settings : Settings) (store : FileStore) (files : List (String × Place)) : FileStore :=
  files.foldl (settle settings) store

theorem samePlaces_settleAll (settings : Settings) (store : FileStore) (files : List (String × Place)) :
    (store.settleAll settings files).SamePlaces store := by
  induction files generalizing store with
  | nil => exact .refl store
  | cons file files ih => exact (ih _).trans (samePlaces_settle settings store file)

theorem content?_settleAll_of_notMem (apart : place ∉ files.map (·.2)) :
    (store.settleAll settings files).content? place = store.content? place := by
  induction files generalizing store with
  | nil => rfl
  | cons file files ih =>
    obtain ⟨first, others⟩ : place ≠ file.2 ∧ place ∉ files.map (·.2) := by simpa using apart
    exact (ih others).trans (content?_settle_of_ne first)

theorem content?_settleAll_of_mem (nodup : (files.map (·.2)).Nodup) (member : file ∈ files) :
    (store.settleAll settings files).content? file.2 = (store.settle settings file).content? file.2 := by
  induction files generalizing store with
  | nil => cases member
  | cons first files ih =>
    obtain ⟨apart, nodup⟩ := List.nodup_cons.mp nodup
    obtain rfl | later := List.mem_cons.mp member
    · exact content?_settleAll_of_notMem apart
    · have other : file.2 ≠ first.2 := by
        intro same
        have twice := List.mem_map_of_mem (f := (·.2)) later
        rw [same] at twice
        exact apart twice
      refine (ih nodup later).trans ?_
      rw [settle_comm other.symm, content?_settle_of_ne other]

theorem settleAll_perm {order : List (String × Place)} (nodup : (files.map (·.2)).Nodup) (perm : order.Perm files) :
    store.settleAll settings order = store.settleAll settings files := by
  symm
  refine perm.symm.foldl_eq' (fun one first two second store => ?_) store
  by_cases same : one.2 = two.2
  · rw [List.inj_on_of_nodup_map nodup first second same]
  · exact settle_comm same

end FileStore

/-! ### Counting -/

namespace Verdict

def isChanged : Verdict → Bool
  | changed _ => true
  | unchanged | failed _ => false

def isFailed : Verdict → Bool
  | failed _ => true
  | unchanged | changed _ => false

end Verdict

/-- How many verdicts are of each kind. -/
def Tally.ofVerdicts (verdicts : List Verdict) : Tally where
  changed := verdicts.countP Verdict.isChanged
  unchanged := verdicts.count .unchanged
  failed := verdicts.countP Verdict.isFailed

/-- What comes of formatting several files. -/
def verdicts (settings : Settings) (store : FileStore) (files : List (String × Place)) : List Verdict :=
  files.filterMap (store.verdict? settings)

namespace Tally

theorem ofVerdicts_append (first second : List Verdict) :
    ofVerdicts (first ++ second) = (ofVerdicts first).add (ofVerdicts second) := by
  simp [ofVerdicts, add]

theorem total_ofVerdicts (verdicts : List Verdict) :
    (ofVerdicts verdicts).changed + (ofVerdicts verdicts).unchanged + (ofVerdicts verdicts).failed =
      verdicts.length := by
  induction verdicts with
  | nil => rfl
  | cons verdict verdicts ih =>
    cases verdict <;> simp [ofVerdicts, List.countP_cons, Verdict.isChanged, Verdict.isFailed] at ih ⊢ <;> omega

theorem isFailure_iff (tally : Tally) (settings : Settings) :
    tally.isFailure settings = true ↔ settings.check = true ∧ 0 < tally.changed ∨ 0 < tally.failed := by
  simp [isFailure]

end Tally

theorem verdicts_congr (same : ∀ file ∈ files, store.content? file.2 = other.content? file.2) :
    verdicts settings store files = verdicts settings other files :=
  List.filterMap_congr fun file member => FileStore.verdict?_congr (same file member)

theorem length_verdicts (holds : ∀ file ∈ files, (store.text? file.2).isSome = true) :
    (verdicts settings store files).length = files.length := by
  induction files with
  | nil => rfl
  | cons file files ih =>
    obtain ⟨first, others⟩ := List.forall_mem_cons.mp holds
    obtain ⟨text, found⟩ := Option.isSome_iff_exists.mp first
    rw [verdicts, List.filterMap_cons_some (FileStore.verdict?_of_text? found)]
    exact congrArg (· + 1) (ih others)

/-! ### Failures and differences -/

/-- The formatted text of a file that holds a text, or why it has none. -/
def FileStore.formatted? (settings : Settings) (store : FileStore) (file : String × Place) :
    Option (Except FormatError String) :=
  (store.text? file.2).map fun text => format text { settings.options with filePath := some file.1 }

/-- Formatting a file fails. -/
def Fails (settings : Settings) (store : FileStore) (file : String × Place) : Prop :=
  ∃ error, store.formatted? settings file = some (.error error)

/-- The formatted text of a file is another one. -/
def Differs (settings : Settings) (store : FileStore) (file : String × Place) : Prop :=
  ∃ text, store.formatted? settings file = some (.ok text) ∧ store.text? file.2 ≠ some text

theorem judge_isFailed_iff (content : String) :
    (judge settings path content).isFailed = true ↔
      ∃ error, format content { settings.options with filePath := some path } = .error error := by
  unfold judge
  cases format content { settings.options with filePath := some path } with
  | error error => simp [Verdict.isFailed]
  | ok new => by_cases same : new = content <;> simp [Verdict.isFailed, same]

theorem judge_isChanged_iff (content : String) :
    (judge settings path content).isChanged = true ↔
      ∃ new, format content { settings.options with filePath := some path } = .ok new ∧ new ≠ content := by
  unfold judge
  cases format content { settings.options with filePath := some path } with
  | error error => simp [Verdict.isChanged]
  | ok new => by_cases same : new = content <;> simp [Verdict.isChanged, same]

theorem failed_pos_iff : 0 < (Tally.ofVerdicts (verdicts settings store files)).failed ↔
    ∃ file ∈ files, Fails settings store file := by
  simp only [Tally.ofVerdicts, verdicts, List.countP_pos_iff, List.mem_filterMap]
  constructor
  · rintro ⟨verdict, ⟨file, member, found⟩, failed⟩
    obtain ⟨text, holds, rfl⟩ := Option.map_eq_some_iff.mp found
    obtain ⟨error, fails⟩ := (judge_isFailed_iff text).mp failed
    exact ⟨file, member, error, by rw [FileStore.formatted?, holds, Option.map_some, fails]⟩
  · rintro ⟨file, member, error, fails⟩
    obtain ⟨text, holds, fails⟩ := Option.map_eq_some_iff.mp fails
    exact ⟨_, ⟨file, member, FileStore.verdict?_of_text? holds⟩, (judge_isFailed_iff text).mpr ⟨error, fails⟩⟩

theorem changed_pos_iff : 0 < (Tally.ofVerdicts (verdicts settings store files)).changed ↔
    ∃ file ∈ files, Differs settings store file := by
  simp only [Tally.ofVerdicts, verdicts, List.countP_pos_iff, List.mem_filterMap]
  constructor
  · rintro ⟨verdict, ⟨file, member, found⟩, changed⟩
    obtain ⟨text, holds, rfl⟩ := Option.map_eq_some_iff.mp found
    obtain ⟨new, gives, other⟩ := (judge_isChanged_iff text).mp changed
    refine ⟨file, member, new, by rw [FileStore.formatted?, holds, Option.map_some, gives], ?_⟩
    rw [holds]
    exact fun same => other (Option.some.inj same).symm
  · rintro ⟨file, member, new, formatted, other⟩
    obtain ⟨text, holds, gives⟩ := Option.map_eq_some_iff.mp formatted
    have other : new ≠ text := fun same => other (same ▸ holds)
    exact ⟨_, ⟨file, member, FileStore.verdict?_of_text? holds⟩, (judge_isChanged_iff text).mpr ⟨new, gives, other⟩⟩

namespace FileStore

theorem settle_of_shown (shown : settings.check = true ∨ settings.diff = true) (file : String × Place) :
    store.settle settings file = store := by
  have nothing : store.newText? settings file = none := by
    unfold newText?
    split
    · rw [if_pos (by simpa using shown)]
    · rfl
  rw [settle, nothing]
  rfl

theorem settleAll_of_shown (shown : settings.check = true ∨ settings.diff = true) (files : List (String × Place)) :
    store.settleAll settings files = store := by
  induction files with
  | nil => rfl
  | cons file files ih => rwa [settleAll, List.foldl_cons, settle_of_shown shown]

theorem content?_settle_of_ok (check : settings.check = false) (diff : settings.diff = false)
    (formatted : store.formatted? settings file = some (.ok text)) :
    (store.settle settings file).content? file.2 = some text.toUTF8 := by
  obtain ⟨content, holds, gives⟩ := Option.map_eq_some_iff.mp formatted
  have verdict : store.verdict? settings file = some (if text = content then .unchanged else .changed text) := by
    rw [verdict?_of_text? holds]
    unfold judge
    rw [gives]
  have new : (store.newText? settings file).getD content = text := by
    rw [newText?, verdict]
    by_cases same : text = content <;> simp [same, check, diff]
  rw [content?_settle_self holds, new]

theorem content?_settle_of_error {error : FormatError} (fails : store.formatted? settings file = some (.error error)) :
    (store.settle settings file).content? file.2 = store.content? file.2 := by
  obtain ⟨content, holds, gives⟩ := Option.map_eq_some_iff.mp fails
  have verdict : store.verdict? settings file = some (.failed (errorReport file.1 error content)) := by
    rw [verdict?_of_text? holds]
    unfold judge
    rw [gives]
  have kept : store.newText? settings file = none := by rw [newText?, verdict]
  rw [content?_settle_self holds, kept, toUTF8_of_text? holds]
  rfl

end FileStore

theorem ofVerdicts_perm {order : List (String × Place)} (perm : order.Perm files) :
    Tally.ofVerdicts (verdicts settings store order) = .ofVerdicts (verdicts settings store files) := by
  have same := perm.filterMap (store.verdict? settings)
  simp only [Tally.ofVerdicts, verdicts, same.countP_eq, same.count_eq]

end MarkupFormat.Cli
