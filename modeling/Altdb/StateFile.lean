import Altdb.Files
import Altdb.Store

/-!
# Replacing a state file

`atomic` writes the new value to a temporary file and renames it over the state
file, after it has linked the old file to a backup name.  The name of the state
file never leads to anything but the old or the new value, and a failure leaves
the old one, unless the rollback fails as well, which has an error of its own.
-/

namespace Altdb

open Fallible Files

/-- The files of the state directory that hold values. -/
inductive StateFile where
  | config
  | identity
  | hosts
  deriving DecidableEq, Repr

def StateFile.name : StateFile → String
  | .config => "config.json"
  | .identity => "identity.json"
  | .hosts => "hosts.json"

/-- What the system does during one `atomic`: the two random names and the
failure of each step. -/
structure Faults where
  tempName : Except String Bytes
  backupName : Except String Bytes
  openTemp : Option String
  toWriter : Option (ℕ × String)
  writeAll : Option (ℕ × String)
  syncTemp : Option String
  openDirectory : Option String
  hardLink : Option String
  syncLink : Option String
  rename : Option String
  syncRename : Option String
  rollback : Option String
  syncRollback : Option String
  removeTemp : Option String
  removeBackup : Option String

/-- Nothing fails. -/
def Faults.quiet (tempName backupName : Bytes) : Faults where
  tempName := .ok tempName
  backupName := .ok backupName
  openTemp := none
  toWriter := none
  writeAll := none
  syncTemp := none
  openDirectory := none
  hardLink := none
  syncLink := none
  rename := none
  syncRename := none
  rollback := none
  syncRollback := none
  removeTemp := none
  removeBackup := none

/-- The failures of `atomic`. -/
inductive SaveError where
  | random (message : String)
  | io (error : IoError)
  /-- `state commit and rollback failed; inspect storage before restart`. -/
  | rollback
  deriving DecidableEq, Repr

namespace StateFile

def tempPath (random : Bytes) : String := "." ++ hex random ++ ".tmp"

def backupPath (random : Bytes) : String := "." ++ hex random ++ ".rollback"

/-- The outcome of a file operation, for the program to inspect. -/
def outcomeOf {α : Type} (operation : EStateM IoError Disk α) :
    EStateM SaveError Disk (Except IoError α) :=
  mapError .io (attempt operation)

/-- Undo the renaming. -/
def restore (faults : Faults) (hadPrevious : Bool) (path backup : String) :
    EStateM IoError Disk Unit :=
  if hadPrevious then rename faults.rollback backup path
  else removeFile faults.rollback path

/-- The second half of `commit`: from the synchronised link to the end. -/
def swap (faults : Faults) (hadPrevious : Bool) (path temp backup : String) :
    EStateM SaveError Disk Unit := do
  mapError .io (sync faults.syncLink)
  mapError .io (rename faults.rename temp path)
  match ← outcomeOf (sync faults.syncRename) with
  | .ok _ => return
  | .error error =>
      match ← outcomeOf (restore faults hadPrevious path backup) with
      | .error _ => throw .rollback
      | .ok _ =>
          let _ ← outcomeOf (sync faults.syncRollback)
          throw (.io error)

/-- The steps whose failure is cleaned up after.  The source notes in
`preserve_backup` that the last error was returned. -/
def commit (faults : Faults) (path temp backup : String) (value : Bytes) :
    EStateM SaveError Disk Unit := do
  let file ← mapError .io (create faults.openTemp temp)
  mapError .io (write faults.toWriter file value)
  mapError .io (write faults.writeAll file [10])
  mapError .io (sync faults.syncTemp)
  mapError .io (sync faults.openDirectory)
  let hadPrevious ← (do
    match ← outcomeOf (hardLink faults.hardLink path backup) with
    | .ok _ => return true
    | .error .notFound => return false
    | .error e => throw (.io e))
  swap faults hadPrevious path temp backup

/-- Remove the names that are not needed any more. -/
def cleanUp (faults : Faults) (temp backup : String)
    (result : Except SaveError Unit) : EStateM SaveError Disk Unit := do
  if result matches .error _ then
    let _ ← outcomeOf (removeFile faults.removeTemp temp)
  if result ≠ .error .rollback then
    let _ ← outcomeOf (removeFile faults.removeBackup backup)

/-- `store::atomic` with the serialized value. -/
def atomic (faults : Faults) (file : StateFile) (value : Bytes) :
    EStateM SaveError Disk Unit := do
  let temp ← mapError .random (lift faults.tempName)
  let backup ← mapError .random (lift faults.backupName)
  let result ← attempt
    (commit faults file.name (tempPath temp) (backupPath backup) value)
  cleanUp faults (tempPath temp) (backupPath backup) result
  lift result

/-! ## The path during a replacement -/

/-- The names of one replacement. -/
structure Distinct (path temp backup : String) : Prop where
  temp_path : temp ≠ path
  backup_path : backup ≠ path
  backup_temp : backup ≠ temp

variable {d₀ d : Directory} {path temp backup : String} {value : Bytes}
  {s s' : Disk}

/-- The path refers to the old file, and no old file has changed. -/
structure Kept (d₀ : Directory) (path : String) (d : Directory) : Prop where
  entry : d.entry path = d₀.entry path
  content : ∀ i < d₀.next, d.content i = d₀.content i

/-- The path refers to a new file with the value. -/
structure Replaced (d₀ : Directory) (path : String) (value : Bytes)
    (d : Directory) : Prop where
  entry : ∃ file, d.entry path = some file ∧ d₀.next ≤ file ∧
    d.content file = value
  content : ∀ i < d₀.next, d.content i = d₀.content i

/-- All states so far show the old value or the new one. -/
def Sound (d₀ : Directory) (path : String) (value : Bytes) (s : Disk) : Prop :=
  ∀ d ∈ s.seen, d.read path = d₀.read path ∨ d.read path = some value

theorem Kept.read (h : Kept d₀ path d) : d.read path = d₀.read path := by
  unfold Directory.read
  rw [h.entry]
  cases hentry : d₀.entry path with
  | none => rfl
  | some i => simp [h.content i (d₀.entry_lt path i hentry)]

theorem Replaced.read (h : Replaced d₀ path value d) :
    d.read path = some value := by
  obtain ⟨file, hentry, -, hcontent⟩ := h.entry
  simp [Directory.read, hentry, hcontent]

theorem Sound.kept (h : Sound d₀ path value s) (hkept : Kept d₀ path d) :
    Sound d₀ path value (s.to d) := by
  intro d' hd'
  rcases List.mem_append.mp hd' with hold | hnew
  · exact h d' hold
  · rw [List.mem_singleton.mp hnew]
    exact .inl hkept.read

theorem Sound.replaced (h : Sound d₀ path value s)
    (hreplaced : Replaced d₀ path value d) : Sound d₀ path value (s.to d) := by
  intro d' hd'
  rcases List.mem_append.mp hd' with hold | hnew
  · exact h d' hold
  · rw [List.mem_singleton.mp hnew]
    exact .inr hreplaced.read

theorem Kept.add (h : Kept d₀ path d) {name : String} (hne : name ≠ path)
    (hnext : d₀.next ≤ d.next) : Kept d₀ path (d.add name) where
  entry := by simp [hne.symm, h.entry]
  content i hi := by
    rw [Directory.add_content, if_neg (by omega), h.content i hi]

theorem Kept.append (h : Kept d₀ path d) {file : ℕ} (hfile : d₀.next ≤ file)
    (bytes : Bytes) : Kept d₀ path (d.append file bytes) where
  entry := h.entry
  content i hi := by
    rw [Directory.append_content, if_neg (by omega), h.content i hi]

theorem Kept.unlink (h : Kept d₀ path d) {name : String} (hne : name ≠ path) :
    Kept d₀ path (d.unlink name) where
  entry := by simp [hne.symm, h.entry]
  content := h.content

theorem Kept.alias (h : Kept d₀ path d) {old new : String} (hne : new ≠ path) :
    Kept d₀ path (d.alias_ old new) where
  entry := by simp [hne.symm, h.entry]
  content := h.content

theorem Replaced.unlink (h : Replaced d₀ path value d) {name : String}
    (hne : name ≠ path) : Replaced d₀ path value (d.unlink name) where
  entry := by
    obtain ⟨file, hentry, hnew⟩ := h.entry
    exact ⟨file, by simp [hne.symm, hentry], hnew⟩
  content := h.content

/-- The temporary file holds some bytes. -/
structure Prepared (d₀ : Directory) (path temp : String) (file : ℕ)
    (bytes : Bytes) (d : Directory) : Prop extends Kept d₀ path d where
  temp_entry : d.entry temp = some file
  file_new : d₀.next ≤ file
  file_content : d.content file = bytes

theorem Prepared.append {file : ℕ} {bytes : Bytes}
    (h : Prepared d₀ path temp file bytes d) (more : Bytes) :
    Prepared d₀ path temp file (bytes ++ more) (d.append file more) where
  toKept := h.toKept.append h.file_new more
  temp_entry := h.temp_entry
  file_new := h.file_new
  file_content := by simp [h.file_content]

/-- Whether there was an old file, which then has the backup name as well. -/
structure BackedUp (d₀ : Directory) (path backup : String) (hadPrevious : Bool)
    (d : Directory) : Prop where
  previous : hadPrevious = true →
    d.entry backup = d₀.entry path ∧ d₀.entry path ≠ none
  absent : hadPrevious = false → d₀.entry path = none

/-- The new file takes the path. -/
theorem Prepared.move {file : ℕ} (h : Prepared d₀ path temp file value d)
    (hne : temp ≠ path) : Replaced d₀ path value (d.move temp path) where
  entry := ⟨file, by simp [hne.symm, h.temp_entry], h.file_new, h.file_content⟩
  content := h.content

theorem Prepared.entry_ne {file : ℕ} {bytes : Bytes}
    (h : Prepared d₀ path temp file bytes d) :
    d.entry temp ≠ d.entry path := by
  rw [h.temp_entry, h.entry]
  intro heq
  have hlt := d₀.entry_lt path file heq.symm
  exact absurd h.file_new (by omega)

theorem BackedUp.move {hadPrevious : Bool}
    (h : BackedUp d₀ path backup hadPrevious d) (hdistinct : Distinct path temp backup) :
    BackedUp d₀ path backup hadPrevious (d.move temp path) where
  previous hprevious := by
    refine ⟨?_, (h.previous hprevious).2⟩
    simp [hdistinct.backup_temp, hdistinct.backup_path, h.previous hprevious]
  absent := h.absent

/-- The backup takes the path back. -/
theorem Replaced.back (h : Replaced d₀ path value d)
    (hbackup : d.entry backup = d₀.entry path) (hne : backup ≠ path) :
    Kept d₀ path (d.move backup path) where
  entry := by simp [hne.symm, hbackup]
  content := h.content

theorem Replaced.removed (h : Replaced d₀ path value d)
    (habsent : d₀.entry path = none) : Kept d₀ path (d.unlink path) where
  entry := by simp [habsent]
  content := h.content

/-! ## What a replacement does -/

@[simp] theorem wp_outcomeOf {α : Type} {post : Except IoError α → Disk → Prop}
    {fail : SaveError → Disk → Prop} (operation : EStateM IoError Disk α) :
    wp (outcomeOf operation) post fail s ↔
      wp operation (fun value => post (.ok value)) (fun e => post (.error e)) s := by
  simp [outcomeOf]

/-- The old file is shown, and has always been. -/
def Unchanged (d₀ : Directory) (path : String) (value : Bytes) (s : Disk) : Prop :=
  Kept d₀ path s.now ∧ Sound d₀ path value s

/-- The failures of a replacement. -/
def Failed (d₀ : Directory) (path : String) (value : Bytes) (e : SaveError)
    (s : Disk) : Prop :=
  if e = .rollback then
    Replaced d₀ path value s.now ∧ Sound d₀ path value s
  else Unchanged d₀ path value s

theorem Unchanged.failed (h : Unchanged d₀ path value s) (e : IoError) :
    Failed d₀ path value (.io e) s := by
  simpa [Failed] using h

/-- The temporary file is written and synchronised. -/
theorem prepare_spec (faults : Faults) (hdistinct : Distinct path temp backup)
    (hkept : Kept d₀ path s.now) (hnext : d₀.next ≤ s.now.next)
    (hsound : Sound d₀ path (value ++ [10]) s)
    {rest : ℕ → EStateM SaveError Disk Unit}
    {post : Unit → Disk → Prop}
    (hrest : ∀ file s, Prepared d₀ path temp file (value ++ [10]) s.now →
      Sound d₀ path (value ++ [10]) s →
      wp (rest file) post (Failed d₀ path (value ++ [10])) s) :
    wp (do
      let file ← mapError .io (create faults.openTemp temp)
      mapError .io (write faults.toWriter file value)
      mapError .io (write faults.writeAll file [10])
      rest file) post (Failed d₀ path (value ++ [10])) s := by
  simp only [wp_bind, wp_mapError]
  refine wp_mono (create_spec faults.openTemp temp) ?_ ?_
  · rintro file s₁ ⟨hnone, rfl, rfl⟩
    have hprepared : Prepared d₀ path temp s.now.next []
        (s.now.add temp) :=
      { toKept := hkept.add hdistinct.temp_path hnext
        temp_entry := by simp
        file_new := hnext
        file_content := by simp }
    have hsound₁ := hsound.kept hprepared.toKept
    simp only [wp_bind, wp_mapError]
    refine wp_mono (write_spec faults.toWriter _ value) ?_ ?_
    · rintro _ s₂ rfl
      have hprepared₂ := hprepared.append value
      have hsound₂ := hsound₁.kept hprepared₂.toKept
      simp only [wp_bind, wp_mapError]
      refine wp_mono (write_spec faults.writeAll _ [10]) ?_ ?_
      · rintro _ s₃ rfl
        have hprepared₃ := hprepared₂.append [10]
        exact hrest _ _ hprepared₃ (hsound₂.kept hprepared₃.toKept)
      · rintro e s₃ ⟨n, rfl⟩
        have hprepared₃ := hprepared₂.append (List.take n [10])
        exact Unchanged.failed ⟨hprepared₃.toKept,
          hsound₂.kept hprepared₃.toKept⟩ e
    · rintro e s₂ ⟨n, rfl⟩
      have hprepared₂ := hprepared.append (value.take n)
      exact Unchanged.failed ⟨hprepared₂.toKept,
        hsound₁.kept hprepared₂.toKept⟩ e
  · rintro e s₁ rfl
    exact Unchanged.failed ⟨hkept, hsound⟩ e

/-- The renaming is undone, or the new file stays. -/
theorem restore_spec (faults : Faults) (hdistinct : Distinct path temp backup)
    {hadPrevious : Bool} (hreplaced : Replaced d₀ path value s.now)
    (hbackup : BackedUp d₀ path backup hadPrevious s.now)
    (hsound : Sound d₀ path value s) :
    wp (restore faults hadPrevious path backup)
      (fun _ => Unchanged d₀ path value) (fun _ s' => s' = s) s := by
  unfold restore
  cases hadPrevious with
  | true =>
      obtain ⟨hentry, -⟩ := hbackup.previous rfl
      refine wp_mono (rename_spec faults.rollback backup path) ?_ (fun _ _ h => h)
      rintro _ s' ⟨-, rfl | ⟨heq, -⟩⟩
      · have hkept := hreplaced.back hentry hdistinct.backup_path
        exact ⟨hkept, hsound.kept hkept⟩
      · obtain ⟨file, hfile, hnew, -⟩ := hreplaced.entry
        have hlt := d₀.entry_lt path file (hentry ▸ heq.trans hfile)
        exact absurd hnew (by omega)
  | false =>
      refine wp_mono (removeFile_spec faults.rollback path) ?_ (fun _ _ h => h)
      rintro _ s' ⟨-, rfl⟩
      have hkept := hreplaced.removed (hbackup.absent rfl)
      exact ⟨hkept, hsound.kept hkept⟩

/-- The old file gets the backup name, if there is an old file. -/
theorem backup_spec (faults : Faults) (hdistinct : Distinct path temp backup)
    {file : ℕ} (hprepared : Prepared d₀ path temp file value s.now)
    (hsound : Sound d₀ path value s) {result : Except IoError Unit → Disk → Prop}
    (hlinked : ∀ s', Prepared d₀ path temp file value s'.now →
      BackedUp d₀ path backup true s'.now → Sound d₀ path value s' →
      result (.ok ()) s')
    (hnone : d₀.entry path = none → result (.error .notFound) s)
    (hfailed : ∀ e, e ≠ .notFound → result (.error e) s)
    {fail : SaveError → Disk → Prop} :
    wp (outcomeOf (hardLink faults.hardLink path backup)) result fail s := by
  rw [wp_outcomeOf]
  refine wp_mono (hardLink_spec faults.hardLink path backup) ?_ ?_
  · rintro _ s' ⟨hsome, -, rfl⟩
    have hkept : Kept d₀ path (s.now.alias_ path backup) :=
      hprepared.toKept.alias hdistinct.backup_path
    refine hlinked _ ⟨hkept, ?_, hprepared.file_new, hprepared.file_content⟩ ?_
      (hsound.kept hkept)
    · simp [Disk.to, hdistinct.backup_temp.symm, hprepared.temp_entry]
    · refine ⟨fun _ => ?_, fun hnot => by cases hnot⟩
      rw [← hprepared.entry]
      exact ⟨by simp [Disk.to], hsome⟩
  · rintro e s' ⟨rfl, hmissing⟩
    by_cases heq : e = .notFound
    · subst heq
      exact hnone (hprepared.entry ▸ hmissing rfl)
    · exact hfailed e heq

/-- The new file takes the path, for good or not at all. -/
theorem swap_spec (faults : Faults) (hdistinct : Distinct path temp backup)
    {file : ℕ} {hadPrevious : Bool}
    (hprepared : Prepared d₀ path temp file value s.now)
    (hbackup : BackedUp d₀ path backup hadPrevious s.now)
    (hsound : Sound d₀ path value s) :
    wp (swap faults hadPrevious path temp backup)
      (fun _ s' => Replaced d₀ path value s'.now ∧ Sound d₀ path value s')
      (Failed d₀ path value) s := by
  have hfailed (e : IoError) : Failed d₀ path value (.io e) s :=
    Unchanged.failed ⟨hprepared.toKept, hsound⟩ e
  simp only [swap, wp_bind, wp_mapError]
  refine wp_mono (sync_spec faults.syncLink) ?_ (fun e _ h => h ▸ hfailed e)
  rintro _ _ rfl
  simp only [wp_bind, wp_mapError]
  refine wp_mono (rename_spec faults.rename temp path) ?_
    (fun e _ h => h ▸ hfailed e)
  rintro _ s₁ ⟨-, rfl | ⟨heq, -⟩⟩
  · have hreplaced := hprepared.move hdistinct.temp_path
    have hbackup₁ := hbackup.move hdistinct
    have hsound₁ := hsound.replaced hreplaced
    simp only [wp_bind, wp_outcomeOf]
    refine wp_mono (sync_spec faults.syncRename) ?_ ?_
    · rintro _ _ rfl
      exact ⟨hreplaced, hsound₁⟩
    · rintro e _ rfl
      simp only [wp_bind, wp_outcomeOf]
      refine wp_mono (restore_spec faults hdistinct hreplaced hbackup₁ hsound₁) ?_ ?_
      · intro _ s₂ hunchanged
        simp only [wp_bind, wp_outcomeOf]
        refine wp_mono (sync_spec faults.syncRollback) ?_ ?_
        · rintro _ _ rfl
          exact hunchanged.failed e
        · rintro e' _ rfl
          exact hunchanged.failed e
      · rintro e' _ rfl
        simpa [Failed] using ⟨hreplaced, hsound₁⟩
  · exact absurd heq hprepared.entry_ne

theorem commit_spec (faults : Faults) (hdistinct : Distinct path temp backup) :
    wp (commit faults path temp backup value)
      (fun _ s' => Replaced d₀ path (value ++ [10]) s'.now ∧
        Sound d₀ path (value ++ [10]) s')
      (Failed d₀ path (value ++ [10])) (Disk.of d₀) := by
  have hstart : Kept d₀ path d₀ := ⟨rfl, fun _ _ => rfl⟩
  have hsound₀ : Sound d₀ path (value ++ [10]) (Disk.of d₀) := by
    intro d hd
    rw [List.mem_singleton.mp hd]
    exact .inl rfl
  unfold commit
  refine prepare_spec faults hdistinct hstart le_rfl hsound₀ ?_
  intro file s hprepared hsound
  have hfailed (e : IoError) : Failed d₀ path (value ++ [10]) (.io e) s :=
    Unchanged.failed ⟨hprepared.toKept, hsound⟩ e
  simp only [wp_bind, wp_mapError]
  refine wp_mono (sync_spec faults.syncTemp) ?_ (fun e _ h => h ▸ hfailed e)
  rintro _ _ rfl
  simp only [wp_bind, wp_mapError]
  refine wp_mono (sync_spec faults.openDirectory) ?_ (fun e _ h => h ▸ hfailed e)
  rintro _ _ rfl
  simp only [wp_bind]
  refine backup_spec faults hdistinct hprepared hsound ?_ ?_ ?_
  · intro s' hprepared' hbackup hsound'
    exact swap_spec faults hdistinct hprepared' hbackup hsound'
  · intro habsent
    exact swap_spec faults hdistinct hprepared
      ⟨fun hnot => (by cases hnot), fun _ => habsent⟩ hsound
  · intro e hne
    cases e with
    | notFound => exact absurd rfl hne
    | alreadyExists | failed => exact hfailed _

/-! ## The whole replacement -/

theorem tempPath_ne (random : Bytes) (file : StateFile) :
    tempPath random ≠ file.name := by
  intro heq
  have hlist := congrArg String.toList heq
  cases file <;> simp [tempPath, name] at hlist

theorem backupPath_ne (random : Bytes) (file : StateFile) :
    backupPath random ≠ file.name := by
  intro heq
  have hlist := congrArg String.toList heq
  cases file <;> simp [backupPath, name] at hlist

theorem distinct (file : StateFile) (temp backup : Bytes) :
    Distinct file.name (tempPath temp) (backupPath backup) where
  temp_path := tempPath_ne temp file
  backup_path := backupPath_ne backup file
  backup_temp := by
    intro heq
    have hlist := congrArg (fun s => s.toList.reverse) heq
    simp [tempPath, backupPath] at hlist

theorem Unchanged.unlink (h : Unchanged d₀ path value s) {name : String}
    (hne : name ≠ path) : Unchanged d₀ path value (s.to (s.now.unlink name)) :=
  ⟨h.1.unlink hne, h.2.kept (h.1.unlink hne)⟩

/-- Removing another name does not matter. -/
theorem remove_spec {inv : Disk → Prop} (fault : Option String) (name : String)
    (h : inv s) (hunlink : inv (s.to (s.now.unlink name)))
    {fail : SaveError → Disk → Prop} :
    wp (outcomeOf (removeFile fault name)) (fun _ => inv) fail s := by
  rw [wp_outcomeOf]
  refine wp_mono (removeFile_spec fault name) ?_ ?_
  · rintro _ s' ⟨-, rfl⟩
    exact hunlink
  · rintro e s' rfl
    exact h

/-- What is known of the path when the replacement is over. -/
def Ended (d₀ : Directory) (path : String) (value : Bytes)
    (result : Except SaveError Unit) (s : Disk) : Prop :=
  match result with
  | .ok _ => Replaced d₀ path value s.now ∧ Sound d₀ path value s
  | .error e => Failed d₀ path value e s

theorem Ended.unlink {result : Except SaveError Unit}
    (h : Ended d₀ path value result s) {name : String} (hne : name ≠ path) :
    Ended d₀ path value result (s.to (s.now.unlink name)) := by
  cases result with
  | ok => exact ⟨h.1.unlink hne, h.2.replaced (h.1.unlink hne)⟩
  | error e =>
      by_cases heq : e = .rollback
      · simp only [Ended, Failed, if_pos heq] at h ⊢
        exact ⟨h.1.unlink hne, h.2.replaced (h.1.unlink hne)⟩
      · simp only [Ended, Failed, if_neg heq] at h ⊢
        exact Unchanged.unlink h hne

theorem cleanUp_spec (faults : Faults) (hdistinct : Distinct path temp backup)
    {result : Except SaveError Unit} (h : Ended d₀ path value result s)
    {fail : SaveError → Disk → Prop} :
    wp (cleanUp faults temp backup result)
      (fun _ => Ended d₀ path value result) fail s := by
  have hbackup {s : Disk} (h : Ended d₀ path value result s) :
      wp (if result ≠ .error .rollback then do
          let _ ← outcomeOf (removeFile faults.removeBackup backup)
        else pure ()) (fun _ => Ended d₀ path value result) fail s := by
    rw [wp_ite]
    refine ⟨fun _ => ?_, fun _ => h⟩
    rw [wp_bind]
    exact wp_mono (remove_spec faults.removeBackup backup h
      (h.unlink hdistinct.backup_path)) (fun _ _ h => h) (fun _ _ h => h)
  cases result with
  | ok => exact hbackup h
  | error e =>
      simp only [cleanUp, if_true, wp_bind]
      refine wp_mono (remove_spec faults.removeTemp temp h
        (h.unlink hdistinct.temp_path)) ?_ (fun _ _ h => h)
      exact fun _ s' h' => hbackup h'

theorem atomic_spec (faults : Faults) (file : StateFile) (d : Directory) :
    wp (atomic faults file value)
      (fun _ s' => Replaced d file.name (value ++ [10]) s'.now ∧
        Sound d file.name (value ++ [10]) s')
      (Failed d file.name (value ++ [10])) (Disk.of d) := by
  have hrandom (message : String) :
      Failed d file.name (value ++ [10]) (.random message) (Disk.of d) := by
    have hunchanged : Unchanged d file.name (value ++ [10]) (Disk.of d) := by
      refine ⟨⟨rfl, fun _ _ => rfl⟩, fun d' hd' => ?_⟩
      rw [List.mem_singleton.mp hd']
      exact .inl rfl
    simpa [Failed] using hunchanged
  simp only [atomic, wp_bind, wp_mapError, wp_lift]
  refine ⟨fun temp htemp => ?_, fun message _ => hrandom message⟩
  refine ⟨fun backup hbackup => ?_, fun message _ => hrandom message⟩
  have hdistinct := distinct file temp backup
  have hclean (result : Except SaveError Unit) (s : Disk)
      (h : Ended d file.name (value ++ [10]) result s) :
      wp (do
        cleanUp faults (tempPath temp) (backupPath backup) result
        lift result)
      (fun _ s' => Replaced d file.name (value ++ [10]) s'.now ∧
        Sound d file.name (value ++ [10]) s')
      (Failed d file.name (value ++ [10])) s := by
    rw [wp_bind]
    refine wp_mono (cleanUp_spec faults hdistinct h) ?_ (fun _ _ h => h)
    intro _ s' hended
    rw [wp_lift]
    refine ⟨?_, ?_⟩
    · rintro _ rfl
      exact hended
    · rintro e rfl
      exact hended
  rw [wp_attempt]
  refine wp_mono (commit_spec faults hdistinct) ?_ ?_
  · exact fun _ s' h => hclean (.ok ()) s' h
  · exact fun e s' h => hclean (.error e) s' h

/-! ## The other state files -/

variable {other : String} {e : Option ℕ}

theorem swap_shows (faults : Faults) (hadPrevious : Bool) (hpath : path ≠ other)
    (htemp : temp ≠ other) (hbackup : backup ≠ other) :
    Preserves (Shows other e) (swap faults hadPrevious path temp backup) := by
  have hrestore : Preserves (Shows other e)
      (restore faults hadPrevious path backup) :=
    .ite (rename_shows _ hbackup hpath) (removeFile_shows _ hpath)
  unfold swap
  refine .bind (.mapError (sync_shows _)) fun _ => ?_
  refine .bind (.mapError (rename_shows _ htemp hpath)) fun _ => ?_
  refine .bind (.mapError (.attempt (sync_shows _))) fun result => ?_
  cases result with
  | ok => exact .pure _
  | error e =>
      refine .bind (.mapError (.attempt hrestore)) fun undone => ?_
      cases undone with
      | error => exact .throw _
      | ok => exact .bind (.mapError (.attempt (sync_shows _))) fun _ => .throw _

theorem commit_shows (faults : Faults) (hpath : path ≠ other)
    (htemp : temp ≠ other) (hbackup : backup ≠ other) :
    Preserves (Shows other e) (commit faults path temp backup value) := by
  unfold commit
  refine .bind (.mapError (create_shows _ htemp)) fun file => ?_
  refine .bind (.mapError (write_shows _)) fun _ => ?_
  refine .bind (.mapError (write_shows _)) fun _ => ?_
  refine .bind (.mapError (sync_shows _)) fun _ => ?_
  refine .bind (.mapError (sync_shows _)) fun _ => ?_
  refine .bind (.bind (.mapError (.attempt (hardLink_shows _ hbackup)))
    fun linked => ?_) fun hadPrevious => swap_shows faults _ hpath htemp hbackup
  split
  · exact .pure _
  · exact .pure _
  · exact .throw _

theorem cleanUp_shows (faults : Faults) (result : Except SaveError Unit)
    (htemp : temp ≠ other) (hbackup : backup ≠ other) :
    Preserves (Shows other e) (cleanUp faults temp backup result) := by
  have hremove (fault : Option String) {name : String} (hne : name ≠ other) :
      Preserves (Shows other e) (outcomeOf (removeFile fault name)) :=
    .mapError (.attempt (removeFile_shows _ hne))
  have hlast : Preserves (Shows other e) (if result ≠ .error .rollback then do
        let _ ← outcomeOf (removeFile faults.removeBackup backup)
      else pure ()) :=
    .ite (.bind (hremove _ hbackup) fun _ => .pure _) (.pure _)
  cases result with
  | ok => exact hlast
  | error e => exact .bind (hremove _ htemp) fun _ => hlast

/-- A replacement leaves the other state files alone. -/
theorem atomic_shows (faults : Faults) {file other : StateFile}
    (hne : file ≠ other) :
    Preserves (Shows other.name e) (atomic faults file value) := by
  have hname : file.name ≠ other.name := by
    cases file <;> cases other <;> first | exact absurd rfl hne | decide
  unfold atomic
  refine .bind (.mapError (.lift _)) fun temp => ?_
  refine .bind (.mapError (.lift _)) fun backup => ?_
  refine .bind (.attempt (commit_shows faults hname (tempPath_ne _ _)
    (backupPath_ne _ _))) fun result => ?_
  exact .bind (cleanUp_shows faults result (tempPath_ne _ _)
    (backupPath_ne _ _)) fun _ => .lift _

end StateFile

end Altdb
