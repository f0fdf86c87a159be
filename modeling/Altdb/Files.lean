import Altdb.Fallible

/-!
# Files and links of one directory

A directory maps names to files, and several names may refer to one file.  The
operations below are those of a POSIX file system on a directory that no other
process changes.  Each takes the failure that the system injects, if any: a
failed operation changes nothing, except that a failed write may have written
the first part of its data.
-/

namespace Files

open Fallible

inductive IoError where
  | notFound
  | alreadyExists
  /-- Any failure that does not depend on which names exist. -/
  | failed (message : String)
  deriving DecidableEq, Repr

/-- The names of a directory and the contents of the files.  Files are numbered
in the order of their creation, so that every name refers to one of them. -/
structure Directory where
  entry : String → Option ℕ
  content : ℕ → List UInt8
  next : ℕ
  entry_lt : ∀ name file, entry name = some file → file < next

namespace Directory

/-- No names at all. -/
def empty : Directory where
  entry _ := none
  content _ := []
  next := 0
  entry_lt := by simp

/-- The content of the file with the name. -/
def read (d : Directory) (name : String) : Option (List UInt8) :=
  (d.entry name).map d.content

/-- The name refers to the file, or to nothing. -/
def point (d : Directory) (name : String) (file : Option ℕ)
    (h : ∀ i, file = some i → i < d.next) : Directory where
  entry := Function.update d.entry name file
  content := d.content
  next := d.next
  entry_lt other i hi := by
    by_cases heq : other = name
    · subst heq
      rw [Function.update_self] at hi
      exact h i hi
    · rw [Function.update_of_ne heq] at hi
      exact d.entry_lt other i hi

/-- A new empty file with the name. -/
def add (d : Directory) (name : String) : Directory where
  entry := Function.update d.entry name (some d.next)
  content := Function.update d.content d.next []
  next := d.next + 1
  entry_lt other i hi := by
    by_cases heq : other = name
    · subst heq
      rw [Function.update_self, Option.some_inj] at hi
      omega
    · rw [Function.update_of_ne heq] at hi
      exact (d.entry_lt other i hi).trans (Nat.lt_succ_self _)

/-- The content of a file grows. -/
def append (d : Directory) (file : ℕ) (bytes : List UInt8) : Directory where
  entry := d.entry
  content := Function.update d.content file (d.content file ++ bytes)
  next := d.next
  entry_lt := d.entry_lt

def unlink (d : Directory) (name : String) : Directory :=
  d.point name none (by simp)

/-- The new name refers to the file of the old one. -/
def alias_ (d : Directory) (old new : String) : Directory :=
  d.point new (d.entry old) fun i hi => d.entry_lt old i hi

/-- The file moves from the old name to the new one. -/
def move (d : Directory) (old new : String) : Directory :=
  (d.alias_ old new).unlink old

variable {d : Directory} {name other : String} {file i : ℕ}
  {bytes : List UInt8}

@[simp] theorem unlink_entry : (d.unlink name).entry other =
    if other = name then none else d.entry other := by
  simp [unlink, point, Function.update_apply]

@[simp] theorem unlink_content : (d.unlink name).content = d.content := rfl

@[simp] theorem unlink_next : (d.unlink name).next = d.next := rfl

@[simp] theorem alias_entry {old : String} : (d.alias_ old name).entry other =
    if other = name then d.entry old else d.entry other := by
  simp [alias_, point, Function.update_apply]

@[simp] theorem alias_content {old : String} :
    (d.alias_ old name).content = d.content := rfl

@[simp] theorem alias_next {old : String} :
    (d.alias_ old name).next = d.next := rfl

@[simp] theorem move_entry {old : String} : (d.move old name).entry other =
    if other = old then none
    else if other = name then d.entry old else d.entry other := by
  simp [move]

@[simp] theorem move_content {old : String} :
    (d.move old name).content = d.content := rfl

@[simp] theorem move_next {old : String} : (d.move old name).next = d.next := rfl

@[simp] theorem add_entry : (d.add name).entry other =
    if other = name then some d.next else d.entry other := by
  simp [add, Function.update_apply]

@[simp] theorem add_content : (d.add name).content i =
    if i = d.next then [] else d.content i := by
  simp [add, Function.update_apply]

@[simp] theorem add_next : (d.add name).next = d.next + 1 := rfl

@[simp] theorem append_entry : (d.append file bytes).entry = d.entry := rfl

@[simp] theorem append_content : (d.append file bytes).content i =
    if i = file then d.content file ++ bytes else d.content i := by
  simp [append, Function.update_apply]

@[simp] theorem append_next : (d.append file bytes).next = d.next := rfl

end Directory

/-! ## Operations -/

/-- The directory with the states it has been in, the present one last.
`seen` is a history variable. -/
structure Disk where
  now : Directory
  seen : List Directory

def Disk.of (d : Directory) : Disk := ⟨d, [d]⟩

/-- The directory changes. -/
def Disk.to (s : Disk) (d : Directory) : Disk := ⟨d, s.seen ++ [d]⟩

/-- Fail if the system does. -/
def inject (fault : Option String) : EStateM IoError Disk Unit :=
  match fault with
  | some message => throw (.failed message)
  | none => pure ()

/-- Open a new file for writing, without following links. -/
def create (fault : Option String) (name : String) :
    EStateM IoError Disk ℕ := do
  inject fault
  let d := (← get).now
  if (d.entry name).isSome then throw .alreadyExists
  modify fun s => s.to (d.add name)
  return d.next

/-- Write to an open file.  A failure comes with the number of bytes that were
written before. -/
def write (fault : Option (ℕ × String)) (file : ℕ) (bytes : List UInt8) :
    EStateM IoError Disk Unit := do
  let d := (← get).now
  match fault with
  | some (n, message) =>
      modify fun s => s.to (d.append file (bytes.take n))
      throw (.failed message)
  | none => modify fun s => s.to (d.append file bytes)

/-- `fsync`, or any other call that leaves names and contents alone. -/
def sync (fault : Option String) : EStateM IoError Disk Unit := inject fault

def hardLink (fault : Option String) (old new : String) :
    EStateM IoError Disk Unit := do
  inject fault
  let d := (← get).now
  if (d.entry old).isNone then throw .notFound
  if (d.entry new).isSome then throw .alreadyExists
  modify fun s => s.to (d.alias_ old new)

/-- `rename`.  Two names of one file are left as they are. -/
def rename (fault : Option String) (old new : String) :
    EStateM IoError Disk Unit := do
  inject fault
  let d := (← get).now
  if (d.entry old).isNone then throw .notFound
  if d.entry old ≠ d.entry new then
    modify fun s => s.to (d.move old new)

def removeFile (fault : Option String) (name : String) :
    EStateM IoError Disk Unit := do
  inject fault
  let d := (← get).now
  if (d.entry name).isNone then throw .notFound
  modify fun s => s.to (d.unlink name)

/-! ## What each operation does -/

variable {s : Disk}

@[simp] theorem wp_inject {post : Unit → Disk → Prop}
    {fail : IoError → Disk → Prop} (fault : Option String) :
    wp (inject fault) post fail s ↔ (fault = none → post () s) ∧
      ∀ message, fault = some message → fail (.failed message) s := by
  cases fault <;> simp [inject]

theorem create_spec (fault : Option String) (name : String) :
    wp (create fault name)
      (fun file s' => s.now.entry name = none ∧ file = s.now.next ∧
        s' = s.to (s.now.add name))
      (fun _ s' => s' = s) s := by
  simp [create, Disk.to]

theorem write_spec (fault : Option (ℕ × String)) (file : ℕ)
    (bytes : List UInt8) :
    wp (write fault file bytes)
      (fun _ s' => s' = s.to (s.now.append file bytes))
      (fun _ s' => ∃ n, s' = s.to (s.now.append file (bytes.take n))) s := by
  simp only [write, wp_bind, wp_get]
  cases fault with
  | none => rfl
  | some cut => exact ⟨cut.1, rfl⟩

theorem sync_spec (fault : Option String) :
    wp (sync fault) (fun _ s' => s' = s) (fun _ s' => s' = s) s := by
  simp [sync]

theorem hardLink_spec (fault : Option String) (old new : String) :
    wp (hardLink fault old new)
      (fun _ s' => s.now.entry old ≠ none ∧ s.now.entry new = none ∧
        s' = s.to (s.now.alias_ old new))
      (fun e s' => s' = s ∧ (e = .notFound → s.now.entry old = none)) s := by
  simp [hardLink, Disk.to]
  grind

theorem rename_spec (fault : Option String) (old new : String) :
    wp (rename fault old new)
      (fun _ s' => s.now.entry old ≠ none ∧
        (s' = s.to (s.now.move old new) ∨
          s.now.entry old = s.now.entry new ∧ s' = s))
      (fun _ s' => s' = s) s := by
  simp [rename, Disk.to]
  grind

theorem removeFile_spec (fault : Option String) (name : String) :
    wp (removeFile fault name)
      (fun _ s' => s.now.entry name ≠ none ∧ s' = s.to (s.now.unlink name))
      (fun _ s' => s' = s) s := by
  simp [removeFile, Disk.to]

/-! ## Other names -/

/-- What the name refers to. -/
def Shows (name : String) (file : Option ℕ) (s : Disk) : Prop :=
  s.now.entry name = file

variable {e : Option ℕ}

theorem create_shows (fault : Option String) (hne : name ≠ other) :
    Preserves (Shows other e) (create fault name) := by
  intro s hs
  refine wp_mono (create_spec fault name) ?_ ?_
  · rintro file s' ⟨-, -, rfl⟩
    simpa [Shows, Disk.to, hne.symm] using hs
  · rintro _ s' rfl
    exact hs

theorem write_shows (fault : Option (ℕ × String)) :
    Preserves (Shows other e) (write fault file bytes) := by
  intro s hs
  refine wp_mono (write_spec fault file bytes) ?_ ?_
  · rintro _ s' rfl
    exact hs
  · rintro _ s' ⟨n, rfl⟩
    exact hs

theorem sync_shows (fault : Option String) :
    Preserves (Shows other e) (sync fault) := by
  intro s hs
  refine wp_mono (sync_spec fault) ?_ ?_
  · rintro _ s' rfl
    exact hs
  · rintro _ s' rfl
    exact hs

theorem hardLink_shows (fault : Option String) {old : String}
    (hne : name ≠ other) : Preserves (Shows other e) (hardLink fault old name) := by
  intro s hs
  refine wp_mono (hardLink_spec fault old name) ?_ ?_
  · rintro _ s' ⟨-, -, rfl⟩
    simpa [Shows, Disk.to, hne.symm] using hs
  · rintro _ s' ⟨rfl, -⟩
    exact hs

theorem rename_shows (fault : Option String) {old : String}
    (hold : old ≠ other) (hne : name ≠ other) :
    Preserves (Shows other e) (rename fault old name) := by
  intro s hs
  refine wp_mono (rename_spec fault old name) ?_ ?_
  · rintro _ s' ⟨-, rfl | ⟨-, rfl⟩⟩
    · simpa [Shows, Disk.to, hold.symm, hne.symm] using hs
    · exact hs
  · rintro _ s' rfl
    exact hs

theorem removeFile_shows (fault : Option String) (hne : name ≠ other) :
    Preserves (Shows other e) (removeFile fault name) := by
  intro s hs
  refine wp_mono (removeFile_spec fault name) ?_ ?_
  · rintro _ s' ⟨-, rfl⟩
    simpa [Shows, Disk.to, hne.symm] using hs
  · rintro _ s' rfl
    exact hs

end Files
