import Mathlib.Data.Finset.Basic
import Mathlib.Data.Finset.Lattice.Lemmas
import Mathlib.Data.Finset.Range

/-!
# Credentials of a process

The user and group ids, the capability sets and the `no_new_privs` flag of a process,
with the calls that change them.  A process whose capability sets are all empty never
gets a capability again; under `no_new_privs` it also keeps its user.
-/

namespace Credentials

def CAP_SETGID : ℕ := 6
def CAP_SETUID : ℕ := 7
def CAP_SETPCAP : ℕ := 8

/-- A process on a kernel that knows the capabilities below `known`. -/
structure Process (known : ℕ) where
  ruid : ℕ
  euid : ℕ
  suid : ℕ
  rgid : ℕ
  egid : ℕ
  sgid : ℕ
  groups : List ℕ
  effective : Finset ℕ
  permitted : Finset ℕ
  inheritable : Finset ℕ
  ambient : Finset ℕ
  bounding : Finset ℕ
  noNewPrivs : Bool
  dumpable : Bool
  bounded : bounding ⊆ Finset.range known

/-- A program file: set-user-ID, set-group-ID and file capabilities. -/
structure Program where
  setuid : Option ℕ
  setgid : Option ℕ
  permitted : Finset ℕ
  inheritable : Finset ℕ
  effective : Bool

namespace Process

variable {known : ℕ} {p p' : Process known}

/-! ## Calls -/

/-- `prctl(PR_CAPBSET_DROP)`. -/
def dropBounding (cap : ℕ) (p : Process known) : Option (Process known) :=
  if cap < known ∧ CAP_SETPCAP ∈ p.effective then
    some { p with
      bounding := p.bounding.erase cap
      bounded := (Finset.erase_subset _ _).trans p.bounded }
  else none

def setgroups (groups : List ℕ) (p : Process known) : Option (Process known) :=
  if CAP_SETGID ∈ p.effective then some { p with groups := groups } else none

def setresgid (gid : ℕ) (p : Process known) : Option (Process known) :=
  if CAP_SETGID ∈ p.effective ∨ gid ∈ [p.rgid, p.egid, p.sgid] then
    some { p with rgid := gid, egid := gid, sgid := gid }
  else none

/-- The process as another user.  Leaving the user 0 clears the capabilities. -/
def withUser (uid : ℕ) (p : Process known) : Process known :=
  let leaves := (p.ruid = 0 ∨ p.euid = 0 ∨ p.suid = 0) ∧ uid ≠ 0
  { p with
    ruid := uid
    euid := uid
    suid := uid
    permitted := if leaves then ∅ else p.permitted
    ambient := if leaves then ∅ else p.ambient
    effective :=
      if leaves then ∅
      else if p.euid ≠ 0 ∧ uid = 0 then p.permitted
      else p.effective }

/-- `setresuid` with one user for all three ids. -/
def setresuid (uid : ℕ) (p : Process known) : Option (Process known) :=
  if CAP_SETUID ∈ p.effective ∨ uid ∈ [p.ruid, p.euid, p.suid] then some (p.withUser uid)
  else none

def capset (effective permitted inheritable : Finset ℕ) (p : Process known) :
    Option (Process known) :=
  if permitted ⊆ p.permitted ∧ effective ⊆ permitted ∧
      inheritable ⊆ p.inheritable ∪ p.bounding ∧
      (CAP_SETPCAP ∈ p.effective ∨ inheritable ⊆ p.inheritable ∪ p.permitted) then
    some { p with
      effective := effective
      permitted := permitted
      inheritable := inheritable
      ambient := p.ambient ∩ (permitted ∩ inheritable) }
  else none

def setNoNewPrivs (p : Process known) : Process known := { p with noNewPrivs := true }

def setDumpable (dumpable : Bool) (p : Process known) : Process known :=
  { p with dumpable := dumpable }

/-- The user of a program that is executed. -/
def execUser (program : Program) (p : Process known) : ℕ :=
  if p.noNewPrivs then p.euid else program.setuid.getD p.euid

def execGroup (program : Program) (p : Process known) : ℕ :=
  if p.noNewPrivs then p.egid else program.setgid.getD p.egid

/-- The file capabilities that count.  The user 0 has all of them. -/
def fileCaps (program : Program) (p : Process known) : Finset ℕ × Finset ℕ × Bool :=
  if p.execUser program = 0 ∨ p.ruid = 0 then
    (Finset.range known, p.inheritable, decide (p.execUser program = 0))
  else if p.noNewPrivs then (∅, ∅, false)
  else (program.permitted, program.inheritable, program.effective)

/-- `execve`. -/
def exec (program : Program) (p : Process known) : Process known :=
  let privileged := p.execUser program ≠ p.euid ∨ p.execGroup program ≠ p.egid ∨
    (p.fileCaps program).1 ∪ (p.fileCaps program).2.1 ≠ ∅
  let ambient := if privileged then ∅ else p.ambient
  let permitted := (p.inheritable ∩ (p.fileCaps program).2.1) ∪
    ((p.fileCaps program).1 ∩ p.bounding) ∪ ambient
  { p with
    euid := p.execUser program
    suid := p.execUser program
    egid := p.execGroup program
    sgid := p.execGroup program
    permitted := permitted
    ambient := ambient
    effective := if (p.fileCaps program).2.2 then permitted else ambient
    dumpable := true }

/-- One call.  A child starts with the credentials of its parent. -/
inductive Step : Process known → Process known → Prop
  | dropBounding {q q'} (cap : ℕ) (h : q.dropBounding cap = some q') : Step q q'
  | setgroups {q q'} (groups : List ℕ) (h : q.setgroups groups = some q') : Step q q'
  | setresgid {q q'} (gid : ℕ) (h : q.setresgid gid = some q') : Step q q'
  | setresuid {q q'} (uid : ℕ) (h : q.setresuid uid = some q') : Step q q'
  | capset {q q'} (effective permitted inheritable : Finset ℕ)
      (h : q.capset effective permitted inheritable = some q') : Step q q'
  | setNoNewPrivs {q} : Step q q.setNoNewPrivs
  | setDumpable {q} (dumpable : Bool) : Step q (q.setDumpable dumpable)
  | exec {q} (program : Program) : Step q (q.exec program)

/-! ## Processes without capabilities -/

/-- No capability is held, and none can be had. -/
structure Powerless (p : Process known) : Prop where
  effective : p.effective = ∅
  permitted : p.permitted = ∅
  inheritable : p.inheritable = ∅
  ambient : p.ambient = ∅
  bounding : p.bounding = ∅

theorem Powerless.not_effective (h : p.Powerless) (cap : ℕ) : cap ∉ p.effective := by
  rw [h.effective]
  exact Finset.notMem_empty cap

theorem Powerless.setresuid (h : p.Powerless) {uid : ℕ} (hset : p.setresuid uid = some p') :
    p'.Powerless ∧ uid ∈ [p.ruid, p.euid, p.suid] := by
  unfold Process.setresuid at hset
  split at hset
  · next hallowed =>
    obtain rfl := Option.some.inj hset
    refine ⟨?_, hallowed.resolve_left (h.not_effective _)⟩
    constructor
    · unfold withUser
      dsimp only
      rw [h.permitted, h.effective, ite_self, ite_self]
    · unfold withUser
      dsimp only
      rw [h.permitted, ite_self]
    · exact h.inheritable
    · unfold withUser
      dsimp only
      rw [h.ambient, ite_self]
    · exact h.bounding
  · cases hset

theorem Powerless.capset (h : p.Powerless) {effective permitted inheritable : Finset ℕ}
    (hset : p.capset effective permitted inheritable = some p') : p'.Powerless := by
  unfold Process.capset at hset
  split at hset
  · next hallowed =>
    obtain ⟨hpermitted, heffective, hinheritable, -⟩ := hallowed
    rw [h.permitted, Finset.subset_empty] at hpermitted
    rw [hpermitted, Finset.subset_empty] at heffective
    rw [h.inheritable, h.bounding, Finset.union_empty, Finset.subset_empty] at hinheritable
    obtain rfl := Option.some.inj hset
    constructor
    · exact heffective
    · exact hpermitted
    · exact hinheritable
    · dsimp only
      rw [h.ambient, Finset.empty_inter]
    · exact h.bounding
  · cases hset

/-- What a program would get is cut down to the bounding set. -/
theorem Powerless.exec (h : p.Powerless) (program : Program) : (p.exec program).Powerless := by
  have hambient : (if p.execUser program ≠ p.euid ∨ p.execGroup program ≠ p.egid ∨
      (p.fileCaps program).1 ∪ (p.fileCaps program).2.1 ≠ ∅ then ∅ else p.ambient) = ∅ := by
    rw [h.ambient, ite_self]
  have hpermitted : (p.exec program).permitted = ∅ := by
    unfold Process.exec
    dsimp only
    rw [hambient, h.inheritable, h.bounding, Finset.empty_inter, Finset.inter_empty,
      Finset.empty_union, Finset.empty_union]
  constructor
  · change (if (p.fileCaps program).2.2 then (p.exec program).permitted
      else (p.exec program).ambient) = ∅
    rw [hpermitted]
    change (if _ then ∅ else (if _ then ∅ else p.ambient)) = _
    rw [hambient, ite_self]
  · exact hpermitted
  · exact h.inheritable
  · exact hambient
  · exact h.bounding

/-- No call gives a capability back. -/
theorem Powerless.step (h : p.Powerless) (hstep : Step p p') : p'.Powerless := by
  cases hstep with
  | dropBounding cap hset =>
      unfold Process.dropBounding at hset
      rw [if_neg fun hallowed => h.not_effective _ hallowed.2] at hset
      cases hset
  | setgroups groups hset =>
      unfold Process.setgroups at hset
      rw [if_neg (h.not_effective _)] at hset
      cases hset
  | setresgid gid hset =>
      unfold Process.setresgid at hset
      split at hset
      · obtain rfl := Option.some.inj hset
        exact ⟨h.effective, h.permitted, h.inheritable, h.ambient, h.bounding⟩
      · cases hset
  | setresuid uid hset => exact (h.setresuid hset).1
  | capset effective permitted inheritable hset => exact h.capset hset
  | setNoNewPrivs => exact ⟨h.effective, h.permitted, h.inheritable, h.ambient, h.bounding⟩
  | setDumpable dumpable =>
      exact ⟨h.effective, h.permitted, h.inheritable, h.ambient, h.bounding⟩
  | exec program => exact h.exec program

/-- Nor can the user be changed. -/
structure Pinned (uid : ℕ) (p : Process known) : Prop extends p.Powerless where
  ruid : p.ruid = uid
  euid : p.euid = uid
  suid : p.suid = uid
  noNewPrivs : p.noNewPrivs = true

theorem Pinned.step {uid : ℕ} (h : p.Pinned uid) (hstep : Step p p') : p'.Pinned uid := by
  have hpowerless := h.toPowerless.step hstep
  cases hstep with
  | dropBounding cap hset =>
      unfold Process.dropBounding at hset
      rw [if_neg fun hallowed => h.not_effective _ hallowed.2] at hset
      cases hset
  | setgroups groups hset =>
      unfold Process.setgroups at hset
      rw [if_neg (h.not_effective _)] at hset
      cases hset
  | setresgid gid hset =>
      unfold Process.setresgid at hset
      split at hset
      · obtain rfl := Option.some.inj hset
        exact ⟨hpowerless, h.ruid, h.euid, h.suid, h.noNewPrivs⟩
      · cases hset
  | setresuid uid' hset =>
      have hmem := (h.toPowerless.setresuid hset).2
      rw [h.ruid, h.euid, h.suid] at hmem
      have hsame : uid' = uid := by simpa using hmem
      unfold Process.setresuid at hset
      split at hset
      · obtain rfl := Option.some.inj hset
        exact ⟨hpowerless, hsame, hsame, hsame, h.noNewPrivs⟩
      · cases hset
  | capset effective permitted inheritable hset =>
      unfold Process.capset at hset
      split at hset
      · obtain rfl := Option.some.inj hset
        exact ⟨hpowerless, h.ruid, h.euid, h.suid, h.noNewPrivs⟩
      · cases hset
  | setNoNewPrivs => exact ⟨hpowerless, h.ruid, h.euid, h.suid, rfl⟩
  | setDumpable dumpable => exact ⟨hpowerless, h.ruid, h.euid, h.suid, h.noNewPrivs⟩
  | exec program =>
      have huser : p.execUser program = uid := by
        rw [execUser, if_pos h.noNewPrivs]
        exact h.euid
      exact ⟨hpowerless, h.ruid, huser, huser, h.noNewPrivs⟩

end Process

end Credentials
