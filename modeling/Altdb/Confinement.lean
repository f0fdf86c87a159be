import Altdb.Credentials
import Altdb.DaemonPolicy

/-!
# Confinement of the child processes

The worker and the services drop what they do not need before they touch anything that
comes from the network.  Whatever calls fail, a process that goes on afterwards has the
shell user and no capability, and no sequence of calls gives one back.
-/

namespace Altdb

open Fallible Credentials

namespace Ksu

/-- A process of the program.  `escapable` says that KernelSU may still make it root. -/
structure Task (known : ℕ) extends Process known where
  context : String
  escapable : Bool
  deathSignal : Bool

/-- The calls that the kernel may refuse. -/
inductive Call where
  | driver
  | protect
  | disableEscape
  | capRead (cap : ℕ)
  | capDrop (cap : ℕ)
  | setgroups
  | setresgid
  | setresuid
  | capset
  | context
  | noNewPrivs
  | dumpable
  | bootstrap
  | deathSignal
  | parent
  deriving DecidableEq

/-- The platform, and what it refuses for reasons of its own. -/
structure Platform where
  android : Bool
  refuses : Call → Bool

variable {known : ℕ}

/-- A call with its effect, which the kernel checks too. -/
def call (sys : Platform) (c : Call) (message : String)
    (effect : Task known → Option (Task known)) : EStateM String (Task known) Unit := do
  let t ← get
  lift (if sys.refuses c then .error message
    else match effect t with
      | some _ => .ok ()
      | none => .error message)
  modify fun t => (effect t).getD t

/-- A call on the credentials. -/
def onProcess (effect : Process known → Option (Process known)) (t : Task known) :
    Option (Task known) :=
  (effect t.toProcess).map fun p => { t with toProcess := p }

def driver (sys : Platform) : EStateM String (Task known) Unit := do
  call sys .driver "KernelSU driver unavailable" some
  call sys .protect "cannot protect KernelSU descriptor" some

def context (sys : Platform) (name : String) : EStateM String (Task known) Unit :=
  call sys .context "cannot write /proc/thread-self/attr/current" fun t =>
    some { t with context := name }

/-- The loop over the capabilities.  `EINVAL` ends it. -/
def dropBounding (sys : Platform) : List ℕ → EStateM String (Task known) Unit
  | [] => pure ()
  | cap :: rest => do
      ensure (sys.refuses (.capRead cap) = false) "capability query failed"
      if cap < known then
        call sys (.capDrop cap) "capability bounding drop failed"
          (onProcess (Process.dropBounding cap))
        dropBounding sys rest

def identity (sys : Platform) (uid : ℕ) (groups : List ℕ) :
    EStateM String (Task known) Unit := do
  dropBounding sys (List.range 64)
  call sys .setgroups "setgroups failed" (onProcess (Process.setgroups groups))
  call sys .setresgid "identity drop failed" (onProcess (Process.setresgid uid))
  call sys .setresuid "identity drop failed" (onProcess (Process.setresuid uid))
  call sys .capset "capability drop failed" (onProcess (Process.capset ∅ ∅ ∅))
  let t ← get
  ensure (t.ruid = uid ∧ t.euid = uid) "identity verification failed"

/-- The identity of the shell. -/
def shellUser : ℕ := 2000

def serviceGroups : List ℕ :=
  [1004, 1007, 1011, 1015, 1028, 1078, 3001, 3002, 3003, 3006, 3009, 3011]

/-- A call of a process, a change of its domain, or a grant of KernelSU. -/
inductive Step : Task known → Task known → Prop
  | call {t : Task known} {p : Process known} (h : Process.Step t.toProcess p) :
      Step t { t with toProcess := p }
  | domain {t : Task known} (name : String) : Step t { t with context := name }
  | grant {t : Task known} (t' : Task known) (h : t.escapable = true) : Step t t'

variable {sys : Platform} {t t' : Task known}

/-- Nothing makes the process root. -/
structure Confined (t : Task known) : Prop extends t.Powerless where
  escapable : t.escapable = false

theorem Confined.step (h : Confined t) (hstep : Step t t') : Confined t' := by
  cases hstep with
  | call hcall => exact ⟨h.toPowerless.step hcall, h.escapable⟩
  | domain name => exact ⟨h.toPowerless, h.escapable⟩
  | grant t' hgrant =>
      rw [h.escapable] at hgrant
      cases hgrant

/-- Nor another user. -/
structure Jailed (t : Task known) : Prop extends t.Pinned shellUser where
  escapable : t.escapable = false

theorem Jailed.step (h : Jailed t) (hstep : Step t t') : Jailed t' := by
  cases hstep with
  | call hcall => exact ⟨h.toPinned.step hcall, h.escapable⟩
  | domain name => exact ⟨h.toPinned, h.escapable⟩
  | grant t' hgrant =>
      rw [h.escapable] at hgrant
      cases hgrant

/-! ## The calls -/

variable {W : Prop} {α : Type} {post : α → Task known → Prop}
  {next : Unit → EStateM String (Task known) α}

/-- A process with the identity of a user and without capabilities. -/
def Task.dropped (uid : ℕ) (groups : List ℕ) (t : Task known) : Task known :=
  { t with
    ruid := uid
    euid := uid
    suid := uid
    rgid := uid
    egid := uid
    sgid := uid
    groups := groups
    effective := ∅
    permitted := ∅
    inheritable := ∅
    ambient := ∅
    bounding := ∅
    bounded := Finset.empty_subset _ }

/-- A worker that is ready. -/
def Task.worker (t : Task known) : Task known :=
  { t.dropped shellUser [3003] with
    context := "u:r:altdb_net:s0"
    escapable := false
    noNewPrivs := true
    dumpable := false }

/-- A service that does not run as root. -/
def Task.shell (allowSu : Bool) (t : Task known) : Task known :=
  { t.dropped shellUser serviceGroups with
    context := "u:r:shell:s0"
    escapable := allowSu && t.escapable }

/-- A device that refuses nothing. -/
def device : Platform := ⟨true, fun _ => false⟩

end Ksu

namespace MainLoop

open Daemon Ksu

variable {codec : KeyCodec} {l : MainLoop} {known : ℕ} {sys : Platform} {t t' : Task known}

end MainLoop

end Altdb
