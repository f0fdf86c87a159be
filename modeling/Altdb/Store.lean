import Altdb.Fallible
import Altdb.Config

/-!
# The persistent store

`Store` keeps the settings, the identity and the paired hosts in memory and
replaces the file of each through `atomic`.  The file system is present in two
ways: the outcome of a save is an input of every method, and `journal` lists
the saves that have completed, oldest first.
-/

namespace Altdb

open Fallible

/-! ## Host keys -/

/-- `char::is_whitespace`: the Unicode property `White_Space`. -/
def isWhitespace (c : Char) : Bool :=
  let n := c.toNat
  (9 ≤ n && n ≤ 13) || n == 0x20 || n == 0x85 || n == 0xA0 || n == 0x1680 ||
    (0x2000 ≤ n && n ≤ 0x200A) || n == 0x2028 || n == 0x2029 || n == 0x202F ||
    n == 0x205F || n == 0x3000

/-- `char::is_control`: the Unicode category `Cc`. -/
def isControl (c : Char) : Bool :=
  let n := c.toNat
  n ≤ 0x1F || (0x7F ≤ n && n ≤ 0x9F)

/-- The two parts of key checking that lie outside the program: the base64
decoder and the native fingerprint of an Android RSA key. -/
structure KeyCodec where
  decode : String → Except String Bytes
  fingerprint : Bytes → Option Bytes

def hexDigit (n : ℕ) : Char :=
  if n < 10 then Char.ofNat (48 + n) else Char.ofNat (87 + n)

def hex (bytes : Bytes) : String :=
  String.ofList (bytes.flatMap fun b =>
    [hexDigit (b.toNat / 16), hexDigit (b.toNat % 16)])

/-- `key.splitn(2, char::is_whitespace)`: the part before the first white
space character and, if there is one, the part after it. -/
def splitFirstWhitespace (key : String) : String × Option String :=
  let before := key.toList.takeWhile fun c => !isWhitespace c
  match key.toList.dropWhile fun c => !isWhitespace c with
  | [] => (String.ofList before, none)
  | _ :: after => (String.ofList before, some (String.ofList after))

/-- `key.split_whitespace().next().unwrap_or_default()`. -/
def firstWord (key : String) : String :=
  String.ofList ((key.toList.dropWhile isWhitespace).takeWhile
    fun c => !isWhitespace c)

/-- Check a host key and return its fingerprint and the display name. -/
def hostKey (codec : KeyCodec) (key : String) :
    Except String (String × String) := do
  if ¬(key.utf8ByteSize ≤ 8190 ∧ '\x00' ∉ key.toList) then
    throw "invalid host key"
  let (encoded, comment) := splitFirstWhitespace key
  let raw ← codec.decode encoded
  match codec.fingerprint raw with
  | none => throw "invalid Android RSA key"
  | some fp =>
      let name := (comment.getD "Computer").toList.filter (fun c => !isControl c)
      return (hex fp, String.ofList (name.take 128))

/-! ## The store and its operations -/

structure Identity where
  key : String
  certificate : String
  guid : String
  deriving DecidableEq, Repr

/-- One completed replacement of a state file. -/
inductive Save where
  | config (value : Config)
  | hosts (value : List Host)
  deriving DecidableEq, Repr

structure Store where
  config : Config
  identity : Identity
  hosts : List Host
  journal : List Save
  deriving DecidableEq, Repr

/-- Whether some paired host has the fingerprint. -/
def Store.trusts (store : Store) (fp : String) : Prop :=
  ∃ host ∈ store.hosts, host.fingerprint = fp

instance (store : Store) (fp : String) : Decidable (store.trusts fp) :=
  inferInstanceAs (Decidable (∃ host ∈ store.hosts, host.fingerprint = fp))

namespace Store

/-- `store::atomic` as its caller sees it: `saved` is the outcome of the file
operations. -/
def atomic (saved : Except String Unit) (save : Save) :
    EStateM String Store Unit := do
  lift saved
  modify fun store => { store with journal := store.journal ++ [save] }

def configure (saved : Except String Unit) (config : Config) :
    EStateM String Store Unit := do
  lift config.validate
  atomic saved (.config config)
  modify fun store => { store with config := config }

def pair (codec : KeyCodec) (saved : Except String Unit) (now : ℕ)
    (key : String) : EStateM String Store String := do
  let (fp, name) ← lift (hostKey codec key)
  let key := firstWord key
  let mut hosts := (← get).hosts
  if ¬ ∃ host ∈ hosts, host.fingerprint = fp then
    ensure (hosts.length < maxHosts) "paired host limit reached"
    hosts := hosts ++ [{
      fingerprint := fp
      publicKey := key
      name := name
      pairedAt := now
      lastConnected := none }]
  atomic saved (.hosts hosts)
  modify fun store => { store with hosts := hosts }
  return fp

def revoke (saved : Except String Unit) (fp : String) :
    EStateM String Store Unit := do
  let hosts := (← get).hosts.filter fun host => host.fingerprint ≠ fp
  atomic saved (.hosts hosts)
  modify fun store => { store with hosts := hosts }

/-- Write the time of connection into the first host with the fingerprint. -/
def markConnected (now : ℕ) (fp : String) : List Host → List Host
  | [] => []
  | host :: rest =>
      if host.fingerprint = fp then
        { host with lastConnected := some now } :: rest
      else host :: markConnected now fp rest

def connected (saved : Except String Unit) (now : ℕ) (fp : String) :
    EStateM String Store Unit := do
  let hosts := (← get).hosts
  ensure (∃ host ∈ hosts, host.fingerprint = fp) "host is not paired"
  let hosts := markConnected now fp hosts
  atomic saved (.hosts hosts)
  modify fun store => { store with hosts := hosts }

end Store

/-! ## What each operation does to the paired hosts -/

theorem markConnected_fingerprints (now : ℕ) (fp : String)
    (hosts : List Host) :
    (Store.markConnected now fp hosts).map Host.fingerprint =
      hosts.map Host.fingerprint := by
  induction hosts with
  | nil => rfl
  | cons host rest ih =>
      simp only [Store.markConnected]
      split <;> simp [ih]

namespace Store

theorem trusts_iff (store : Store) (fp : String) :
    store.trusts fp ↔ fp ∈ store.hosts.map Host.fingerprint := by
  simp [trusts]

/-- The store after a completed save of the host list. -/
def withHosts (store : Store) (hosts : List Host) : Store :=
  { store with hosts := hosts, journal := store.journal ++ [.hosts hosts] }

/-- The store after a completed save of the settings. -/
def withConfig (store : Store) (config : Config) : Store :=
  { store with
    config := config
    journal := store.journal ++ [.config config] }

@[simp] theorem withHosts_hosts (store : Store) (hosts : List Host) :
    (store.withHosts hosts).hosts = hosts := rfl

@[simp] theorem withHosts_config (store : Store) (hosts : List Host) :
    (store.withHosts hosts).config = store.config := rfl

@[simp] theorem withConfig_hosts (store : Store) (config : Config) :
    (store.withConfig config).hosts = store.hosts := rfl

@[simp] theorem withConfig_config (store : Store) (config : Config) :
    (store.withConfig config).config = config := rfl

/-- The hosts after a revocation. -/
def without (store : Store) (fp : String) : List Host :=
  store.hosts.filter fun host => host.fingerprint ≠ fp

theorem withHosts_without_trusts (store : Store) (fp other : String) :
    (store.withHosts (store.without fp)).trusts other ↔
      store.trusts other ∧ other ≠ fp := by
  simp only [trusts, withHosts_hosts, without, List.mem_filter]
  constructor
  · rintro ⟨host, ⟨hmem, hne⟩, rfl⟩
    exact ⟨⟨host, hmem, rfl⟩, by simpa using hne⟩
  · rintro ⟨⟨host, hmem, rfl⟩, hne⟩
    exact ⟨host, ⟨hmem, by simpa using hne⟩, rfl⟩

theorem withHosts_markConnected_trusts (store : Store) (now : ℕ)
    (fp other : String) :
    (store.withHosts (markConnected now fp store.hosts)).trusts other ↔
      store.trusts other := by
  rw [trusts_iff, trusts_iff, withHosts_hosts, markConnected_fingerprints]

/-- The host lists that a pairing may save: the present one, or one more host
within the limit. -/
def PairedHosts (store : Store) (hosts : List Host) : Prop :=
  hosts = store.hosts ∨
    store.hosts.length < maxHosts ∧ ∃ host, hosts = store.hosts ++ [host]

theorem PairedHosts.trusts {store : Store} {hosts : List Host}
    (h : store.PairedHosts hosts) {fp : String} (htrust : store.trusts fp) :
    (store.withHosts hosts).trusts fp := by
  obtain ⟨host, hmem, hfp⟩ := htrust
  refine ⟨host, ?_, hfp⟩
  rcases h with rfl | ⟨_, new, rfl⟩ <;> simp [hmem]

variable {saved : Except String Unit} {store : Store}

theorem configure_spec (config : Config) :
    wp (configure saved config)
      (fun _ store' => config.validate = .ok () ∧ saved = .ok () ∧
        store' = store.withConfig config)
      (fun _ store' => ¬(config.validate = .ok () ∧ saved = .ok ()) ∧
        store' = store) store := by
  simp [configure, atomic, withConfig]
  grind

theorem revoke_spec (fp : String) :
    wp (revoke saved fp)
      (fun _ store' => saved = .ok () ∧
        store' = store.withHosts (store.without fp))
      (fun _ store' => saved ≠ .ok () ∧ store' = store) store := by
  simp [revoke, atomic, withHosts, without]
  grind

theorem connected_spec (now : ℕ) (fp : String) :
    wp (connected saved now fp)
      (fun _ store' => store.trusts fp ∧ saved = .ok () ∧
        store' = store.withHosts (markConnected now fp store.hosts))
      (fun _ store' => store' = store) store := by
  simp [connected, atomic, withHosts, trusts]
  grind

theorem pair_spec (codec : KeyCodec) (now : ℕ) (key : String) :
    wp (pair codec saved now key)
      (fun fp store' => saved = .ok () ∧ ∃ hosts, store.PairedHosts hosts ∧
        store' = store.withHosts hosts ∧ store'.trusts fp)
      (fun _ store' => store' = store) store := by
  simp only [pair, atomic, PairedHosts, withHosts, trusts]
  simp
  grind

end Store

end Altdb
