import Altdb.Serialize
import Altdb.StateFile
import Altdb.StoreInvariant

/-!
# The store and its directory

Here the methods of `Store` work on the files of the state directory.  As long
as no rollback fails, the fields in memory are the values of the files, a
missing host list being the empty one, and each method does what the same
method of `Store` does when it is told the outcome of its file operations.
-/

namespace Altdb

open Fallible Files JsonText StateFile

/-! ## Readers -/

def Config.bytes (config : Config) : Bytes := toBytes (Config.codec.write config)

def Identity.bytes (identity : Identity) : Bytes :=
  toBytes (Identity.codec.write identity)

def hostsBytes (hosts : List Host) : Bytes := toBytes (hostsCodec.write hosts)

/-- `serde_json::from_reader` at the types of the state files.  It reads what
was written before the newline. -/
structure Serde where
  config : Bytes → Option Config
  identity : Bytes → Option Identity
  hosts : Bytes → Option (List Host)
  config_bytes : ∀ value, config (value.bytes ++ [10]) = some value
  identity_bytes : ∀ value, identity (value.bytes ++ [10]) = some value
  hosts_bytes : ∀ value, (∀ host ∈ value, host.InRange) →
    hosts (hostsBytes value ++ [10]) = some value
  hosts_inRange : ∀ bytes value, hosts bytes = some value →
    ∀ host ∈ value, host.InRange

instance (host : Host) : Decidable host.InRange :=
  decidable_of_iff (host.pairedAt < 2 ^ 64 ∧
      ∀ time ∈ host.lastConnected, time < 2 ^ 64)
    ⟨fun h => ⟨h.1, h.2⟩, fun h => ⟨h.paired, h.connected⟩⟩

/-- Read a whole file that may end in white space. -/
def readFile {α : Type} (codec : Codec α) (bytes : Bytes) : Option α := do
  let (value, rest) ← ofBytes bytes >>= codec.read
  if rest.all (· ∈ [' ', '\n', '\t', '\r']) then some value else none

theorem readFile_write {α : Type} (codec : Codec α) (value : α) :
    readFile codec (toBytes (codec.write value) ++ [10]) = some value := by
  have hbytes : toBytes (codec.write value) ++ [10] =
      toBytes (codec.write value ++ ['\n']) := by
    rw [toBytes, toBytes, List.flatMap_append]
    rfl
  have hread := codec.read_write value ['\n'] (by simp [Clear])
  rw [readFile, hbytes, ofBytes_toBytes]
  simp only [Option.bind_eq_bind, Option.bind_some, hread]
  rfl

/-- The readers that take the fields in the order in which they are written. -/
def Serde.canonical : Serde where
  config := readFile Config.codec
  identity := readFile Identity.codec
  hosts bytes := (readFile hostsCodec bytes).filter
    fun hosts => ∀ host ∈ hosts, host.InRange
  config_bytes := readFile_write Config.codec
  identity_bytes := readFile_write Identity.codec
  hosts_bytes value hrange := by
    rw [hostsBytes, readFile_write]
    simpa using hrange
  hosts_inRange bytes value hvalue := by
    simpa using (Option.filter_eq_some_iff.mp hvalue).2

/-! ## Methods -/

/-- A store and the files of its directory. -/
structure StateDirectory where
  store : Store
  files : Directory

inductive StoreError where
  | refused (message : String)
  | save (error : SaveError)
  deriving DecidableEq, Repr

namespace StateDirectory

/-- Replace a state file. -/
def save (faults : Faults) (file : StateFile) (value : Bytes) :
    EStateM StoreError StateDirectory Unit := fun s =>
  match atomic faults file value (Disk.of s.files) with
  | .ok _ disk => .ok () { s with files := disk.now }
  | .error e disk => .error (.save e) { s with files := disk.now }

def check {α : Type} (result : Except String α) :
    EStateM StoreError StateDirectory α :=
  mapError .refused (lift result)

def configure (faults : Faults) (config : Config) :
    EStateM StoreError StateDirectory Unit := do
  check config.validate
  save faults .config config.bytes
  modify fun s => { s with store := s.store.withConfig config }

def pair (codec : KeyCodec) (faults : Faults) (now : UInt64) (key : String) :
    EStateM StoreError StateDirectory String := do
  let (fp, name) ← check (hostKey codec key)
  let key := firstWord key
  let mut hosts := (← get).store.hosts
  if ¬ ∃ host ∈ hosts, host.fingerprint = fp then
    ensure (hosts.length < maxHosts) (.refused "paired host limit reached")
    hosts := hosts ++ [{
      fingerprint := fp
      publicKey := key
      name := name
      pairedAt := now.toNat
      lastConnected := none }]
  save faults .hosts (hostsBytes hosts)
  modify fun s => { s with store := s.store.withHosts hosts }
  return fp

def revoke (faults : Faults) (fp : String) :
    EStateM StoreError StateDirectory Unit := do
  let hosts := (← get).store.hosts.filter fun host => host.fingerprint ≠ fp
  save faults .hosts (hostsBytes hosts)
  modify fun s => { s with store := s.store.withHosts hosts }

def connected (faults : Faults) (now : UInt64) (fp : String) :
    EStateM StoreError StateDirectory Unit := do
  let hosts := (← get).store.hosts
  ensure (∃ host ∈ hosts, host.fingerprint = fp) (.refused "host is not paired")
  let hosts := Store.markConnected now.toNat fp hosts
  save faults .hosts (hostsBytes hosts)
  modify fun s => { s with store := s.store.withHosts hosts }

end StateDirectory

/-- The outcomes of what `Store::open` asks of the system. -/
structure Opening where
  /-- The directory is there, is private and is locked. -/
  locked : Except String Unit
  /-- A state file is opened and its permissions are set. -/
  opened : StateFile → Except String Unit
  configFaults : Faults
  identityFaults : Faults
  /-- `Identity::generate`. -/
  generated : Except String Identity

/-- Neither the directory nor any of its files refuses to be opened. -/
structure Opening.Clean (opening : Opening) : Prop where
  locked : opening.locked = .ok ()
  opened : ∀ file, opening.opened file = .ok ()

/-- Nothing fails, and the identity is given. -/
def Opening.quiet (faults : Faults) (identity : Identity) : Opening where
  locked := .ok ()
  opened _ := .ok ()
  configFaults := faults
  identityFaults := faults
  generated := .ok identity

namespace StateDirectory

/-- `store::read`. -/
def read {α : Type} (parse : Bytes → Option α) (opening : Opening)
    (file : StateFile) : EStateM StoreError Directory α := do
  mapError .refused (lift (opening.opened file))
  match (← get).read file.name with
  | none => throw (.refused "no such file")
  | some bytes =>
      ensure (bytes.length ≤ 1024 * 1024) (.refused "state file exceeds limit")
      match parse bytes with
      | some value => return value
      | none => throw (.refused "invalid state file")

/-- Write the first value of a state file. -/
def create (faults : Faults) (file : StateFile) (value : Bytes) :
    EStateM StoreError Directory Unit := fun d =>
  match atomic faults file value (Disk.of d) with
  | .ok _ disk => .ok () disk.now
  | .error e disk => .error (.save e) disk.now

def openConfig (serde : Serde) (opening : Opening) :
    EStateM StoreError Directory Config := do
  if (← get).entry StateFile.config.name ≠ none then
    read serde.config opening .config
  else
    create opening.configFaults .config Config.default.bytes
    return Config.default

def openIdentity (serde : Serde) (opening : Opening) :
    EStateM StoreError Directory Identity := do
  if (← get).entry StateFile.identity.name ≠ none then
    read serde.identity opening .identity
  else
    let identity ← mapError .refused (lift opening.generated)
    create opening.identityFaults .identity identity.bytes
    return identity

def openHosts (serde : Serde) (opening : Opening) :
    EStateM StoreError Directory (List Host) := do
  if (← get).entry StateFile.hosts.name ≠ none then
    read serde.hosts opening .hosts
  else return []

/-- The check of one stored host. -/
def checkHost (codec : KeyCodec) (host : Host) :
    EStateM StoreError Directory PUnit := do
  let (fp, _) ← mapError .refused (lift (hostKey codec host.publicKey))
  ensure (fp = host.fingerprint) (.refused "host fingerprint mismatch")

/-- `Store::open`. -/
def openStore (serde : Serde) (codec : KeyCodec) (opening : Opening) :
    EStateM StoreError Directory Store := do
  mapError .refused (lift opening.locked)
  let config ← openConfig serde opening
  mapError .refused (lift config.validate)
  let identity ← openIdentity serde opening
  let hosts ← openHosts serde opening
  ensure (hosts.length ≤ maxHosts) (.refused "too many stored hosts")
  hosts.forM (checkHost codec)
  return { config := config, identity := identity, hosts := hosts, journal := [] }

/-! ## Files after a replacement -/

/-- All state files are as they were. -/
def Same (d d' : Directory) : Prop :=
  ∀ file : StateFile, d'.read file.name = d.read file.name

/-- One state file was replaced. -/
structure Saved (file : StateFile) (value : Bytes) (d d' : Directory) : Prop where
  read_eq : d'.read file.name = some (value ++ [10])
  others : ∀ other, other ≠ file → d'.read other.name = d.read other.name

theorem read_of_shows {d d' : Directory} {name : String}
    (hentry : d'.entry name = d.entry name)
    (hcontent : ∀ i < d.next, d'.content i = d.content i) :
    d'.read name = d.read name :=
  Kept.read ⟨hentry, hcontent⟩

theorem atomic_files (faults : Faults) (file : StateFile) (value : Bytes)
    (d : Directory) :
    wp (atomic faults file value)
      (fun _ s' => Saved file value d s'.now)
      (fun e s' => e ≠ .rollback → Same d s'.now) (Disk.of d) := by
  have hothers {other : StateFile} (hne : file ≠ other) :
      wp (atomic faults file value)
        (fun _ => Shows other.name (d.entry other.name))
        (fun _ => Shows other.name (d.entry other.name)) (Disk.of d) :=
    atomic_shows faults hne (Disk.of d) rfl
  refine wp_intro ?_ ?_
  · intro _ s' hrun
    obtain ⟨hreplaced, -⟩ := wp_of_ok (atomic_spec faults file d) hrun
    refine ⟨hreplaced.read, fun other hne => ?_⟩
    have hshows := wp_of_ok (hothers hne.symm) hrun
    exact read_of_shows hshows hreplaced.content
  · intro e s' hrun hne other
    have hfailed := wp_of_error (atomic_spec faults file d) hrun
    rw [Failed, if_neg hne] at hfailed
    by_cases heq : file = other
    · subst heq
      exact hfailed.1.read
    · have hshows := wp_of_error (hothers heq) hrun
      exact read_of_shows hshows hfailed.1.content

variable {s s' : StateDirectory} {d d' : Directory}

theorem save_spec (faults : Faults) (file : StateFile) (value : Bytes) :
    wp (save faults file value)
      (fun _ s' => s'.store = s.store ∧ Saved file value s.files s'.files)
      (fun e s' => s'.store = s.store ∧ ∃ reason, e = .save reason ∧
        (reason ≠ .rollback → Same s.files s'.files)) s := by
  have hfiles := atomic_files faults file value s.files
  unfold wp at hfiles ⊢
  unfold save
  cases hrun : atomic faults file value (Disk.of s.files) with
  | ok _ disk =>
      rw [hrun] at hfiles
      exact ⟨rfl, hfiles⟩
  | error e disk =>
      rw [hrun] at hfiles
      exact ⟨rfl, e, rfl, hfiles⟩

theorem create_spec (faults : Faults) (file : StateFile) (value : Bytes) :
    wp (create faults file value) (fun _ d' => Saved file value d d')
      (fun _ _ => True) d := by
  have hfiles := atomic_files faults file value d
  unfold wp at hfiles ⊢
  unfold create
  cases hrun : atomic faults file value (Disk.of d) with
  | ok _ disk =>
      rw [hrun] at hfiles
      exact hfiles
  | error e disk => trivial

/-! ## Methods on files and methods in memory -/

/-- A method that failed otherwise than in its rollback has no effect. -/
def Refused (s s' : StateDirectory) (e : StoreError) : Prop :=
  s'.store = s.store ∧ (e ≠ .save .rollback → Same s.files s'.files)

theorem Refused.refl (s : StateDirectory) (e : StoreError) : Refused s s e :=
  ⟨rfl, fun _ _ => rfl⟩

/-- The settings were replaced in memory and in their file. -/
structure ConfigSaved (config : Config) (s s' : StateDirectory) : Prop where
  store_eq : s'.store = s.store.withConfig config
  saved : Saved .config config.bytes s.files s'.files

structure HostsSaved (hosts : List Host) (s s' : StateDirectory) : Prop where
  store_eq : s'.store = s.store.withHosts hosts
  saved : Saved .hosts (hostsBytes hosts) s.files s'.files

theorem configure_spec (faults : Faults) (config : Config) :
    wp (configure faults config)
      (fun _ s' => config.validate = .ok () ∧ ConfigSaved config s s')
      (fun e s' => Refused s s' e) s := by
  simp only [configure, check, wp_bind, wp_mapError, wp_lift]
  refine ⟨fun _ hvalid => ?_, fun _ _ => .refl s _⟩
  refine wp_mono (save_spec faults .config config.bytes) ?_ ?_
  · rintro _ s₁ ⟨hstore, hsaved⟩
    exact ⟨hvalid, by simp [hstore], hsaved⟩
  · rintro _ s₁ ⟨hstore, reason, rfl, hsame⟩
    exact ⟨hstore, fun hne => hsame fun heq => hne (heq ▸ rfl)⟩

/-- The host list is replaced in its file and will be in memory. -/
theorem saveHosts_spec (faults : Faults) (hosts : List Host) :
    wp (save faults .hosts (hostsBytes hosts))
      (fun _ s' => HostsSaved hosts s
        { s' with store := s'.store.withHosts hosts })
      (fun e s' => Refused s s' e) s := by
  refine wp_mono (save_spec faults .hosts (hostsBytes hosts)) ?_ ?_
  · rintro _ s₁ ⟨hstore, hsaved⟩
    exact ⟨by simp [hstore], hsaved⟩
  · rintro _ s₁ ⟨hstore, reason, rfl, hsame⟩
    exact ⟨hstore, fun hne => hsame fun heq => hne (heq ▸ rfl)⟩

theorem pair_spec (codec : KeyCodec) (faults : Faults) (now : UInt64)
    (key : String) :
    wp (pair codec faults now key)
      (fun fp s' => ∃ hosts,
        Store.Pairing codec now.toNat key fp s.store.hosts hosts ∧
          HostsSaved hosts s s')
      (fun e s' => Refused s s' e) s := by
  simp only [pair, check, wp_bind, wp_mapError, wp_lift]
  refine ⟨?_, fun _ _ => .refl s _⟩
  rintro ⟨fp, name⟩ hkey
  simp only [wp_bind, wp_get, wp_ite, wp_ensure]
  refine ⟨fun hnew => ⟨fun hroom => ?_, fun _ => .refl s _⟩, fun hold => ?_⟩
  · refine wp_mono (saveHosts_spec faults _) ?_ (fun _ _ h => h)
    intro _ s₁ hsaved
    exact ⟨_, ⟨name, hkey, .inr ⟨fun host hmem heq => hnew ⟨host, hmem, heq⟩,
      hroom, rfl⟩⟩, hsaved⟩
  · refine wp_mono (saveHosts_spec faults _) ?_ (fun _ _ h => h)
    intro _ s₁ hsaved
    exact ⟨_, ⟨name, hkey, .inl ⟨not_not.mp hold, rfl⟩⟩, hsaved⟩

theorem revoke_spec (faults : Faults) (fp : String) :
    wp (revoke faults fp)
      (fun _ s' => HostsSaved (s.store.without fp) s s')
      (fun e s' => Refused s s' e) s := by
  simp only [revoke, wp_bind, wp_get]
  exact saveHosts_spec faults (s.store.without fp)

theorem connected_spec (faults : Faults) (now : UInt64) (fp : String) :
    wp (connected faults now fp)
      (fun _ s' => s.store.trusts fp ∧
        HostsSaved (Store.markConnected now.toNat fp s.store.hosts) s s')
      (fun e s' => Refused s s' e) s := by
  simp only [connected, wp_bind, wp_get, wp_ensure]
  refine ⟨fun htrust => ?_, fun _ => .refl s _⟩
  refine wp_mono (saveHosts_spec faults _) ?_ (fun _ _ h => h)
  exact fun _ s₁ hsaved => ⟨htrust, hsaved⟩

end StateDirectory

end Altdb
