import Altdb.StateDirectory

/-!
# Memory and files agree

The fields of an open store are the values of its files.  A method that
returns has replaced a field and its file by the same value, and a method that
fails has replaced neither, as long as its rollback does not fail.
-/

namespace Altdb

open Fallible Files Relation

namespace Store

variable {codec : KeyCodec} {store : Store}

/-! ## Successful methods in memory -/

theorem configure_ok {config : Config} (hvalid : config.validate = .ok ()) :
    configure (.ok ()) config store = .ok () (store.withConfig config) := by
  apply eq_ok_of_wp
  simp [configure, atomic, hvalid, withConfig]

theorem pair_ok {now : ℕ} {key fp : String} {hosts : List Host}
    (h : Pairing codec now key fp store.hosts hosts) :
    pair codec (.ok ()) now key store = .ok fp (store.withHosts hosts) := by
  obtain ⟨name, hkey, ⟨hold, rfl⟩ | ⟨hnew, hroom, rfl⟩⟩ := h.accepted
  · apply eq_ok_of_wp
    simp only [pair, hkey, atomic, wp_bind, wp_lift, wp_get, wp_ite]
    simp [hold, withHosts]
  · apply eq_ok_of_wp
    simp only [pair, hkey, atomic, wp_bind, wp_lift, wp_get, wp_ite]
    simp [hroom, withHosts, newHost]
    exact hnew

theorem revoke_ok (fp : String) :
    revoke (.ok ()) fp store = .ok () (store.withHosts (store.without fp)) := rfl

theorem connected_ok {now : ℕ} {fp : String} (htrust : store.trusts fp) :
    connected (.ok ()) now fp store =
      .ok () (store.withHosts (markConnected now fp store.hosts)) := by
  have hsome : ∃ host ∈ store.hosts, host.fingerprint = fp := htrust
  apply eq_ok_of_wp
  simp [connected, atomic, hsome, withHosts]

end Store

namespace StateDirectory

/-- A call of a method of `Store`. -/
def perform (codec : KeyCodec) (faults : Faults) :
    Operation → EStateM StoreError StateDirectory Unit
  | .configure config => configure faults config
  | .pair now key => do
      let _ ← pair codec faults now key
  | .revoke fp => revoke faults fp
  | .connected now fp => connected faults now fp

/-- The fields in memory are the values of the files. -/
structure Agrees (serde : Serde) (s : StateDirectory) : Prop where
  config : (s.files.read StateFile.config.name).bind serde.config =
    some s.store.config
  identity : (s.files.read StateFile.identity.name).bind serde.identity =
    some s.store.identity
  hosts : (s.files.read StateFile.hosts.name).elim (some []) serde.hosts =
    some s.store.hosts

variable {serde : Serde} {codec : KeyCodec} {s s' : StateDirectory}

theorem Agrees.inRange (h : s.Agrees serde) :
    ∀ host ∈ s.store.hosts, host.InRange := by
  have hhosts := h.hosts
  cases hread : s.files.read StateFile.hosts.name with
  | none =>
      have hnil : [] = s.store.hosts := by simpa [hread] using hhosts
      simp [← hnil]
  | some bytes =>
      rw [hread] at hhosts
      exact serde.hosts_inRange bytes _ hhosts

theorem Agrees.same (h : s.Agrees serde) (hstore : s'.store = s.store)
    (hsame : Same s.files s'.files) : s'.Agrees serde where
  config := by rw [hsame .config, hstore]; exact h.config
  identity := by rw [hsame .identity, hstore]; exact h.identity
  hosts := by rw [hsame .hosts, hstore]; exact h.hosts

theorem Agrees.configSaved (h : s.Agrees serde) {config : Config}
    (hsaved : ConfigSaved config s s') : s'.Agrees serde where
  config := by
    rw [hsaved.saved.read_eq, hsaved.store_eq]
    exact serde.config_bytes config
  identity := by
    rw [hsaved.saved.others .identity (by decide), hsaved.store_eq]
    exact h.identity
  hosts := by
    rw [hsaved.saved.others .hosts (by decide), hsaved.store_eq]
    exact h.hosts

theorem Agrees.hostsSaved (h : s.Agrees serde) {hosts : List Host}
    (hsaved : HostsSaved hosts s s')
    (hrange : ∀ host ∈ hosts, host.InRange) : s'.Agrees serde where
  config := by
    rw [hsaved.saved.others .config (by decide), hsaved.store_eq]
    exact h.config
  identity := by
    rw [hsaved.saved.others .identity (by decide), hsaved.store_eq]
    exact h.identity
  hosts := by
    rw [hsaved.saved.read_eq, hsaved.store_eq]
    exact serde.hosts_bytes hosts hrange

/-! ## One method -/

/-- A field was replaced in memory and in its file. -/
def Commits (s s' : StateDirectory) : Prop :=
  (∃ config, ConfigSaved config s s') ∨ ∃ hosts, HostsSaved hosts s s'

/-- The new value is the one that the method computes in memory. -/
structure Performs (codec : KeyCodec) (operation : Operation)
    (s s' : StateDirectory) : Prop where
  memory : Store.perform codec (.ok ()) operation s.store = .ok () s'.store
  commits : Commits s s'
  inRange : (∀ host ∈ s.store.hosts, host.InRange) →
    ∀ host ∈ s'.store.hosts, host.InRange

theorem perform_spec (codec : KeyCodec) (faults : Faults)
    (operation : Operation) :
    wp (perform codec faults operation)
      (fun _ s' => Performs codec operation s s')
      (fun e s' => Refused s s' e) s := by
  cases operation with
  | configure config =>
      refine wp_mono (configure_spec faults config) ?_ (fun _ _ h => h)
      rintro _ s' ⟨hvalid, hsaved⟩
      refine ⟨?_, .inl ⟨config, hsaved⟩, ?_⟩
      · rw [hsaved.store_eq]
        exact Store.configure_ok hvalid
      · rw [hsaved.store_eq]
        exact id
  | pair now key =>
      simp only [perform, wp_bind]
      refine wp_mono (pair_spec codec faults now key) ?_ (fun _ _ h => h)
      rintro fp s' ⟨hosts, hpair, hsaved⟩
      refine ⟨?_, .inr ⟨_, hsaved⟩, ?_⟩
      · rw [hsaved.store_eq]
        apply eq_ok_of_wp
        simp only [Store.perform, wp_bind]
        unfold wp
        rw [Store.pair_ok hpair]
        exact ⟨trivial, rfl⟩
      · rw [hsaved.store_eq]
        exact hpair.inRange now.toNat_lt
  | revoke fp =>
      refine wp_mono (revoke_spec faults fp) ?_ (fun _ _ h => h)
      intro _ s' hsaved
      refine ⟨?_, .inr ⟨_, hsaved⟩, ?_⟩
      · rw [hsaved.store_eq]
        exact Store.revoke_ok fp
      · rw [hsaved.store_eq]
        exact fun hrange host hmem => hrange host (List.mem_of_mem_filter hmem)
  | connected now fp =>
      refine wp_mono (connected_spec faults now fp) ?_ (fun _ _ h => h)
      rintro _ s' ⟨htrust, hsaved⟩
      refine ⟨?_, .inr ⟨_, hsaved⟩, ?_⟩
      · rw [hsaved.store_eq]
        exact Store.connected_ok htrust
      · rw [hsaved.store_eq]
        exact Store.markConnected_inRange now.toNat_lt fp

/-! ## Any number of methods -/

/-- One method, but for a failed rollback. -/
def Next (codec : KeyCodec) (s s' : StateDirectory) : Prop :=
  ∃ operation faults,
    outcome (perform codec faults operation s) ≠ .error (.save .rollback) ∧
      final (perform codec faults operation s) = s'

theorem Agrees.performs {operation : Operation} (h : s.Agrees serde)
    (hdone : Performs codec operation s s') : s'.Agrees serde := by
  rcases hdone.commits with ⟨config, hsaved⟩ | ⟨hosts, hsaved⟩
  · exact h.configSaved hsaved
  · refine h.hostsSaved hsaved ?_
    have hrange := hdone.inRange h.inRange
    rwa [hsaved.store_eq] at hrange

/-- A method keeps the agreement, unless its rollback fails. -/
theorem Agrees.next (h : s.Agrees serde) (hnext : Next codec s s') :
    s'.Agrees serde := by
  obtain ⟨operation, faults, hne, rfl⟩ := hnext
  have hspec := @perform_spec s codec faults operation
  unfold wp at hspec
  cases hrun : perform codec faults operation s with
  | ok _ s' =>
      rw [hrun] at hspec
      exact h.performs hspec
  | error e s' =>
      rw [hrun] at hspec hne
      exact h.same hspec.1 (hspec.2 fun heq => hne (congrArg _ heq))

theorem Agrees.run (h : s.Agrees serde)
    (hrun : ReflTransGen (Next codec) s s') : s'.Agrees serde := by
  induction hrun with
  | refl => exact h
  | tail _ hnext ih => exact ih.next hnext

/-! ## Opening -/

variable {d : Directory} {opening : Opening}

theorem read_spec {α : Type} (parse : Bytes → Option α) (file : StateFile) :
    wp (read parse opening file)
      (fun value d' => d' = d ∧ (d.read file.name).bind parse = some value)
      (fun _ _ => True) d := by
  simp only [read, wp_bind, wp_mapError, wp_lift, wp_get]
  refine ⟨fun _ _ => ?_, fun _ _ => trivial⟩
  split
  · trivial
  · next bytes hbytes =>
    simp only [wp_bind, wp_ensure]
    refine ⟨fun _ => ?_, fun _ => trivial⟩
    split
    · next value hparse => exact ⟨rfl, by rw [hbytes]; exact hparse⟩
    · trivial

/-- The other state files are as they were. -/
def Beside (file : StateFile) (d d' : Directory) : Prop :=
  ∀ other, other ≠ file → d'.read other.name = d.read other.name

theorem openConfig_spec (serde : Serde) :
    wp (openConfig serde opening)
      (fun config d' => Beside .config d d' ∧
        (d'.read StateFile.config.name).bind serde.config = some config)
      (fun _ _ => True) d := by
  simp only [openConfig, wp_bind, wp_get, wp_ite]
  refine ⟨fun _ => ?_, fun _ => ?_⟩
  · refine wp_mono (read_spec serde.config .config) ?_ (fun _ _ h => h)
    rintro config d' ⟨rfl, hread⟩
    exact ⟨fun _ _ => rfl, hread⟩
  · refine wp_mono (create_spec opening.configFaults .config _) ?_
      (fun _ _ h => h)
    intro _ d' hsaved
    refine ⟨hsaved.others, ?_⟩
    rw [hsaved.read_eq]
    exact serde.config_bytes Config.default

theorem openIdentity_spec (serde : Serde) :
    wp (openIdentity serde opening)
      (fun identity d' => Beside .identity d d' ∧
        (d'.read StateFile.identity.name).bind serde.identity = some identity)
      (fun _ _ => True) d := by
  simp only [openIdentity, wp_bind, wp_get, wp_ite, wp_mapError, wp_lift]
  refine ⟨fun _ => ?_, fun _ => ⟨fun identity _ => ?_, fun _ _ => trivial⟩⟩
  · refine wp_mono (read_spec serde.identity .identity) ?_ (fun _ _ h => h)
    rintro identity d' ⟨rfl, hread⟩
    exact ⟨fun _ _ => rfl, hread⟩
  · refine wp_mono (create_spec opening.identityFaults .identity _) ?_
      (fun _ _ h => h)
    intro _ d' hsaved
    refine ⟨hsaved.others, ?_⟩
    rw [hsaved.read_eq]
    exact serde.identity_bytes identity

theorem read_eq_none {name : String} (h : d.entry name = none) :
    d.read name = none := by
  simp [Directory.read, h]

theorem openHosts_spec (serde : Serde) :
    wp (openHosts serde opening)
      (fun hosts d' => d' = d ∧
        (d.read StateFile.hosts.name).elim (some []) serde.hosts = some hosts)
      (fun _ _ => True) d := by
  simp only [openHosts, wp_bind, wp_get, wp_ite, wp_pure]
  refine ⟨fun _ => ?_, fun hnone => ⟨trivial, ?_⟩⟩
  · refine wp_mono (read_spec serde.hosts .hosts) ?_ (fun _ _ h => h)
    rintro hosts d' ⟨rfl, hread⟩
    refine ⟨rfl, ?_⟩
    cases hbytes : d'.read StateFile.hosts.name with
    | none => simp [hbytes] at hread
    | some bytes => simpa [hbytes] using hread
  · rw [read_eq_none (not_not.mp hnone)]
    rfl

theorem checkHosts_spec (codec : KeyCodec) (hosts : List Host) :
    wp (hosts.forM (checkHost codec)) (fun _ d' => d' = d) (fun _ _ => True)
      d := by
  refine @wp_forM StoreError Directory Host (checkHost codec)
    (fun _ d' => d' = d) (fun _ _ => True) ?_ hosts d rfl
  rintro host rest d' rfl
  simp only [checkHost, wp_bind, wp_mapError, wp_lift, wp_ensure]
  exact ⟨fun _ _ => ⟨fun _ => trivial, fun _ => trivial⟩, fun _ _ => trivial⟩

/-- An opened store agrees with its directory. -/
theorem open_agrees (serde : Serde) (codec : KeyCodec) :
    wp (openStore serde codec opening)
      (fun store d' => Agrees serde ⟨store, d'⟩) (fun _ _ => True) d := by
  simp only [openStore, wp_bind, wp_mapError, wp_lift]
  refine ⟨fun _ _ => ?_, fun _ _ => trivial⟩
  refine wp_mono (openConfig_spec serde) ?_ (fun _ _ h => h)
  rintro config d₁ ⟨-, hconfig⟩
  simp only [wp_bind, wp_mapError, wp_lift]
  refine ⟨fun _ _ => ?_, fun _ _ => trivial⟩
  refine wp_mono (openIdentity_spec serde) ?_ (fun _ _ h => h)
  rintro identity d₂ ⟨hbeside, hidentity⟩
  rw [wp_bind]
  refine wp_mono (openHosts_spec serde) ?_ (fun _ _ h => h)
  rintro hosts d₃ ⟨rfl, hhosts⟩
  simp only [wp_bind, wp_ensure]
  refine ⟨fun _ => ?_, fun _ => trivial⟩
  refine wp_mono (checkHosts_spec codec hosts) ?_ (fun _ _ h => h)
  rintro _ d₄ rfl
  exact ⟨by rw [hbeside .config (by decide)]; exact hconfig, hidentity, hhosts⟩

/-! ## A store in an empty directory -/

/-- A random name of each kind. -/
def quietFaults : Faults :=
  .quiet [0xA3, 0x10, 0x7F, 0x52, 0x09, 0xEE, 0x41, 0xC8]
    [0x5B, 0xD6, 0x02, 0x93, 0x77, 0x1C, 0xF0, 0x2E]

def quietOpening : Opening :=
  .quiet quietFaults ⟨"key", "certificate", "altdb-00112233445566778899aabbccddeeff"⟩

/-- The store that is opened in an empty directory, when nothing fails. -/
def created (codec : KeyCodec) : StateDirectory :=
  match openStore Serde.canonical codec quietOpening Directory.empty with
  | .ok store files => ⟨store, files⟩
  | .error _ files => ⟨⟨Config.default, ⟨"", "", ""⟩, [], []⟩, files⟩

theorem created_eq (codec : KeyCodec) :
    openStore Serde.canonical codec quietOpening Directory.empty =
      .ok (created codec).store (created codec).files := by
  have hok : (outcome (openStore Serde.canonical codec quietOpening
      Directory.empty)).isOk = true := rfl
  unfold created
  cases hrun : openStore Serde.canonical codec quietOpening Directory.empty with
  | ok store files => rfl
  | error e files => simp [hrun, Except.isOk, Except.toBool] at hok

/-! ## Replacement -/

/-- What a call of `atomic` shows of its file: at every moment the old or the
new content, and at the end the new content or, but for a failed rollback, the
old one. -/
structure Atomic (file : StateFile) (value : Bytes) (d : Directory)
    (result : EStateM.Result SaveError Disk Unit) : Prop where
  shown : ∀ seen ∈ (final result).seen,
    seen.read file.name = d.read file.name ∨
      seen.read file.name = some (value ++ [10])
  present : d.read file.name ≠ none →
    ∀ seen ∈ (final result).seen, seen.read file.name ≠ none
  replaced : outcome result = .ok () →
    (final result).now.read file.name = some (value ++ [10])
  kept : ∀ e, outcome result = .error e → e ≠ .rollback →
    (final result).now.read file.name = d.read file.name

theorem atomic_atomic (faults : Faults) (file : StateFile) (value : Bytes)
    (d : Directory) :
    Atomic file value d (StateFile.atomic faults file value (Disk.of d)) := by
  have hspec := @StateFile.atomic_spec value faults file d
  have hpresent {s : Disk}
      (h : ∀ seen ∈ s.seen, seen.read file.name = d.read file.name ∨
        seen.read file.name = some (value ++ [10]))
      (hne : d.read file.name ≠ none) :
      ∀ seen ∈ s.seen, seen.read file.name ≠ none := by
    intro seen hseen
    rcases h seen hseen with hold | hnew
    · rwa [hold]
    · simp [hnew]
  cases hrun : StateFile.atomic faults file value (Disk.of d) with
  | ok _ disk =>
      obtain ⟨hreplaced, hsound⟩ := wp_of_ok hspec hrun
      exact ⟨hsound, hpresent hsound, fun _ => hreplaced.read, by simp⟩
  | error e disk =>
      have hfailed := wp_of_error hspec hrun
      have hsound : StateFile.Sound d file.name (value ++ [10]) disk := by
        unfold StateFile.Failed at hfailed
        split at hfailed
        · exact hfailed.2
        · exact hfailed.2
      refine ⟨hsound, hpresent hsound, by simp, ?_⟩
      intro reason hreason hne
      obtain rfl : e = reason := by simpa using hreason
      rw [StateFile.Failed, if_neg hne] at hfailed
      exact hfailed.1.read

/-- What a method leaves of the agreement between memory and files. -/
structure Committed (serde : Serde) (codec : KeyCodec) (operation : Operation)
    (s : StateDirectory)
    (result : EStateM.Result StoreError StateDirectory Unit) : Prop where
  agrees : (final result).Agrees serde
  done : outcome result = .ok () →
    Store.perform codec (.ok ()) operation s.store =
        .ok () (final result).store ∧
      Commits s (final result)
  undone : outcome result ≠ .ok () →
    (final result).store = s.store ∧ Same s.files (final result).files

theorem Agrees.committed (h : s.Agrees serde) (faults : Faults)
    (operation : Operation)
    (hne : outcome (perform codec faults operation s) ≠
      .error (.save .rollback)) :
    Committed serde codec operation s (perform codec faults operation s) := by
  have hspec := @perform_spec s codec faults operation
  refine ⟨h.next ⟨operation, faults, hne, rfl⟩, ?_, ?_⟩
  · intro hok
    cases hrun : perform codec faults operation s with
    | ok _ s' =>
        have hdone := wp_of_ok hspec hrun
        exact ⟨hdone.memory, hdone.commits⟩
    | error e s' => simp [hrun] at hok
  · intro hnot
    cases hrun : perform codec faults operation s with
    | ok _ s' => exact absurd (by rw [hrun]; rfl) hnot
    | error e s' =>
        obtain ⟨hstore, hsame⟩ := wp_of_error hspec hrun
        rw [hrun] at hne
        exact ⟨hstore, hsame fun heq => hne (congrArg _ heq)⟩

/-- Every replacement is atomic, and in every run of an opened store without a
failed rollback each method commits to memory and to its file, or to neither. -/
theorem memory_matches_files (serde : Serde) (codec : KeyCodec) :
    (∀ faults file value d,
      Atomic file value d (StateFile.atomic faults file value (Disk.of d))) ∧
    ∀ opening d store files,
      openStore serde codec opening d = .ok store files →
      ∀ s, ReflTransGen (Next codec) ⟨store, files⟩ s →
        s.Agrees serde ∧ ∀ operation faults,
          outcome (perform codec faults operation s) ≠
              .error (.save .rollback) →
            Committed serde codec operation s
              (perform codec faults operation s) := by
  refine ⟨atomic_atomic, ?_⟩
  intro opening d store files hopen s hrun
  have hopened := wp_of_ok (@open_agrees d opening serde codec) hopen
  have hagrees := Agrees.run hopened hrun
  exact ⟨hagrees, fun operation faults hne =>
    hagrees.committed faults operation hne⟩

theorem pair_first {faults : Faults} {key fp name : String} {now : UInt64}
    (hkey : hostKey codec key = .ok (fp, name)) (hnone : s.store.hosts = [])
    (hsave : save faults .hosts (hostsBytes [newHost key fp name now.toNat]) s = .ok () s') :
    perform codec faults (.pair now key) s =
      .ok () { s' with store := s'.store.withHosts [newHost key fp name now.toNat] } := by
  have hrun : pair codec faults now key s =
      .ok fp { s' with store := s'.store.withHosts [newHost key fp name now.toNat] } := by
    apply eq_ok_of_wp
    simp only [pair, check, wp_bind, wp_mapError, wp_lift, wp_get, wp_ite, wp_ensure, hkey, hnone]
    refine ⟨?_, fun _ h => by cases h⟩
    rintro ⟨fp', name'⟩ h
    cases h
    refine ⟨fun _ => ⟨fun _ => ?_, fun hfull => absurd (by decide) hfull⟩,
      fun hold => absurd (by simp) hold⟩
    change wp (save faults .hosts (hostsBytes [newHost key fp name now.toNat])) _ _ s
    rw [wp, hsave]
    exact ⟨rfl, rfl⟩
  apply eq_ok_of_wp
  rw [perform, wp_bind, wp, hrun]
  exact ⟨rfl, rfl⟩

/-- One pairing. -/
def samplePairing : Operation := .pair 1700000000 sampleText

def sampleHost : Host :=
  newHost sampleText (hex sampleHash.val) (displayName none)
    (1700000000 : UInt64).toNat

/-- The files with one host. -/
def sampleSaved : StateDirectory :=
  final (save quietFaults .hosts (hostsBytes [sampleHost]) (created (androidCodec sampleDigest)))

/-- The store with one host. -/
def sampleStore : StateDirectory :=
  { sampleSaved with store := sampleSaved.store.withHosts [sampleHost] }

theorem sampleStore_next : Next (androidCodec sampleDigest) (created (androidCodec sampleDigest))
    sampleStore := by
  have hsave : save quietFaults .hosts (hostsBytes [sampleHost])
      (created (androidCodec sampleDigest)) = .ok () sampleSaved := by
    apply eq_ok_of_outcome
    decide +kernel
  have hpair := pair_first hostKey_sample (show (created (androidCodec sampleDigest)).store.hosts =
    [] from rfl) hsave
  exact ⟨samplePairing, quietFaults, by rw [samplePairing, hpair]; simp,
    by rw [samplePairing, hpair, final_ok]; rfl⟩

/-- The new name of the file is not made durable, and the old file is put back. -/
def undoneFaults : Faults := { quietFaults with syncRename := some "input/output error" }

theorem memory_matches_files_undone :
    ∃ s, Next (androidCodec sampleDigest) (created (androidCodec sampleDigest)) s ∧
      s.store.hosts = [sampleHost] ∧
      outcome (perform (androidCodec sampleDigest) undoneFaults
        (.revoke sampleHost.fingerprint) s) = .error (.save (.io (.failed "input/output error"))) ∧
      s.Agrees Serde.canonical ∧
      Committed Serde.canonical (androidCodec sampleDigest) (.revoke sampleHost.fingerprint) s
        (perform (androidCodec sampleDigest) undoneFaults (.revoke sampleHost.fingerprint) s) := by
  have hfailed : outcome (perform (androidCodec sampleDigest) undoneFaults
      (.revoke sampleHost.fingerprint) sampleStore) =
        .error (.save (.io (.failed "input/output error"))) := by
    decide +kernel
  have hstore := (memory_matches_files Serde.canonical
    (androidCodec sampleDigest)).2 quietOpening Directory.empty _ _
    (created_eq _) sampleStore (.single sampleStore_next)
  exact ⟨sampleStore, sampleStore_next, rfl, hfailed, hstore.1,
    hstore.2 _ _ (by rw [hfailed]; simp)⟩

end StateDirectory

end Altdb
