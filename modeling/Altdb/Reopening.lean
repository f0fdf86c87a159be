import Altdb.StateSize
import Altdb.StoreCommit

/-!
# Opening a directory again

The files of a directory that was empty at first hold what the store wrote,
and each passes the checks of `Store::open`: the settings are valid, every file
is within the limit of its reader, and each stored key has the stored
fingerprint.
-/

namespace Altdb

open Fallible Files JsonText Relation

namespace StateDirectory

/-- Every file was written by the store. -/
structure Written (s : StateDirectory) : Prop where
  config : s.files.read StateFile.config.name =
    some (s.store.config.bytes ++ [10])
  identity : s.files.read StateFile.identity.name =
    some (s.store.identity.bytes ++ [10])
  hosts : s.files.read StateFile.hosts.name = none ∧ s.store.hosts = [] ∨
    s.files.read StateFile.hosts.name = some (hostsBytes s.store.hosts ++ [10])

variable {serde : Serde} {codec : KeyCodec} {digest : Bytes → Option Digest}
  {s s' : StateDirectory} {d : Directory} {opening : Opening}

/-! ## Methods -/

theorem Written.same (h : s.Written) (hstore : s'.store = s.store)
    (hsame : Same s.files s'.files) : s'.Written where
  config := by rw [hsame .config, hstore]; exact h.config
  identity := by rw [hsame .identity, hstore]; exact h.identity
  hosts := by rw [hsame .hosts, hstore]; exact h.hosts

theorem Written.commits (h : s.Written) (hcommits : Commits s s') :
    s'.Written := by
  rcases hcommits with ⟨config, hsaved⟩ | ⟨hosts, hsaved⟩
  · refine ⟨?_, ?_, ?_⟩
    · rw [hsaved.saved.read_eq, hsaved.store_eq]
      rfl
    · rw [hsaved.saved.others .identity (by decide), hsaved.store_eq]
      exact h.identity
    · rw [hsaved.saved.others .hosts (by decide), hsaved.store_eq]
      exact h.hosts
  · refine ⟨?_, ?_, ?_⟩
    · rw [hsaved.saved.others .config (by decide), hsaved.store_eq]
      exact h.config
    · rw [hsaved.saved.others .identity (by decide), hsaved.store_eq]
      exact h.identity
    · rw [hsaved.saved.read_eq, hsaved.store_eq]
      exact .inr rfl

theorem Commits.identity_eq (h : Commits s s') :
    s'.store.identity = s.store.identity := by
  rcases h with ⟨config, hsaved⟩ | ⟨hosts, hsaved⟩
  · rw [hsaved.store_eq]
    rfl
  · rw [hsaved.store_eq]
    rfl

/-- What every run of the methods keeps. -/
structure Kept (digest : Bytes → Option Digest) (identity : Identity)
    (s : StateDirectory) : Prop where
  written : s.Written
  sound : s.store.Sound digest
  identity_eq : s.store.identity = identity

theorem Kept.next {identity : Identity} (h : s.Kept digest identity)
    (hnext : Next (androidCodec digest) s s') : s'.Kept digest identity := by
  obtain ⟨operation, faults, hne, rfl⟩ := hnext
  have hspec := @perform_spec s (androidCodec digest) faults operation
  cases hrun : perform (androidCodec digest) faults operation s with
  | ok _ s' =>
      have hdone := wp_of_ok hspec hrun
      have hsound := wp_of_ok
        (@Store.perform_sound digest (.ok ()) s.store h.sound operation)
        hdone.memory
      refine ⟨h.written.commits hdone.commits, hsound, ?_⟩
      · rw [final_ok, hdone.commits.identity_eq, h.identity_eq]
  | error e s' =>
      obtain ⟨hstore, hsame⟩ := wp_of_error hspec hrun
      rw [hrun] at hne
      refine ⟨h.written.same hstore (hsame fun heq => hne (congrArg _ heq)), ?_, ?_⟩
      · rw [final_error, hstore]
        exact h.sound
      · rw [final_error, hstore, h.identity_eq]

theorem Kept.run {identity : Identity} (h : s.Kept digest identity)
    (hrun : ReflTransGen (Next (androidCodec digest)) s s') :
    s'.Kept digest identity := by
  induction hrun with
  | refl => exact h
  | tail _ hnext ih => exact ih.next hnext

/-! ## The first opening -/

theorem openConfig_new (serde : Serde)
    (hnone : d.entry StateFile.config.name = none) :
    wp (openConfig serde opening)
      (fun config d' => config = Config.default ∧
        Saved .config config.bytes d d') (fun _ _ => True) d := by
  simp only [openConfig, wp_bind, wp_get, hnone, ne_eq, not_true_eq_false,
    if_false]
  exact wp_mono (create_spec opening.configFaults .config _)
    (fun _ _ hsaved => ⟨rfl, hsaved⟩) (fun _ _ h => h)

theorem openIdentity_new (serde : Serde)
    (hnone : d.entry StateFile.identity.name = none) :
    wp (openIdentity serde opening)
      (fun identity d' => Saved .identity identity.bytes d d')
      (fun _ _ => True) d := by
  simp only [openIdentity, wp_bind, wp_get, hnone, ne_eq, not_true_eq_false,
    if_false, wp_mapError, wp_lift]
  refine ⟨fun identity _ => ?_, fun _ _ => trivial⟩
  exact create_spec opening.identityFaults .identity identity.bytes

theorem entry_eq_none {name : String} (h : d.read name = none) :
    d.entry name = none := by
  simpa [Directory.read] using h

theorem openHosts_new (serde : Serde)
    (hnone : d.entry StateFile.hosts.name = none) :
    wp (openHosts serde opening) (fun hosts d' => hosts = [] ∧ d' = d)
      (fun _ _ => True) d := by
  simp only [openHosts, wp_bind, wp_get, hnone, ne_eq, not_true_eq_false,
    if_false]
  exact ⟨rfl, rfl⟩

/-- A store that is opened in an empty directory. -/
theorem open_empty (serde : Serde) (digest : Bytes → Option Digest) :
    wp (openStore serde (androidCodec digest) opening)
      (fun store d' => Kept digest store.identity ⟨store, d'⟩)
      (fun _ _ => True) Directory.empty := by
  simp only [openStore, wp_bind, wp_mapError, wp_lift]
  refine ⟨fun _ _ => ?_, fun _ _ => trivial⟩
  refine wp_mono (openConfig_new serde rfl) ?_ (fun _ _ h => h)
  rintro config d₁ ⟨rfl, hconfig⟩
  simp only [wp_bind, wp_mapError, wp_lift]
  refine ⟨fun _ _ => ?_, fun _ _ => trivial⟩
  have hidentity₁ : d₁.read StateFile.identity.name = none :=
    hconfig.others .identity (by decide)
  have hhosts₁ : d₁.read StateFile.hosts.name = none :=
    hconfig.others .hosts (by decide)
  refine wp_mono (openIdentity_new serde (entry_eq_none hidentity₁)) ?_
    (fun _ _ h => h)
  intro identity d₂ hidentity
  have hhosts₂ : d₂.read StateFile.hosts.name = none := by
    rw [hidentity.others .hosts (by decide), hhosts₁]
  rw [wp_bind]
  refine wp_mono (openHosts_new serde (entry_eq_none hhosts₂)) ?_
    (fun _ _ h => h)
  rintro hosts d₃ ⟨rfl, rfl⟩
  simp only [wp_bind, wp_ensure]
  refine ⟨fun _ => ?_, fun _ => trivial⟩
  refine ⟨⟨?_, hidentity.read_eq, .inl ⟨hhosts₂, rfl⟩⟩,
    Store.Fresh.sound ⟨rfl, rfl⟩ digest, rfl⟩
  rw [hidentity.others .config (by decide), hconfig.read_eq]

/-! ## The second opening -/

theorem read_written {α : Type} {parse : Bytes → Option α} {file : StateFile}
    {bytes : Bytes} {value : α} (hclean : opening.Clean)
    (hread : d.read file.name = some bytes)
    (hsize : bytes.length ≤ 1024 * 1024) (hparse : parse bytes = some value) :
    wp (read parse opening file) (fun v d' => v = value ∧ d' = d)
      (fun _ _ => False) d := by
  simp only [read, wp_bind, wp_mapError, wp_lift, wp_get, hclean.opened file,
    hread]
  simp [hsize, hparse]

theorem entry_ne_none {name : String} {bytes : Bytes}
    (h : d.read name = some bytes) : d.entry name ≠ none := by
  intro hnone
  rw [read_eq_none hnone] at h
  cases h

theorem size_config (config : Config) : config.bytes.length ≤ 200 := by
  have hport := @Codec.size_nat config.fixedPort.toNat 5 (by decide)
    (config.fixedPort.toNat_lt.trans (by decide))
  have hbool (b : Bool) : size (Codec.bool.write b) ≤ 5 := by
    cases b <;> decide
  have henabled := hbool config.enabled
  have hadb := hbool config.allowAdbRoot
  have hshell := hbool config.allowShellRoot
  have hmode : size (PortMode.codec.write config.portMode) ≤ 8 := by
    cases config.portMode <;> decide
  have hfixed : size (opening "enabled") + size (comma "port_mode") +
      size (comma "fixed_port") + size (comma "allow_adb_root") +
      size (comma "allow_shell_root") + size ['}'] ≤ 100 := by decide
  rw [Config.bytes, length_toBytes]
  change size (opening "enabled" ++
    (Codec.bool.write config.enabled ++ comma "port_mode" ++
      (PortMode.codec.write config.portMode ++ comma "fixed_port" ++
        (Codec.nat.write config.fixedPort.toNat ++ comma "allow_adb_root" ++
          (Codec.bool.write config.allowAdbRoot ++ comma "allow_shell_root" ++
            Codec.bool.write config.allowShellRoot))) ++ ['}'])) ≤ 200
  simp only [size_append]
  omega

theorem openConfig_written (serde : Serde) (h : s.Written)
    (hclean : opening.Clean) :
    wp (openConfig serde opening)
      (fun config d' => config = s.store.config ∧ d' = s.files)
      (fun _ _ => False) s.files := by
  have hsize := size_config s.store.config
  simp only [openConfig, wp_bind, wp_get, wp_ite]
  refine ⟨fun _ => ?_, fun hnone => absurd (entry_ne_none h.config) hnone⟩
  refine read_written hclean h.config ?_ (serde.config_bytes s.store.config)
  rw [List.length_append, List.length_singleton]
  omega

theorem openIdentity_written (serde : Serde) (h : s.Written)
    (hsize : s.store.identity.bytes.length < 1024 * 1024)
    (hclean : opening.Clean) :
    wp (openIdentity serde opening)
      (fun identity d' => identity = s.store.identity ∧ d' = s.files)
      (fun _ _ => False) s.files := by
  simp only [openIdentity, wp_bind, wp_get, wp_ite]
  refine ⟨fun _ => ?_, fun hnone => absurd (entry_ne_none h.identity) hnone⟩
  refine read_written hclean h.identity ?_
    (serde.identity_bytes s.store.identity)
  rw [List.length_append, List.length_singleton]
  omega

theorem openHosts_written (serde : Serde) (h : s.Written)
    (hsound : s.store.Sound digest) (hclean : opening.Clean) :
    wp (openHosts serde opening)
      (fun hosts d' => hosts = s.store.hosts ∧ d' = s.files)
      (fun _ _ => False) s.files := by
  have hsize := size_hosts hsound
  simp only [openHosts, wp_bind, wp_get, wp_ite, wp_pure]
  rcases h.hosts with ⟨hread, hnil⟩ | hread
  · exact ⟨fun hne => absurd (entry_eq_none hread) hne,
      fun _ => ⟨hnil.symm, trivial⟩⟩
  · refine ⟨fun _ => ?_, fun hnone => absurd (entry_ne_none hread) hnone⟩
    refine read_written hclean hread ?_
      (serde.hosts_bytes s.store.hosts hsound.inRange)
    rw [List.length_append, List.length_singleton, hostsBytes, length_toBytes]
    omega

/-- Every stored key has the stored fingerprint. -/
theorem checkHosts_written {hosts : List Host}
    (h : ∀ host ∈ hosts, host.WellFormed digest) :
    wp (hosts.forM (checkHost (androidCodec digest))) (fun _ d' => d' = d)
      (fun _ _ => False) d := by
  refine wp_mono (@wp_forM StoreError Directory Host
    (checkHost (androidCodec digest))
    (fun rest d' => d' = d ∧ ∀ host ∈ rest, host.WellFormed digest)
    (fun _ _ => False) ?_ hosts d ⟨rfl, h⟩) (fun _ _ h => h.1) (fun _ _ h => h)
  rintro host rest d' ⟨rfl, hall⟩
  have hkey := (hall host (by simp)).key_eq
  cases hhost : hostKey (androidCodec digest) host.publicKey with
  | error e => simp [hhost, Except.map] at hkey
  | ok value =>
      have heq : value.1 = host.fingerprint := by
        simpa [hhost, Except.map] using hkey
      simp only [checkHost, hhost, wp_bind, wp_mapError, wp_lift, wp_ensure]
      refine ⟨?_, fun e he => by cases he⟩
      rintro value' hvalue
      obtain rfl : value = value' := by simpa using hvalue
      exact ⟨fun _ => ⟨trivial, fun host' hmem => hall host' (by simp [hmem])⟩,
        fun hne => hne heq⟩

theorem reopen_spec (serde : Serde) {identity : Identity}
    (h : s.Kept digest identity) (hsize : identity.bytes.length < 1024 * 1024)
    (hclean : opening.Clean) :
    wp (openStore serde (androidCodec digest) opening)
      (fun store d' => d' = s.files ∧ store.config = s.store.config ∧
        store.identity = s.store.identity ∧ store.hosts = s.store.hosts)
      (fun _ _ => False) s.files := by
  simp only [openStore, wp_bind, wp_mapError, wp_lift, hclean.locked]
  refine ⟨fun _ _ => ?_, fun e he => by cases he⟩
  refine wp_mono (openConfig_written serde h.written hclean) ?_ (fun _ _ h => h)
  rintro config d₁ ⟨rfl, rfl⟩
  simp only [wp_bind, wp_mapError, wp_lift, h.sound.port]
  refine ⟨fun _ _ => ?_, fun e he => by cases he⟩
  refine wp_mono (openIdentity_written serde h.written
    (h.identity_eq ▸ hsize) hclean) ?_ (fun _ _ h => h)
  rintro identity' d₂ ⟨rfl, rfl⟩
  rw [wp_bind]
  refine wp_mono (openHosts_written serde h.written h.sound hclean) ?_
    (fun _ _ h => h)
  rintro hosts d₃ ⟨rfl, rfl⟩
  simp only [wp_bind, wp_ensure]
  refine ⟨fun _ => ?_, fun hlong => hlong h.sound.length_le⟩
  refine wp_mono (checkHosts_written h.sound.wellFormed) ?_ (fun _ _ h => h)
  rintro _ d₄ rfl
  exact ⟨rfl, rfl, rfl, rfl⟩

/-! ## Stores of an empty directory -/

/-- What holds of a stored host. -/
structure Authentic (codec : KeyCodec) (host : Host) : Prop where
  plain : ∀ c ∈ host.publicKey.toList, isWhitespace c = false
  fingerprint_eq : (hostKey codec host.publicKey).map Prod.fst =
    .ok host.fingerprint

/-- The store opens again with the same values. -/
def Reopens (serde : Serde) (codec : KeyCodec) (s : StateDirectory) : Prop :=
  ∀ opening : Opening, opening.Clean → ∃ store,
    openStore serde codec opening s.files = .ok store s.files ∧
      store.config = s.store.config ∧ store.identity = s.store.identity ∧
      store.hosts = s.store.hosts

theorem Kept.reopens {identity : Identity} (h : s.Kept digest identity)
    (hsize : identity.bytes.length < 1024 * 1024) (serde : Serde) :
    Reopens serde (androidCodec digest) s := by
  intro opening hclean
  have hspec := @reopen_spec digest s opening serde identity h hsize hclean
  cases hrun : openStore serde (androidCodec digest) opening s.files with
  | ok store d =>
      obtain ⟨rfl, hvalues⟩ := wp_of_ok hspec hrun
      exact ⟨store, rfl, hvalues⟩
  | error e d => exact (wp_of_error hspec hrun).elim

/-- A store that was first opened in an empty directory never locks itself
out. -/
theorem hosts_survive_reopening (serde : Serde)
    (digest : Bytes → Option Digest) (opening : Opening) (store : Store)
    (files : Directory)
    (hopen : openStore serde (androidCodec digest) opening Directory.empty =
      .ok store files)
    (hsize : store.identity.bytes.length < 1024 * 1024)
    (s : StateDirectory)
    (hrun : ReflTransGen (Next (androidCodec digest)) ⟨store, files⟩ s) :
    (s.store.hosts.map Host.fingerprint).Nodup ∧
      s.store.hosts.length ≤ maxHosts ∧
      (∀ host ∈ s.store.hosts, Authentic (androidCodec digest) host) ∧
      1024 ≤ s.store.config.fixedPort.toNat ∧
      Reopens serde (androidCodec digest) s := by
  have hopened := wp_of_ok (@open_empty opening serde digest) hopen
  have hkept := hopened.run hrun
  have hsound := hkept.sound
  refine ⟨hsound.fingerprints, hsound.length_le, fun host hmem => ?_, ?_,
    hkept.reopens hsize serde⟩
  · have hwell := hsound.wellFormed host hmem
    exact ⟨fun c hc => not_isWhitespace_of_symbol (hwell.key_symbols c hc),
      hwell.key_eq⟩
  · have hport := hsound.port
    unfold Config.validate at hport
    split at hport
    · assumption
    · cases hport

theorem hosts_survive_reopening_paired :
    ∃ s, Next (androidCodec sampleDigest)
        (created (androidCodec sampleDigest)) s ∧
      s.store.hosts = [sampleHost] ∧
      Reopens Serde.canonical (androidCodec sampleDigest) s := by
  have hsurvive := hosts_survive_reopening Serde.canonical sampleDigest
    quietOpening _ _ (created_eq _) (by decide +kernel) sampleStore (.single sampleStore_next)
  exact ⟨sampleStore, sampleStore_next, rfl, hsurvive.2.2.2.2⟩

end StateDirectory

end Altdb
