import Altdb.HostKeys

/-!
# What the methods of the store keep

Whatever keys, names and settings the methods are given and whatever saves
fail, the paired hosts have different fingerprints, there are at most
`maxHosts` of them, each stored key has the stored fingerprint, and the fixed
port is not privileged.
-/

namespace Altdb

open Fallible Relation

/-- The times are `u64`. -/
structure Host.InRange (host : Host) : Prop where
  paired : host.pairedAt < 2 ^ 64
  connected : ∀ time ∈ host.lastConnected, time < 2 ^ 64

/-- A call of a method that changes the store. -/
inductive Operation where
  | configure (config : Config)
  | pair (now : UInt64) (key : String)
  | revoke (fp : String)
  | connected (now : UInt64) (fp : String)
  deriving DecidableEq, Repr

namespace Store

/-- What holds of the store between two calls. -/
structure Sound (digest : Bytes → Option Digest) (store : Store) : Prop where
  fingerprints : (store.hosts.map Host.fingerprint).Nodup
  length_le : store.hosts.length ≤ maxHosts
  wellFormed : ∀ host ∈ store.hosts, host.WellFormed digest
  inRange : ∀ host ∈ store.hosts, host.InRange
  port : store.config.validate = .ok ()

/-- A call, with the outcome of its file operations. -/
def perform (codec : KeyCodec) (saved : Except String Unit) :
    Operation → EStateM String Store Unit
  | .configure config => configure saved config
  | .pair now key => do
      let _ ← pair codec saved now.toNat key
  | .revoke fp => revoke saved fp
  | .connected now fp => connected saved now.toNat fp

variable {digest : Bytes → Option Digest} {saved : Except String Unit}
  {store store' : Store}

/-- The hosts after a successful pairing. -/
structure Pairing (codec : KeyCodec) (now : ℕ) (key fp : String)
    (hosts hosts' : List Host) : Prop where
  accepted : ∃ name, hostKey codec key = .ok (fp, name) ∧
    ((∃ host ∈ hosts, host.fingerprint = fp) ∧ hosts' = hosts ∨
      (∀ host ∈ hosts, host.fingerprint ≠ fp) ∧ hosts.length < maxHosts ∧
        hosts' = hosts ++ [newHost key fp name now])

theorem pair_hosts (codec : KeyCodec) (now : ℕ) (key : String) :
    wp (pair codec saved now key)
      (fun fp store' => saved = .ok () ∧ ∃ hosts,
        Pairing codec now key fp store.hosts hosts ∧
          store' = store.withHosts hosts)
      (fun _ store' => store' = store) store := by
  simp only [pair, wp_bind, wp_lift]
  refine ⟨?_, fun _ _ => trivial⟩
  rintro ⟨fp, name⟩ hkey
  simp only [atomic, wp_bind, wp_get, wp_ite, wp_ensure, wp_lift, wp_modify,
    wp_pure]
  refine ⟨fun hnew => ⟨fun hroom => ⟨fun _ hsaved => ?_, fun _ _ => trivial⟩,
    fun _ => trivial⟩, fun hold => ⟨fun _ hsaved => ?_, fun _ _ => trivial⟩⟩
  · refine ⟨hsaved, _, ⟨name, hkey, .inr ⟨?_, hroom, rfl⟩⟩, rfl⟩
    exact fun host hmem heq => hnew ⟨host, hmem, heq⟩
  · exact ⟨hsaved, _, ⟨name, hkey, .inl ⟨not_not.mp hold, rfl⟩⟩, rfl⟩

/-- The first host of a store. -/
theorem pair_first {codec : KeyCodec} {key fp name : String}
    (hkey : hostKey codec key = .ok (fp, name)) (hnone : store.hosts = []) (now : ℕ) :
    pair codec (.ok ()) now key store =
      .ok fp (store.withHosts [newHost key fp name now]) := by
  apply eq_ok_of_wp
  simp only [pair, atomic, wp_bind, wp_lift, wp_get, wp_ite, wp_ensure, wp_modify, hkey, hnone,
    wp_pure]
  simp
  exact ⟨fun _ => rfl, by decide⟩

/-! ## Each method -/

/-- What holds of the old hosts and of the new one holds of all hosts. -/
theorem Pairing.forall {codec : KeyCodec} {now : ℕ} {key fp : String}
    {hosts hosts' : List Host} (h : Pairing codec now key fp hosts hosts')
    {P : Host → Prop} (hold : ∀ host ∈ hosts, P host)
    (hnew : ∀ name, hostKey codec key = .ok (fp, name) →
      P (newHost key fp name now)) : ∀ host ∈ hosts', P host := by
  obtain ⟨name, hkey, ⟨-, rfl⟩ | ⟨-, -, rfl⟩⟩ := h.accepted
  · exact hold
  · intro host hmem
    rcases List.mem_append.mp hmem with hfirst | hlast
    · exact hold host hfirst
    · rw [List.mem_singleton.mp hlast]
      exact hnew name hkey

theorem Pairing.inRange {codec : KeyCodec} {now : ℕ} (hnow : now < 2 ^ 64)
    {key fp : String} {hosts hosts' : List Host}
    (h : Pairing codec now key fp hosts hosts')
    (hrange : ∀ host ∈ hosts, host.InRange) : ∀ host ∈ hosts', host.InRange :=
  h.forall hrange fun _ _ => ⟨hnow, by simp [newHost]⟩

theorem Sound.withConfig (h : store.Sound digest) {config : Config}
    (hvalid : config.validate = .ok ()) :
    (store.withConfig config).Sound digest :=
  { h with port := hvalid }

theorem Sound.pairing (h : store.Sound digest) {now : ℕ} (hnow : now < 2 ^ 64)
    {key fp : String} {hosts : List Host}
    (hpair : Pairing (androidCodec digest) now key fp store.hosts hosts) :
    (store.withHosts hosts).Sound digest := by
  have hwell := hpair.forall h.wellFormed fun name hkey =>
    newHost_wellFormed hkey now
  have hrange := hpair.inRange hnow h.inRange
  obtain ⟨name, hkey, ⟨-, rfl⟩ | ⟨hnew, hroom, rfl⟩⟩ := hpair.accepted
  · exact ⟨h.fingerprints, h.length_le, hwell, hrange, h.port⟩
  · refine ⟨?_, ?_, hwell, hrange, h.port⟩
    · rw [withHosts_hosts, List.map_append, List.nodup_append]
      refine ⟨h.fingerprints, by simp, ?_⟩
      intro a ha b hb
      obtain ⟨host, hmem, rfl⟩ := List.mem_map.mp ha
      obtain rfl : b = fp := by simpa [newHost] using hb
      exact hnew host hmem
    · rw [withHosts_hosts, List.length_append, List.length_singleton]
      exact hroom

theorem Sound.without (h : store.Sound digest) (fp : String) :
    (store.withHosts (store.without fp)).Sound digest where
  fingerprints := h.fingerprints.sublist (List.filter_sublist.map _)
  length_le := (List.length_filter_le _ _).trans h.length_le
  wellFormed host hmem := h.wellFormed host (List.mem_of_mem_filter hmem)
  inRange host hmem := h.inRange host (List.mem_of_mem_filter hmem)
  port := h.port

/-- A host of the list, but for the time of its connection. -/
theorem mem_markConnected {now : ℕ} {fp : String} {hosts : List Host}
    {host : Host} (h : host ∈ markConnected now fp hosts) :
    host ∈ hosts ∨ ∃ old ∈ hosts, host = { old with lastConnected := some now } := by
  induction hosts with
  | nil => simp [markConnected] at h
  | cons first rest ih =>
      simp only [markConnected] at h
      split at h
      · rcases List.mem_cons.mp h with rfl | hrest
        · exact .inr ⟨first, by simp, rfl⟩
        · exact .inl (List.mem_cons_of_mem _ hrest)
      · rcases List.mem_cons.mp h with rfl | hrest
        · exact .inl (by simp)
        · rcases ih hrest with hold | ⟨old, hold, rfl⟩
          · exact .inl (List.mem_cons_of_mem _ hold)
          · exact .inr ⟨old, List.mem_cons_of_mem _ hold, rfl⟩

theorem markConnected_inRange {now : ℕ} (hnow : now < 2 ^ 64) (fp : String)
    {hosts : List Host} (hrange : ∀ host ∈ hosts, host.InRange) :
    ∀ host ∈ Store.markConnected now fp hosts, host.InRange := by
  intro host hmem
  rcases mem_markConnected hmem with hold | ⟨old, hold, rfl⟩
  · exact hrange host hold
  · exact ⟨(hrange old hold).paired, by simpa using hnow⟩

theorem Sound.markConnected (h : store.Sound digest) {now : ℕ}
    (hnow : now < 2 ^ 64) (fp : String) :
    (store.withHosts (markConnected now fp store.hosts)).Sound digest where
  fingerprints := by
    rw [withHosts_hosts, markConnected_fingerprints]
    exact h.fingerprints
  length_le := by
    rw [withHosts_hosts, ← List.length_map (f := Host.fingerprint),
      markConnected_fingerprints, List.length_map]
    exact h.length_le
  wellFormed host hmem := by
    rcases mem_markConnected hmem with hold | ⟨old, hold, rfl⟩
    · exact h.wellFormed host hold
    · have hwell := h.wellFormed old hold
      exact ⟨hwell.key_eq, hwell.key_length, hwell.key_symbols,
        hwell.fingerprint_eq, hwell.name_length, hwell.name_plain⟩
  inRange := markConnected_inRange hnow fp h.inRange
  port := h.port

/-- A call keeps the invariant, whatever its outcome. -/
theorem perform_sound (h : store.Sound digest) (operation : Operation) :
    wp (perform (androidCodec digest) saved operation)
      (fun _ store' => store'.Sound digest)
      (fun _ store' => store'.Sound digest) store := by
  cases operation with
  | configure config =>
      refine wp_mono (configure_spec config) ?_ ?_
      · rintro _ store' ⟨hvalid, -, rfl⟩
        exact h.withConfig hvalid
      · rintro _ store' ⟨-, rfl⟩
        exact h
  | pair now key =>
      simp only [perform, wp_bind]
      refine wp_mono (pair_hosts (androidCodec digest) now.toNat key) ?_ ?_
      · rintro fp store' ⟨-, hosts, hpair, rfl⟩
        exact h.pairing now.toNat_lt hpair
      · rintro _ store' rfl
        exact h
  | revoke fp =>
      refine wp_mono (revoke_spec fp) ?_ ?_
      · rintro _ store' ⟨-, rfl⟩
        exact h.without fp
      · rintro _ store' ⟨-, rfl⟩
        exact h
  | connected now fp =>
      refine wp_mono (connected_spec now.toNat fp) ?_ ?_
      · rintro _ store' ⟨-, -, rfl⟩
        exact h.markConnected now.toNat_lt fp
      · rintro _ store' rfl
        exact h

/-! ## Runs -/

/-- The store after one call. -/
def Next (codec : KeyCodec) (store store' : Store) : Prop :=
  ∃ saved operation, final (perform codec saved operation store) = store'

theorem next_first {codec : KeyCodec} {key fp name : String}
    (hkey : hostKey codec key = .ok (fp, name)) (hnone : store.hosts = []) (now : UInt64) :
    Next codec store (store.withHosts [newHost key fp name now.toNat]) := by
  have hperform : perform codec (.ok ()) (.pair now key) store =
      .ok () (store.withHosts [newHost key fp name now.toNat]) := by
    apply eq_ok_of_wp
    rw [perform, wp_bind, wp, pair_first hkey hnone]
    exact ⟨rfl, rfl⟩
  exact ⟨.ok (), .pair now key, by rw [hperform, final_ok]⟩

/-- A store without hosts and with the default settings. -/
structure Fresh (store : Store) : Prop where
  config_eq : store.config = Config.default
  hosts_eq : store.hosts = []

theorem Fresh.sound (h : store.Fresh) (digest : Bytes → Option Digest) :
    store.Sound digest where
  fingerprints := by simp [h.hosts_eq]
  length_le := by simp [h.hosts_eq]
  wellFormed := by simp [h.hosts_eq]
  inRange := by simp [h.hosts_eq]
  port := by
    rw [h.config_eq]
    exact Config.default_valid

/-- The invariant holds after any number of calls. -/
theorem Sound.run (h : store.Sound digest)
    (hrun : ReflTransGen (Next (androidCodec digest)) store store') :
    store'.Sound digest := by
  induction hrun with
  | refl => exact h
  | tail _ hstep ih =>
      obtain ⟨saved, operation, rfl⟩ := hstep
      exact wp_final (perform_sound ih operation)

end Store

end Altdb
