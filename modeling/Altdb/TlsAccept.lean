import Altdb.Hexadecimal
import Altdb.StoreInvariant
import Altdb.TlsOutput

/-!
# Accepting a TLS connection

`Tls::accept` gives the native code the fingerprints of the allowed hosts as one
run of bytes, drives the handshake until a deadline and sends all that the
engine has produced.  The certificate callback compares the fingerprint of the
peer with each of the allowed ones.
-/

namespace Altdb

open Fallible

/-! ## The engine -/

/-- One call of `SSL_do_handshake`: the certificates for which it called back, as
their fingerprints where there are any, its result and the session after it. -/
structure HandshakeStep (σ : Type) where
  presented : List (Option Digest)
  result : ℤ
  next : σ

/-- The TLS library.  The handshake gets what the callback answers. -/
structure Engine (σ : Type) where
  handshake : (Option Digest → Bool) → σ → HandshakeStep σ
  error : σ → ℤ → ℕ
  /-- `BIO_write` -/
  feed : σ → Bytes → ℤ × σ
  /-- What successive `BIO_read` return. -/
  drain : σ → List Bytes × σ

/-- `SSL_VERIFY_PEER` and `SSL_VERIFY_FAIL_IF_NO_PEER_CERT`: a complete handshake
has verified the certificate for which the callback was called last. -/
structure Engine.Verifies {σ : Type} (engine : Engine σ) (verified : σ → Option Digest) :
    Prop where
  kept : ∀ verify s, (engine.handshake verify s).presented = [] →
    verified (engine.handshake verify s).next = verified s
  last : ∀ verify s cert, (engine.handshake verify s).presented.getLast? = some cert →
    verified (engine.handshake verify s).next = if verify cert then cert else none
  complete : ∀ verify s, (engine.handshake verify s).result = 1 →
    verified (engine.handshake verify s).next ≠ none
  fed : ∀ s bytes, verified (engine.feed s bytes).2 = verified s
  drained : ∀ s, verified (engine.drain s).2 = verified s

/-- `verify_peer`. -/
def verifyPeer (pairing : Bool) (allowed : Bytes) (count : ℕ) : Option Digest → Bool
  | none => false
  | some fp =>
      pairing || (List.range count).any fun i => (allowed.drop (32 * i)).take 32 == fp.val

/-- `t->peer` after the callbacks. -/
def peerAfter (peer : Bytes) (presented : List (Option Digest)) : Bytes :=
  presented.foldl (fun peer cert => cert.elim peer (·.val)) peer

namespace TlsAccept

structure State (σ : Type) where
  ssl : σ
  peer : Bytes
  wire : Wire

/-- What the socket does in one round of the loop. -/
structure Round where
  flush : List WriteOutcome
  received : Except String Bytes

/-- The answers during `Tls::accept`.  The rounds are those before the deadline. -/
structure Env (σ : Type) where
  nodelay : Except String Unit
  created : Option σ
  addCa : String → Bool
  timeouts : Except String Unit
  rounds : List Round

variable {σ : Type}

def wireText : IoError → String
  | .wouldBlock => "operation would block"
  | .other message => message

def onWire (method : EStateM IoError Wire Unit) : EStateM String (State σ) Unit := fun s =>
  match method s.wire with
  | .ok () wire => .ok () { s with wire := wire }
  | .error e wire => .error (wireText e) { s with wire := wire }

def flush (engine : Engine σ) (script : List WriteOutcome) : EStateM String (State σ) Unit := do
  let s ← get
  let (chunks, ssl) := engine.drain s.ssl
  set { s with ssl := ssl }
  onWire (Wire.flush chunks script)

def feed (engine : Engine σ) (received : Except String Bytes) :
    EStateM String (State σ) Unit := do
  let buf ← lift received
  let buf := buf.take 65536
  ensure (buf ≠ []) "TLS peer disconnected"
  let s ← get
  let (taken, ssl) := engine.feed s.ssl buf
  set { s with ssl := ssl }
  ensure (taken = buf.length) "TLS input failed"

def loop (engine : Engine σ) (verify : Option Digest → Bool) :
    List Round → EStateM String (State σ) Unit
  | [] => throw "TLS handshake timeout"
  | round :: rest => do
      let s ← get
      let step := engine.handshake verify s.ssl
      let error := if step.result = 1 then 0 else engine.error step.next step.result
      set { s with ssl := step.next, peer := peerAfter s.peer step.presented }
      flush engine round.flush
      if step.result = 1 then return ()
      match error with
      | 2 => feed engine round.received
      | 3 => pure ()
      | _ => throw "TLS handshake rejected"
      loop engine verify rest

/-- `altdb_tls_new`. -/
def tlsNew (created : Option σ) (count : ℕ) : Option σ := if 32 < count then none else created

def addCas (env : Env σ) : List String → Except String Unit
  | [] => .ok ()
  | fp :: rest => do
      if '\x00' ∈ fp.toList then throw "nul byte found in provided data"
      if env.addCa fp.toUpper then addCas env rest else throw "TLS CA list failed"

/-- `Tls::accept`. -/
def accept (engine : Engine σ) (env : Env σ) (allowed : List String) (pairing : Bool) :
    Except String (State σ) := do
  env.nodelay
  let keys ← allowedKeys allowed
  match tlsNew env.created allowed.length with
  | none => throw "TLS context creation failed"
  | some ssl =>
      addCas env allowed
      env.timeouts
      match loop engine (verifyPeer pairing keys allowed.length) env.rounds
          ⟨ssl, List.replicate 32 0, .fresh⟩ with
      | .ok () s => return s
      | .error e _ => throw e

/-- `Tls::peer`. -/
def State.fingerprint (s : State σ) : String := hex s.peer

/-! ## The callback -/

theorem slot_flatten (keys : List Digest) (i : ℕ) (hi : i < keys.length) :
    (((keys.map Subtype.val).flatten.drop (32 * i)).take 32) = keys[i].val := by
  induction keys generalizing i with
  | nil => cases hi
  | cons key rest ih =>
      rw [List.map_cons, List.flatten_cons]
      cases i with
      | zero =>
          have hlength : key.val.length = 32 := key.property
          rw [Nat.mul_zero, List.drop_zero, List.take_left' hlength]
          rfl
      | succ i =>
          have hlength : key.val.length = 32 := key.property
          rw [Nat.mul_succ, Nat.add_comm, ← List.drop_drop, List.drop_left' hlength]
          exact ih i (Nat.lt_of_succ_lt_succ hi)

/-- The callback finds a fingerprint exactly if it is one of the allowed ones. -/
theorem verifyPeer_iff (keys : List Digest) (fp : Digest) :
    verifyPeer false (keys.map Subtype.val).flatten keys.length (some fp) = true ↔ fp ∈ keys := by
  rw [verifyPeer, Bool.false_or, List.any_eq_true]
  constructor
  · intro h
    obtain ⟨i, hi, heq⟩ := h
    have hi := List.mem_range.mp hi
    rw [slot_flatten keys i hi, beq_iff_eq] at heq
    rw [← Subtype.ext heq]
    exact List.getElem_mem hi
  · intro h
    obtain ⟨i, hi, rfl⟩ := List.getElem_of_mem h
    refine ⟨i, List.mem_range.mpr hi, ?_⟩
    rw [slot_flatten keys i hi, beq_self_eq_true]

/-! ## The loop -/

variable {engine : Engine σ} {verified : σ → Option Digest} {verify : Option Digest → Bool}
  {s s' : State σ}

/-- What the handshake has verified is in `t->peer`. -/
def Known (verified : σ → Option Digest) (verify : Option Digest → Bool) (s : State σ) : Prop :=
  ∀ fp, verified s.ssl = some fp → verify (some fp) = true ∧ s.peer = fp.val

theorem peerAfter_getLast (peer : Bytes) {presented : List (Option Digest)} {fp : Digest}
    (h : presented.getLast? = some (some fp)) : peerAfter peer presented = fp.val := by
  obtain ⟨front, rfl⟩ := List.getLast?_eq_some_iff.mp h
  rw [peerAfter, List.foldl_append]
  rfl

/-- A call of the handshake keeps `t->peer` in step. -/
theorem Known.handshake (hengine : engine.Verifies verified) (h : Known verified verify s)
    (wire : Wire) :
    Known verified verify ⟨(engine.handshake verify s.ssl).next,
      peerAfter s.peer (engine.handshake verify s.ssl).presented, wire⟩ := by
  intro fp hfp
  change verified (engine.handshake verify s.ssl).next = some fp at hfp
  change _ ∧ peerAfter s.peer (engine.handshake verify s.ssl).presented = fp.val
  cases hlast : (engine.handshake verify s.ssl).presented.getLast? with
  | none =>
      have hnone := List.getLast?_eq_none_iff.mp hlast
      rw [hengine.kept verify s.ssl hnone] at hfp
      rw [hnone]
      exact h fp hfp
  | some cert =>
      rw [hengine.last verify s.ssl cert hlast] at hfp
      split_ifs at hfp with hverify
      subst hfp
      exact ⟨hverify, peerAfter_getLast s.peer hlast⟩

/-- A flush that succeeds leaves nothing to write. -/
theorem flushLoop_empty (script : List WriteOutcome) (w : Wire) :
    wp (Wire.flushLoop script) (fun _ w' => w'.tls = ⟨[], 0⟩) (fun _ _ => True) w := by
  induction script generalizing w with
  | nil =>
      simp only [Wire.flushLoop, Wire.clear, wp_bind, wp_get, wp_ite, wp_throw, wp_modify]
      exact ⟨fun _ => trivial, fun _ => trivial⟩
  | cons outcome script ih =>
      simp only [Wire.flushLoop, Wire.clear, wp_bind, wp_get, wp_ite, wp_modify]
      constructor
      · intro _
        cases outcome with
        | wouldBlock => trivial
        | failed => trivial
        | wrote n =>
            simp only [wp_ite, wp_throw, wp_bind, wp_set]
            exact ⟨fun _ => trivial, fun _ => ih _⟩
      · intro _
        trivial

theorem flush_spec (hengine : engine.Verifies verified) (script : List WriteOutcome)
    (h : Known verified verify s) :
    wp (flush engine script)
      (fun _ s' => Known verified verify s' ∧ verified s'.ssl = verified s.ssl ∧
        (s.wire.Conserved → s'.wire.Conserved ∧ s'.wire.tls = ⟨[], 0⟩))
      (fun _ _ => True) s := by
  unfold flush
  rw [wp_bind, wp_get]
  rcases hdrain : engine.drain s.ssl with ⟨chunks, ssl⟩
  have hssl : verified ssl = verified s.ssl := by
    rw [← hengine.drained s.ssl, hdrain]
  dsimp only
  rw [wp_bind, wp_set]
  unfold onWire wp
  dsimp only
  cases hflush : Wire.flush chunks script s.wire with
  | error e wire => trivial
  | ok _ wire =>
      refine ⟨fun fp hfp => h fp (hssl.symm.trans hfp), hssl, fun hwire => ⟨?_, ?_⟩⟩
      · have hkept := Wire.flush_conserved chunks script s.wire hwire
        have hconserved := wp_of_ok hkept hflush
        exact hconserved
      · have hempty : wp (Wire.flush chunks script) (fun _ w' => w'.tls = ⟨[], 0⟩)
            (fun _ _ => True) s.wire := by
          unfold Wire.flush
          rw [wp_bind]
          apply wp_intro
          · intro _ w _
            exact flushLoop_empty script w
          · intro _ _ _
            trivial
        have htls := wp_of_ok hempty hflush
        exact htls

theorem feed_spec (hengine : engine.Verifies verified) (received : Except String Bytes)
    (h : Known verified verify s) :
    wp (feed engine received) (fun _ s' => Known verified verify s' ∧ s'.wire = s.wire)
      (fun _ _ => True) s := by
  unfold feed
  rw [wp_bind, wp_lift]
  constructor
  · intro buf _
    rw [wp_bind, wp_ensure]
    constructor
    · intro _
      rw [wp_bind, wp_get]
      rcases hfeed : engine.feed s.ssl (buf.take 65536) with ⟨taken, ssl⟩
      have hssl : verified ssl = verified s.ssl := by
        rw [← hengine.fed s.ssl (buf.take 65536), hfeed]
      dsimp only
      rw [wp_bind, wp_set, wp_ensure]
      exact ⟨fun _ => ⟨fun fp hfp => h fp (hssl.symm.trans hfp), rfl⟩, fun _ => trivial⟩
    · intro _
      trivial
  · intro _ _
    trivial

/-- A handshake that is complete has verified the certificate of the peer, and all
that it produced was written. -/
theorem loop_spec (hengine : engine.Verifies verified) (rounds : List Round)
    (h : Known verified verify s) (hwire : s.wire.Conserved) :
    wp (loop engine verify rounds)
      (fun _ s' => (∃ fp : Digest, verify (some fp) = true ∧ s'.peer = fp.val) ∧
        s'.wire.Conserved ∧ s'.wire.tls = ⟨[], 0⟩)
      (fun _ _ => True) s := by
  induction rounds generalizing s with
  | nil => trivial
  | cons round rest ih =>
      unfold loop
      rw [wp_bind, wp_get]
      dsimp only
      rw [wp_bind, wp_set, wp_bind]
      apply wp_mono (flush_spec hengine round.flush (h.handshake hengine s.wire))
      · intro _ s₁ h₁
        obtain ⟨hknown, hverified, hflushed⟩ := h₁
        obtain ⟨hconserved, hempty⟩ := hflushed hwire
        rw [wp_ite]
        constructor
        · intro hresult
          rw [wp_pure]
          refine ⟨?_, hconserved, hempty⟩
          cases hfp : verified s₁.ssl with
          | none => exact absurd (hverified.symm.trans hfp) (hengine.complete _ _ hresult)
          | some fp => exact ⟨fp, hknown fp hfp⟩
        · intro hresult
          rw [if_neg hresult]
          split
          · rw [wp_bind]
            apply wp_mono (feed_spec hengine round.received hknown)
            · intro _ s₂ h₂
              apply ih h₂.1
              rw [h₂.2]
              exact hconserved
            · intro _ _ _
              trivial
          · exact ih hknown hconserved
          · trivial
      · intro _ _ _
        trivial

/-! ## The hosts of a store -/

/-- The fingerprints of a sound store stand for different keys. -/
theorem exists_keys {digest : Bytes → Option Digest} {store : Store}
    (h : store.Sound digest) : ∃ keys : List Digest,
      store.hosts.map Host.fingerprint = (keys.map Subtype.val).map hex := by
  have hall : ∀ hosts : List Host, (∀ host ∈ hosts, host.WellFormed digest) →
      ∃ keys : List Digest, hosts.map Host.fingerprint = (keys.map Subtype.val).map hex := by
    intro hosts hwell
    induction hosts with
    | nil => exact ⟨[], rfl⟩
    | cons host rest ih =>
        rw [List.forall_mem_cons] at hwell
        obtain ⟨fp, hfp⟩ := hwell.1.fingerprint_eq
        obtain ⟨keys, hkeys⟩ := ih hwell.2
        refine ⟨fp :: keys, ?_⟩
        rw [List.map_cons, hfp, hkeys]
        rfl
  exact hall store.hosts h.wellFormed

theorem hex_inj {a b : Bytes} (h : hex a = hex b) : a = b := by
  have hread := unhex_hex a
  rw [h, unhex_hex] at hread
  exact (Except.ok.inj hread).symm

/-- What a call of `accept` that returns has gone through. -/
theorem accept_ok {env : Env σ} {allowed : List String} {pairing : Bool}
    (h : accept engine env allowed pairing = .ok s) :
    ∃ keys ssl, allowedKeys allowed = .ok keys ∧
      loop engine (verifyPeer pairing keys allowed.length) env.rounds
        ⟨ssl, List.replicate 32 0, .fresh⟩ = .ok () s ∧ env.created = some ssl := by
  unfold accept at h
  cases hnodelay : env.nodelay with
  | error e => simp [hnodelay, bind, Except.bind] at h
  | ok _ =>
      cases hkeys : allowedKeys allowed with
      | error e => simp [hnodelay, hkeys, bind, Except.bind] at h
      | ok keys =>
          simp only [hnodelay, hkeys, bind, Except.bind] at h
          cases hnew : tlsNew env.created allowed.length with
          | none => simp [hnew] at h
          | some ssl =>
              have hcreated : env.created = some ssl := by
                unfold tlsNew at hnew
                split_ifs at hnew
                exact hnew
              simp only [hnew] at h
              split at h
              · cases h
              · split at h
                · cases h
                · split at h
                  · next hloop =>
                    obtain rfl := Except.ok.inj h
                    exact ⟨keys, ssl, rfl, hloop, hcreated⟩
                  · cases h

section Trusted

variable {digest : Bytes → Option Digest} {store : Store}

/-- With the hosts of the store the callback lets in exactly the trusted ones. -/
theorem verifyPeer_trusts (hstore : store.Sound digest) :
    ∃ keys, allowedKeys (store.hosts.map Host.fingerprint) = .ok keys ∧
      keys.length = 32 * store.hosts.length ∧
      ∀ fp : Digest, verifyPeer false keys store.hosts.length (some fp) = true ↔
        store.trusts (hex fp) := by
  obtain ⟨keys, hkeys⟩ := exists_keys hstore
  have hcount : store.hosts.length = keys.length := by
    have hlength := congrArg List.length hkeys
    simpa using hlength
  refine ⟨(keys.map Subtype.val).flatten, ?_, ?_, ?_⟩
  · rw [hkeys]
    apply allowedKeys_hex
    intro key hkey
    obtain ⟨fp, -, rfl⟩ := List.mem_map.mp hkey
    exact fp.property
  · have hlengths : keys.map (List.length ∘ Subtype.val) = keys.map fun _ => 32 := by
      apply List.map_congr_left
      intro fp _
      exact fp.property
    rw [List.length_flatten, hcount, List.map_map, hlengths, List.map_const',
      List.sum_replicate, smul_eq_mul, Nat.mul_comm]
  · intro fp
    have hmem : store.trusts (hex fp) ↔ hex fp ∈ store.hosts.map Host.fingerprint := by
      rw [List.mem_map]
      rfl
    rw [hcount, verifyPeer_iff, hmem, hkeys, List.map_map, List.mem_map]
    constructor
    · intro h
      exact ⟨fp, h, rfl⟩
    · intro h
      obtain ⟨fp', hfp', heq⟩ := h
      rw [← Subtype.ext (hex_inj heq)]
      exact hfp'

/-- A connection that is accepted is from a trusted host, with nothing left to send. -/
theorem accept_spec (hstore : store.Sound digest) (hengine : engine.Verifies verified) {env : Env σ}
    (hfresh : ∀ ssl, env.created = some ssl → verified ssl = none)
    (h : accept engine env (store.hosts.map Host.fingerprint) false = .ok s) :
    store.trusts s.fingerprint ∧ s.wire.accepted = s.wire.drained ∧ s.wire.tls = ⟨[], 0⟩ := by
  obtain ⟨keys, hkeys, -, htrusts⟩ := verifyPeer_trusts hstore
  obtain ⟨keys', ssl, hkeys', hloop, hcreated⟩ := accept_ok h
  obtain rfl := Except.ok.inj (hkeys.symm.trans hkeys')
  rw [List.length_map] at hloop
  have hknown : Known verified (verifyPeer false keys store.hosts.length)
      ⟨ssl, List.replicate 32 0, .fresh⟩ := by
    intro fp hfp
    cases (hfresh ssl hcreated).symm.trans hfp
  have hdone := loop_spec hengine env.rounds hknown Wire.fresh_conserved
  obtain ⟨⟨fp, hfp, hpeer⟩, hconserved, hempty⟩ := wp_of_ok hdone hloop
  refine ⟨?_, ?_, hempty⟩
  · rw [State.fingerprint, hpeer]
    exact (htrusts fp).mp hfp
  · have hbytes := hconserved.bytes
    rw [hempty] at hbytes
    simpa using hbytes

/-- With the hosts of the store the callback lets in exactly the trusted ones, the
context is not refused for their number, and a connection that is accepted is from
one of them with nothing left to send. -/
theorem accept_trusted (hstore : store.Sound digest) (hengine : engine.Verifies verified)
    (env : Env σ) (hfresh : ∀ ssl, env.created = some ssl → verified ssl = none) :
    (∃ keys, allowedKeys (store.hosts.map Host.fingerprint) = .ok keys ∧
      keys.length = 32 * store.hosts.length ∧
      tlsNew env.created store.hosts.length = env.created ∧
      ∀ fp : Digest, verifyPeer false keys store.hosts.length (some fp) = true ↔
        store.trusts (hex fp)) ∧
      ∀ s, accept engine env (store.hosts.map Host.fingerprint) false = .ok s →
        store.trusts s.fingerprint ∧ s.wire.accepted = s.wire.drained ∧ s.wire.tls = ⟨[], 0⟩ := by
  obtain ⟨keys, hkeys, hlength, htrusts⟩ := verifyPeer_trusts hstore
  have hle : store.hosts.length ≤ 32 := hstore.length_le
  have hnew : tlsNew env.created store.hosts.length = env.created := by
    rw [tlsNew, if_neg (not_lt.mpr hle)]
  exact ⟨⟨keys, hkeys, hlength, hnew, htrusts⟩, fun s hs => accept_spec hstore hengine hfresh hs⟩

end Trusted

/-- A store with one host. -/
def oneHost : Store :=
  ⟨Config.default, ⟨"", "", "altdb-00"⟩,
    [newHost sampleText (hex sampleHash.val) (displayName none) 0], []⟩

theorem oneHost_sound : oneHost.Sound sampleDigest := by
  constructor
  · exact List.nodup_singleton _
  · decide
  · intro host hhost
    rw [List.mem_singleton.mp hhost]
    exact newHost_wellFormed hostKey_sample 0
  · intro host hhost
    rw [List.mem_singleton.mp hhost]
    exact ⟨by decide, by simp [newHost]⟩
  · rfl

/-- An engine whose first handshake shows the certificate of the host; the session
is what it has verified. -/
def oneShot : Engine (Option Digest) where
  handshake := fun verify _ =>
    ⟨[some sampleHash], if verify (some sampleHash) then 1 else -1,
      if verify (some sampleHash) then some sampleHash else none⟩
  error := fun _ _ => 1
  feed := fun s bytes => (bytes.length, s)
  drain := fun s => ([[22, 3, 3]], s)

theorem oneShot_verifies : oneShot.Verifies id := by
  constructor
  · intro verify s hnone
    cases hnone
  · intro verify s cert hlast
    have hcert : some sampleHash = cert := Option.some.inj hlast
    rw [← hcert]
    rfl
  · intro verify s hresult
    change (if verify (some sampleHash) = true then some sampleHash else none) ≠ none
    change (if verify (some sampleHash) = true then (1 : ℤ) else -1) = 1 at hresult
    split_ifs at hresult ⊢
    exact Option.some_ne_none _
  · intro s bytes
    rfl
  · intro s
    rfl

def oneRound : Env (Option Digest) where
  nodelay := .ok ()
  created := some none
  addCa := fun _ => true
  timeouts := .ok ()
  rounds := [⟨[.wrote 3], .error "timed out"⟩]

/-- The connection of the host. -/
def admitted : State (Option Digest) :=
  ⟨some sampleHash, sampleHash.val, ⟨⟨[], 0⟩, [22, 3, 3], [22, 3, 3]⟩⟩

theorem accept_oneShot :
    (accept oneShot oneRound (oneHost.hosts.map Host.fingerprint) false).toOption.map
      (fun s => (s.peer, s.wire)) = some (admitted.peer, admitted.wire) := by
  decide +kernel

theorem accept_trusted_host :
    ∃ s, accept oneShot oneRound (oneHost.hosts.map Host.fingerprint) false = .ok s ∧
      oneHost.trusts s.fingerprint ∧ s.wire.accepted = [22, 3, 3] := by
  have hpeer := (accept_trusted oneHost_sound oneShot_verifies oneRound
    (fun ssl h => by cases h; rfl)).2
  have hrun := accept_oneShot
  cases haccept : accept oneShot oneRound (oneHost.hosts.map Host.fingerprint) false with
  | error e =>
      rw [haccept] at hrun
      cases hrun
  | ok s =>
      rw [haccept] at hrun
      have hwire : s.wire = admitted.wire := congrArg Prod.snd (Option.some.inj hrun)
      refine ⟨s, rfl, (hpeer s haccept).1, ?_⟩
      rw [hwire]
      rfl

end TlsAccept

end Altdb
