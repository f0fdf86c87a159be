import Altdb.Fallible
import Altdb.HostKeys
import Altdb.Pake
import Altdb.Worker

/-!
# The pairing exchange

`pair_with_commit` speaks to a computer over TLS: both ends send a message of
the key exchange, and then their sealed peer information.  The trust in the
computer is committed before it gets the sealed answer.
-/

namespace Altdb

open Fallible

/-- A library with `SPAKE2_CTX_new` and `SPAKE2_generate_msg` for the device or
the computer, a secret and the randomness of the call. -/
structure PairCrypto (Spake Key : Type) extends Crypto Spake Key where
  generateMsg : Bool → Bytes → Bytes → Option (Spake × Bytes)

/-- `Pake::new`. -/
def Pake.new {Spake Key : Type} (lib : PairCrypto Spake Key) (server : Bool)
    (secret entropy : Bytes) : Except String (Pake Spake Key × Bytes) :=
  match lib.generateMsg server secret entropy with
  | some (spake, message) => .ok (.fresh spake, message)
  | none => .error "SPAKE2 initialization failed"

namespace PairExchange

def PEER_SIZE : ℕ := 8192

/-- `u32::to_be_bytes`. -/
def beBytes (n : UInt32) : Bytes := (leBytes n).reverse

inductive Event where
  | wrote (bytes : Bytes)
  | committed (key : String)
  deriving DecidableEq, Repr

/-- The bytes that still come from the computer, which of the next writes and
flushes fail, and what happened. -/
structure Session where
  input : Bytes
  faults : List Bool
  events : List Event
  deriving DecidableEq, Repr

abbrev Method := EStateM String Session

/-- Some part of what a failed write was given may have left. -/
def writeAll (bytes : Bytes) : Method Unit := do
  let s ← get
  set { s with faults := s.faults.tail, events := s.events ++ [Event.wrote bytes] }
  ensure (s.faults.headD false = false) "TLS write failed"

def flush : Method Unit := do
  let s ← get
  set { s with faults := s.faults.tail }
  ensure (s.faults.headD false = false) "TLS write failed"

def take (n : ℕ) : Method Bytes := do
  let (taken, rest) ← lift (readExact n (← get).input)
  modify fun s => { s with input := rest }
  return taken

def send (kind : UInt8) (body : Bytes) : Method Unit := do
  writeAll [1, kind]
  writeAll (beBytes (UInt32.ofNat body.length))
  writeAll body
  flush

def receive (kind : UInt8) : Method Bytes := do
  let h ← take 6
  ensure (h.getD 0 0 = 1 ∧ h.getD 1 0 = kind) "invalid pairing header"
  let len := ((leWords (h.drop 2).reverse).headD 0).toNat
  ensure (0 < len ∧ len ≤ PEER_SIZE * 2) "invalid pairing length"
  take len

/-- What `Tls::accept`, `Tls::exporter` and the callback do. -/
structure Env where
  accept : Except String Unit
  exporter : Except String Bytes
  entropy : Bytes
  commit : String → Except String Unit

/-- `peer`. -/
def peerInfo (kind : UInt8) (text : Bytes) : Bytes :=
  kind :: text ++ List.replicate (PEER_SIZE - 1 - text.length) 0

/-- `their[1..]` up to its first zero. -/
def hostText (their : Bytes) : Except String String :=
  match (their.drop 1).findIdx? (· == 0) with
  | none => .error "unterminated host key"
  | some i =>
      match JsonText.ofBytes ((their.drop 1).take i) with
      | none => .error "invalid utf-8 sequence"
      | some text => .ok (String.ofList text)

variable {Spake Key : Type}

def pairWithCommit (codec : KeyCodec) (lib : PairCrypto Spake Key) (env : Env)
    (identity : Identity) (code : String) : Method String := do
  lift env.accept
  let exporter ← lift env.exporter
  let secret := JsonText.toBytes code.toList ++ exporter
  let (pake, message) ← lift (Pake.new lib true secret env.entropy)
  send 0 message
  let other ← receive 0
  let (finished, pake) := pake.finish lib.toCrypto other
  lift finished
  ensure (identity.guid.utf8ByteSize < PEER_SIZE - 1) "device GUID too long"
  let peer := peerInfo 1 (JsonText.toBytes identity.guid.toList)
  let input ← receive 1
  let (opened, pake) := pake.crypt lib.toCrypto false input
  let their ← lift opened
  ensure (their.length = PEER_SIZE ∧ their.headD 1 = 0) "invalid pairing peer information"
  let key ← lift (hostText their)
  let _ ← lift (hostKey codec key)
  modify fun s => { s with events := s.events ++ [Event.committed key] }
  lift (env.commit key)
  let (sealed, _) := pake.crypt lib.toCrypto true peer
  let answer ← lift sealed
  send 1 answer
  return key

def pair (codec : KeyCodec) (lib : PairCrypto Spake Key) (env : Env) (identity : Identity)
    (code : String) : Method String :=
  pairWithCommit codec lib { env with commit := fun _ => .ok () } identity code

/-! ## Frames -/

def frame (kind : UInt8) (body : Bytes) : Bytes :=
  [1, kind] ++ beBytes (UInt32.ofNat body.length) ++ body

/-- The writes of a frame. -/
def writes (kind : UInt8) (body : Bytes) : List Event :=
  [.wrote [1, kind], .wrote (beBytes (UInt32.ofNat body.length)), .wrote body]

variable {s s' : Session} {kind : UInt8} {body taken bytes rest : Bytes}

theorem wp_writeAll {post : Unit → Session → Prop} {fail : String → Session → Prop} :
    wp (writeAll bytes) post fail s ↔
      (s.faults.headD false = false →
        post () { s with faults := s.faults.tail, events := s.events ++ [Event.wrote bytes] }) ∧
      (¬ s.faults.headD false = false → fail "TLS write failed"
        { s with faults := s.faults.tail, events := s.events ++ [Event.wrote bytes] }) := by
  unfold writeAll
  rw [wp_bind, wp_get, wp_bind, wp_set, wp_ensure]

theorem wp_flush {post : Unit → Session → Prop} {fail : String → Session → Prop} :
    wp flush post fail s ↔
      (s.faults.headD false = false → post () { s with faults := s.faults.tail }) ∧
      (¬ s.faults.headD false = false → fail "TLS write failed"
        { s with faults := s.faults.tail }) := by
  unfold flush
  rw [wp_bind, wp_get, wp_bind, wp_set, wp_ensure]

theorem wp_take {n : ℕ} {post : Bytes → Session → Prop} {fail : String → Session → Prop}
    (hpost : ∀ taken rest, s.input = taken ++ rest → taken.length = n →
      post taken { s with input := rest })
    (hfail : s.input.length < n → fail "failed to fill whole buffer" s) :
    wp (take n) post fail s := by
  unfold take
  rw [wp_bind, wp_get, wp_bind, wp_lift]
  constructor
  · intro value hvalue
    obtain ⟨taken, rest⟩ := value
    have hread := readExact_ok hvalue
    rw [wp_bind, wp_modify, wp_pure]
    exact hpost taken rest hread.1 hread.2
  · intro error herror
    unfold readExact at herror
    split at herror
    · cases herror
    · next hlength =>
      cases herror
      exact hfail (not_le.mp hlength)

/-- A frame is written, or a part of it and the call fails. -/
theorem send_spec (kind : UInt8) (body : Bytes) (s : Session) :
    wp (send kind body)
      (fun _ s' => s'.input = s.input ∧ s'.events = s.events ++ writes kind body)
      (fun _ s' => s'.input = s.input ∧
        ∃ part, part <+: writes kind body ∧ s'.events = s.events ++ part) s := by
  have hpart (n : ℕ) : (writes kind body).take n <+: writes kind body := List.take_prefix n _
  unfold send
  rw [wp_bind, wp_writeAll]
  constructor
  · intro _
    rw [wp_bind, wp_writeAll]
    constructor
    · intro _
      rw [wp_bind, wp_writeAll]
      constructor
      · intro _
        rw [wp_flush]
        constructor
        · intro _
          exact ⟨rfl, by simp [writes]⟩
        · intro _
          exact ⟨rfl, _, hpart 3, by simp [writes]⟩
      · intro _
        exact ⟨rfl, _, hpart 3, by simp [writes]⟩
    · intro _
      exact ⟨rfl, _, hpart 2, by simp [writes]⟩
  · intro _
    exact ⟨rfl, _, hpart 1, by simp [writes]⟩

/-- Without a fault a frame is written. -/
theorem send_eq (hfaults : s.faults = []) :
    send kind body s = .ok () { s with events := s.events ++ writes kind body } := by
  apply eq_ok_of_wp
  unfold send
  rw [wp_bind, wp_writeAll]
  simp only [hfaults, List.headD_nil, List.tail_nil, wp_bind, wp_writeAll, wp_flush, writes]
  simp [← hfaults]

theorem leWords_beBytes (n : UInt32) : (leWords (beBytes n).reverse).headD 0 = n := by
  have hwords := leWords_flatMap [n]
  rw [List.flatMap_singleton] at hwords
  rw [beBytes, List.reverse_reverse, hwords]
  rfl

theorem beBytes_of_length {bytes : Bytes} (h : bytes.length = 4) :
    bytes = beBytes ((leWords bytes.reverse).headD 0) := by
  match bytes, h with
  | [a, b, c, d], _ =>
      change [a, b, c, d] = (leBytes (fromLeBytes d c b a)).reverse
      rw [leBytes_fromLeBytes]
      rfl

/-- What is received was a whole frame. -/
theorem receive_spec (kind : UInt8) (s : Session) :
    wp (receive kind)
      (fun body s' => s.input = frame kind body ++ s'.input ∧ 0 < body.length ∧
        body.length ≤ PEER_SIZE * 2 ∧ s'.faults = s.faults ∧ s'.events = s.events)
      (fun _ s' => s'.events = s.events) s := by
  unfold receive
  rw [wp_bind]
  refine wp_take (fun h rest hinput hlength => ?_) fun _ => rfl
  rw [wp_bind, wp_ensure]
  refine ⟨fun hheader => ?_, fun _ => rfl⟩
  dsimp only
  rw [wp_bind, wp_ensure]
  refine ⟨fun hlen => ?_, fun _ => rfl⟩
  refine wp_take (fun body rest' hrest hbody => ?_) fun _ => rfl
  have hrest : rest = body ++ rest' := hrest
  have hfields : h = [1, kind] ++ beBytes ((leWords (h.drop 2).reverse).headD 0) := by
    match h, hlength with
    | [a, b, c, d, e, f], _ =>
        obtain ⟨rfl, rfl⟩ : a = 1 ∧ b = kind := hheader
        exact congrArg ([1, b] ++ ·) (@beBytes_of_length [c, d, e, f] rfl)
  have hsize : UInt32.ofNat body.length = (leWords (h.drop 2).reverse).headD 0 := by
    rw [hbody]
    exact UInt32.ofNat_toNat
  refine ⟨?_, hbody ▸ hlen.1, hbody ▸ hlen.2, rfl, rfl⟩
  rw [hinput, hrest, frame, hsize, ← hfields, List.append_assoc]

/-- A frame within the limit is received. -/
theorem receive_frame (hpos : 0 < body.length) (hmax : body.length ≤ PEER_SIZE * 2)
    (hinput : s.input = frame kind body ++ rest) :
    receive kind s = .ok body { s with input := rest } := by
  have hsize : (UInt32.ofNat body.length).toNat = body.length := by
    apply UInt32.toNat_ofNat_of_lt'
    exact lt_of_le_of_lt hmax (by decide)
  have hsplit : s.input = ([1, kind] ++ beBytes (UInt32.ofNat body.length)) ++ (body ++ rest) := by
    rw [hinput, frame, List.append_assoc]
  apply eq_ok_of_wp
  unfold receive
  rw [wp_bind]
  apply wp_take
  · intro h tail hread hlength
    obtain ⟨rfl, rfl⟩ := List.append_inj (hsplit.symm.trans hread) (by rw [hlength]; rfl)
    have hlen : ((leWords (([1, kind] ++ beBytes (UInt32.ofNat body.length)).drop 2).reverse).headD
        0).toNat = body.length := by
      change ((leWords (beBytes (UInt32.ofNat body.length)).reverse).headD 0).toNat = _
      rw [leWords_beBytes, hsize]
    rw [wp_bind, wp_ensure]
    refine ⟨fun _ => ?_, fun hheader => (hheader ⟨rfl, rfl⟩).elim⟩
    dsimp only
    rw [hlen, wp_bind, wp_ensure]
    refine ⟨fun _ => ?_, fun hbounds => (hbounds ⟨hpos, hmax⟩).elim⟩
    apply wp_take
    · intro body' rest' hrest hlength'
      obtain ⟨rfl, rfl⟩ := List.append_inj hrest.symm hlength'
      exact ⟨rfl, rfl⟩
    · intro hshort
      rw [List.length_append] at hshort
      omega
  · intro hshort
    rw [hsplit, List.length_append] at hshort
    change 6 + _ < 6 at hshort
    omega

/-! ## What a pairing attempt does -/

variable {codec : KeyCodec} {lib : PairCrypto Spake Key} {env : Env} {identity : Identity}
  {code key : String} {message : Bytes}

/-- The key of the channel after the message of the other end. -/
def derived (lib : PairCrypto Spake Key) (spake : Spake) (other : Bytes) : Option Key :=
  (Pake.pakeFinish lib.toCrypto (.fresh spake) other).2.aead

/-- The bytes of a computer that show its key: a message of the key exchange and
peer information that opens under the key of the channel. -/
structure Shown (codec : KeyCodec) (lib : PairCrypto Spake Key) (spake : Spake) (input : Bytes)
    (key : String) (channel : Key) (sealed their : Bytes) : Prop where
  frames : ∃ other rest, input = frame 0 other ++ frame 1 sealed ++ rest ∧
    other.length = 32 ∧ derived lib spake other = some channel
  opened : Pake.aeadCall lib.toCrypto false channel 0 sealed = some their
  peer : their.length = PEER_SIZE ∧ their.headD 1 = 0 ∧ hostText their = .ok key
  accepted : ∃ value, hostKey codec key = .ok value

/-- The result of an attempt and what happened in it. -/
inductive Ended (codec : KeyCodec) (lib : PairCrypto Spake Key) (env : Env) (spake : Spake)
    (message input : Bytes) : Except String String → List Event → Prop where
  | exchanging (error : String) (part : List Event) (hpart : part <+: writes 0 message) :
      Ended codec lib env spake message input (.error error) part
  | refused (key error : String) (channel : Key) (sealed their : Bytes)
      (hshown : Shown codec lib spake input key channel sealed their)
      (hcommit : env.commit key = .error error) :
      Ended codec lib env spake message input (.error error)
        (writes 0 message ++ [.committed key])
  | unanswered (key error : String) (channel : Key) (sealed their answer : Bytes)
      (part : List Event) (hshown : Shown codec lib spake input key channel sealed their)
      (hcommit : env.commit key = .ok ()) (hpart : part <+: writes 1 answer) :
      Ended codec lib env spake message input (.error error)
        (writes 0 message ++ [.committed key] ++ part)
  | paired (key : String) (channel : Key) (sealed their answer : Bytes)
      (hshown : Shown codec lib spake input key channel sealed their)
      (hcommit : env.commit key = .ok ()) :
      Ended codec lib env spake message input (.ok key)
        (writes 0 message ++ [.committed key] ++ writes 1 answer)

/-- The part of an attempt after the message of the device. -/
def exchange (codec : KeyCodec) (lib : PairCrypto Spake Key) (env : Env) (identity : Identity)
    (pake : Pake Spake Key) : Method String := do
  let other ← receive 0
  let (finished, pake) := pake.finish lib.toCrypto other
  lift finished
  ensure (identity.guid.utf8ByteSize < PEER_SIZE - 1) "device GUID too long"
  let peer := peerInfo 1 (JsonText.toBytes identity.guid.toList)
  let input ← receive 1
  let (opened, pake) := pake.crypt lib.toCrypto false input
  let their ← lift opened
  ensure (their.length = PEER_SIZE ∧ their.headD 1 = 0) "invalid pairing peer information"
  let key ← lift (hostText their)
  let _ ← lift (hostKey codec key)
  modify fun s => { s with events := s.events ++ [Event.committed key] }
  lift (env.commit key)
  let (sealed, _) := pake.crypt lib.toCrypto true peer
  let answer ← lift sealed
  send 1 answer
  return key

theorem pairWithCommit_eq {exporter : Bytes} {pake : Pake Spake Key}
    (haccept : env.accept = .ok ()) (hexporter : env.exporter = .ok exporter)
    (hnew : Pake.new lib true (JsonText.toBytes code.toList ++ exporter) env.entropy =
      .ok (pake, message)) :
    pairWithCommit codec lib env identity code =
      (send 0 message >>= fun _ => exchange codec lib env identity pake) := by
  unfold pairWithCommit
  rw [haccept, hexporter]
  change (lift (Pake.new lib true _ env.entropy) >>= _) = _
  rw [hnew]
  rfl

/-- A successful `finish` of a fresh context. -/
theorem finish_ok {spake : Spake} {other : Bytes} {pake : Pake Spake Key}
    (h : (Pake.fresh spake).finish lib.toCrypto other = (.ok (), pake)) :
    other.length = 32 ∧ ∃ channel, derived lib spake other = some channel ∧
      pake = ⟨none, some channel, 0, 0⟩ := by
  unfold Pake.finish at h
  split at h
  · cases (Prod.mk.inj h).1
  · next hlength =>
    refine ⟨not_not.mp hlength, ?_⟩
    obtain ⟨hresult, rfl⟩ := Prod.mk.inj h
    change (if (Option.isSome (derived lib spake other)) = true then _ else _) = _ at hresult
    cases hderived : derived lib spake other with
    | none =>
        rw [hderived] at hresult
        cases hresult
    | some channel =>
        refine ⟨channel, rfl, ?_⟩
        change (⟨none, derived lib spake other, 0, 0⟩ : Pake Spake Key) = _
        rw [hderived]

/-- What the thread of an attempt does in the worker, in whatever processes it takes
its steps.  The callback of the attempt is a call to the supervisor, and what the
call returns is what the commit gives. -/
structure Followed (codec : KeyCodec) (env : Env) (j epoch : ℕ) (result : Except String String)
    (events : List Event) : Prop where
  /-- An attempt without a commit fails. -/
  uncommitted : (∀ key, Event.committed key ∉ events) → result.isOk = false ∧
    ∀ p : Process, p.pairings[j]? = some ⟨epoch, .exchanging⟩ →
      p.pairing codec j .fail = some (p.setPairing j .failed)
  once : ∀ key key', Event.committed key ∈ events → Event.committed key' ∈ events → key = key'
  commit : ∀ key, Event.committed key ∈ events → ∀ p : Process,
    p.pairings[j]? = some ⟨epoch, .exchanging⟩ →
      p.pairing codec j (.commit key) =
        p.enter (.pairResult epoch (some key)) fun c => Process.setPairing j (.committing key c)
  /-- A refused commit ends the attempt with the error of the call. -/
  refused : ∀ key error, Event.committed key ∈ events → env.commit key = .error error →
    result = .error error ∧ ∀ (p : Process) (c : ℕ),
      p.pairings[j]? = some ⟨epoch, .committing key c⟩ →
      p.broker.returned c = some (.error error) →
        p.pairing codec j .resume = some (p.setPairing j .failed)
  granted : ∀ key, Event.committed key ∈ events → env.commit key = .ok () →
    ∀ (p : Process) (c : ℕ) (value : String × List Fd),
      p.pairings[j]? = some ⟨epoch, .committing key c⟩ →
      p.broker.returned c = some (.ok value) →
        p.pairing codec j .resume = some (p.setPairing j (.acknowledging key))
  /-- The answer has been sent exactly if the attempt succeeds. -/
  answered : ∀ key, Event.committed key ∈ events → env.commit key = .ok () → ∀ p : Process,
    p.pairings[j]? = some ⟨epoch, .acknowledging key⟩ →
      p.acknowledged j (.acknowledge result.isOk) = some (epoch, key) ∧
        p.pairing codec j (.acknowledge result.isOk) =
          some (p.setPairing j (if result.isOk then .ended else .failed))

theorem not_committed_in_writes {kind : UInt8} {body : Bytes} {part : List Event} {key : String}
    (h : part <+: writes kind body) : Event.committed key ∉ part := by
  intro hmem
  have hwrite := h.subset hmem
  simp [writes] at hwrite

/-- The events of an attempt that has committed a key hold no other commit. -/
theorem committed_mem {key key' : String} {message answer : Bytes} {part : List Event}
    (hpart : part <+: writes 1 answer)
    (h : Event.committed key' ∈ writes 0 message ++ [.committed key] ++ part) : key' = key := by
  rw [List.mem_append, List.mem_append, List.mem_singleton] at h
  rcases h with (hbefore | heq) | hafter
  · exact absurd hbefore (not_committed_in_writes (List.prefix_refl _))
  · exact Event.committed.inj heq
  · exact absurd hafter (not_committed_in_writes hpart)

theorem Followed.of_uncommitted {j epoch : ℕ} {error : String} {events : List Event}
    (h : ∀ key, Event.committed key ∉ events) :
    Followed codec env j epoch (.error error) events where
  uncommitted _ := by
    constructor
    · rfl
    · intro p hp
      simp [Process.pairing, hp]
  once key _ hkey := absurd hkey (h key)
  commit key hkey := absurd hkey (h key)
  refused key _ hkey := absurd hkey (h key)
  granted key hkey := absurd hkey (h key)
  answered key hkey := absurd hkey (h key)

theorem Followed.of_committed {j epoch : ℕ} {result : Except String String} {answer : Bytes}
    {part : List Event} {value : String × String} (hpart : part <+: writes 1 answer)
    (hkey : hostKey codec key = .ok value)
    (hrefused : ∀ error, env.commit key = .error error → result = .error error) :
    Followed codec env j epoch result (writes 0 message ++ [.committed key] ++ part) where
  uncommitted hnone := by
    have hmem : Event.committed key ∈ writes 0 message ++ [.committed key] ++ part := by simp
    exact absurd hmem (hnone key)
  once key₁ key₂ h₁ h₂ := by
    rw [committed_mem hpart h₁, committed_mem hpart h₂]
  commit key' hmem p hp := by
    obtain rfl := committed_mem hpart hmem
    simp [Process.pairing, hp, hkey]
  refused key' error hmem hcommit := by
    obtain rfl := committed_mem hpart hmem
    constructor
    · exact hrefused error hcommit
    · intro p c hp hreturned
      simp [Process.pairing, hp, hreturned]
  granted key' _ _ p c value hp hreturned := by
    simp [Process.pairing, hp, hreturned]
  answered key' _ _ p hp := by
    constructor
    · simp [Process.acknowledged, hp]
    · simp [Process.pairing, hp]

theorem Ended.followed {spake : Spake} {input : Bytes} {result : Except String String}
    {events : List Event} (h : Ended codec lib env spake message input result events)
    (j epoch : ℕ) : Followed codec env j epoch result events := by
  cases h with
  | exchanging error part hpart =>
      exact .of_uncommitted fun key => not_committed_in_writes hpart
  | refused key error channel sealed their hshown hcommit =>
      obtain ⟨value, hkey⟩ := hshown.accepted
      have hfollowed := @Followed.of_committed codec env key message j epoch (.error error) []
        [] value List.nil_prefix hkey
      rw [List.append_nil] at hfollowed
      apply hfollowed
      intro error' hcommit'
      rw [hcommit] at hcommit'
      rw [Except.error.inj hcommit']
  | unanswered key error channel sealed their answer part hshown hcommit hpart =>
      obtain ⟨value, hkey⟩ := hshown.accepted
      apply Followed.of_committed hpart hkey
      intro error' hcommit'
      rw [hcommit] at hcommit'
      cases hcommit'
  | paired key channel sealed their answer hshown hcommit =>
      obtain ⟨value, hkey⟩ := hshown.accepted
      apply Followed.of_committed (List.prefix_refl _) hkey
      intro error hcommit'
      rw [hcommit] at hcommit'
      cases hcommit'

/-- What the key exchange with two secrets and the sealing are relied on for. -/
structure Reliable (lib : PairCrypto Spake Key) (secret secret' : Bytes) : Prop where
  message : ∀ server secret entropy spake message,
    lib.generateMsg server secret entropy = some (spake, message) → message.length = 32
  /-- Both ends derive a key, the same one exactly if they have the same secret. -/
  agree : ∀ entropy entropy' computer device own message,
    lib.generateMsg false secret entropy = some (computer, own) →
    lib.generateMsg true secret' entropy' = some (device, message) →
    ∃ key key', derived lib computer message = some key ∧ derived lib device own = some key' ∧
      (key = key' ↔ secret = secret')
  fits : ∀ key nonce plain, nonce.length = 12 → ∃ cipher,
    lib.aeadSeal key nonce plain (plain.length + 16) = some cipher ∧
      cipher.length = plain.length + 16
  opens : ∀ key nonce plain capacity cipher, lib.aeadSeal key nonce plain capacity = some cipher →
    ∀ capacity', plain.length ≤ capacity' → lib.aeadOpen key nonce cipher capacity' = some plain

/-- The stock client after the message of the device: its context and what it
sends. -/
def computer (lib : PairCrypto Spake Key) (secret entropy text message : Bytes) :
    Except String (Pake Spake Key × Bytes) := do
  let (pake, own) ← Pake.new lib false secret entropy
  let (finished, pake) := pake.finish lib.toCrypto message
  finished
  let (sealed, pake) := pake.crypt lib.toCrypto true (peerInfo 0 text)
  let sealed ← sealed
  return (pake, frame 0 own ++ frame 1 sealed)

theorem length_peerInfo (kind : UInt8) {text : Bytes} (h : text.length ≤ 8191) :
    (peerInfo kind text).length = PEER_SIZE := by
  rw [peerInfo, List.length_append, List.length_cons, List.length_replicate, PEER_SIZE]
  omega

theorem size_peerInfo (kind : UInt8) {text : Bytes} (h : text.length ≤ 8191) :
    (peerInfo kind text).length ≤ 16400 := by
  rw [length_peerInfo kind h]
  decide

theorem zero_of_utf8 {c : Char} (h : (0 : UInt8) ∈ String.utf8EncodeChar c) : c = '\x00' := by
  apply Char.toNat_inj.mp
  change c.toNat = 0
  have hval : c.val.toNat = c.toNat := rfl
  have hzero : (0 : UInt8).toNat = 0 := rfl
  simp only [String.utf8EncodeChar] at h
  split_ifs at h
  all_goals
    simp only [List.mem_cons, List.not_mem_nil, or_false, ← UInt8.toNat_inj,
      UInt8.toNat_ofNat'] at h
    omega

theorem findIdx?_append {α : Type} {p : α → Bool} {xs ys : List α} {y : α}
    (hxs : ∀ x ∈ xs, p x = false) (hy : p y = true) :
    (xs ++ y :: ys).findIdx? p = some xs.length := by
  rw [List.findIdx?_append, List.findIdx?_eq_none_iff.mpr hxs, List.findIdx?_cons, if_pos hy]
  simp

/-- The device finds the key that the computer put into its peer information. -/
theorem hostText_peerInfo {key : String} (hzero : '\x00' ∉ key.toList)
    (hsize : key.utf8ByteSize ≤ 8190) :
    hostText (peerInfo 0 (JsonText.toBytes key.toList)) = .ok key := by
  have hlength : (JsonText.toBytes key.toList).length = key.utf8ByteSize := by
    rw [JsonText.length_toBytes, JsonText.size_toList]
  obtain ⟨n, hn⟩ : ∃ n, PEER_SIZE - 1 - (JsonText.toBytes key.toList).length = n + 1 := by
    refine ⟨PEER_SIZE - 2 - (JsonText.toBytes key.toList).length, ?_⟩
    rw [hlength, PEER_SIZE]
    omega
  have hdrop : (peerInfo 0 (JsonText.toBytes key.toList)).drop 1 =
      JsonText.toBytes key.toList ++ 0 :: List.replicate n 0 := by
    rw [peerInfo, hn, List.replicate_succ]
    rfl
  have hfind : (JsonText.toBytes key.toList ++ 0 :: List.replicate n 0).findIdx? (· == 0) =
      some (JsonText.toBytes key.toList).length := by
    apply findIdx?_append
    · intro b hb
      rw [beq_eq_false_iff_ne]
      rintro rfl
      obtain ⟨c, hc, hbyte⟩ := List.mem_flatMap.mp hb
      exact hzero (zero_of_utf8 hbyte ▸ hc)
    · rfl
  unfold hostText
  rw [hdrop, hfind]
  dsimp only
  rw [List.take_left, JsonText.ofBytes_toBytes]
  dsimp only
  rw [String.ofList_toList]

theorem finish_eq {spake : Spake} {other : Bytes} {channel : Key} (hlength : other.length = 32)
    (hderived : derived lib spake other = some channel) :
    (Pake.fresh spake).finish lib.toCrypto other = (.ok (), ⟨none, some channel, 0, 0⟩) := by
  unfold Pake.finish
  rw [if_neg (not_not.mpr hlength)]
  change ((if (derived lib spake other).isSome = true then _ else _),
    (⟨none, derived lib spake other, 0, 0⟩ : Pake Spake Key)) = _
  rw [hderived]
  rfl

/-- Sealing works while the nonces last. -/
theorem seal_eq {secret secret' : Bytes} (hlib : Reliable lib secret secret') (channel : Key)
    (dec : UInt64) {plain : Bytes} (hsize : plain.length ≤ 16400) :
    ∃ cipher, cipher.length = plain.length + 16 ∧
      lib.aeadSeal channel (Pake.nonce 0) plain (plain.length + 16) = some cipher ∧
      Pake.crypt lib.toCrypto ⟨none, some channel, 0, dec⟩ true plain =
        (.ok cipher, ⟨none, some channel, 1, dec⟩) := by
  obtain ⟨cipher, hseal, hlength⟩ := hlib.fits channel (Pake.nonce 0) plain rfl
  refine ⟨cipher, hlength, hseal, ?_⟩
  have hcrypt : Pake.pakeCrypt lib.toCrypto ⟨none, some channel, 0, dec⟩ true plain
      (plain.length + 16) =
      (lib.aeadSeal channel (Pake.nonce 0) plain (plain.length + 16),
        if (lib.aeadSeal channel (Pake.nonce 0) plain (plain.length + 16)).isSome then
          ⟨none, some channel, 1, dec⟩ else ⟨none, some channel, 0, dec⟩) := rfl
  rw [Pake.crypt, if_neg (by omega), hcrypt, hseal]
  rfl

/-- Opening gives what the library gives. -/
theorem open_eq {channel : Key} {enc : UInt64} {cipher : Bytes} (hsize : cipher.length ≤ 16400) :
    Pake.crypt lib.toCrypto ⟨none, some channel, enc, 0⟩ false cipher =
      match lib.aeadOpen channel (Pake.nonce 0) cipher (cipher.length + 16) with
      | some plain => (.ok plain, ⟨none, some channel, enc, 1⟩)
      | none => (.error "pairing authentication failed", ⟨none, some channel, enc, 0⟩) := by
  have hcrypt : Pake.pakeCrypt lib.toCrypto ⟨none, some channel, enc, 0⟩ false cipher
      (cipher.length + 16) =
      (lib.aeadOpen channel (Pake.nonce 0) cipher (cipher.length + 16),
        if (lib.aeadOpen channel (Pake.nonce 0) cipher (cipher.length + 16)).isSome then
          ⟨none, some channel, enc, 1⟩ else ⟨none, some channel, enc, 0⟩) := rfl
  rw [Pake.crypt, if_neg (by omega), hcrypt]
  cases lib.aeadOpen channel (Pake.nonce 0) cipher (cipher.length + 16) with
  | none => rfl
  | some plain => rfl

/-- What a computer that gets through to the end has sent. -/
theorem computer_ok {secret secret' entropy text sent : Bytes} {pake : Pake Spake Key}
    (hlib : Reliable lib secret secret') (htext : text.length ≤ 8191)
    (h : computer lib secret entropy text message = .ok (pake, sent)) :
    ∃ spake own channel sealed, lib.generateMsg false secret entropy = some (spake, own) ∧
      derived lib spake message = some channel ∧
      lib.aeadSeal channel (Pake.nonce 0) (peerInfo 0 text) (PEER_SIZE + 16) = some sealed ∧
      sealed.length = PEER_SIZE + 16 ∧ pake = ⟨none, some channel, 1, 0⟩ ∧
      sent = frame 0 own ++ frame 1 sealed := by
  unfold computer Pake.new at h
  cases hgenerate : lib.generateMsg false secret entropy with
  | none =>
      rw [hgenerate] at h
      cases h
  | some made =>
      obtain ⟨spake, own⟩ := made
      rw [hgenerate] at h
      simp only [bind, Except.bind] at h
      rcases hfinish : (Pake.fresh spake).finish lib.toCrypto message with ⟨finished, pake'⟩
      rw [hfinish] at h
      cases finished with
      | error error => cases h
      | ok _ =>
          obtain ⟨-, channel, hderived, rfl⟩ := finish_ok hfinish
          have hlength := length_peerInfo 0 htext
          obtain ⟨sealed, hsealed, hseal, hcrypt⟩ := seal_eq hlib channel 0 (size_peerInfo 0 htext)
          dsimp only at h
          rw [hcrypt] at h
          obtain ⟨rfl, rfl⟩ := Prod.mk.inj (Except.ok.inj h)
          rw [hlength] at hseal hsealed
          exact ⟨spake, own, channel, sealed, rfl, hderived, hseal, hsealed, rfl, rfl⟩

section Honest

variable {spake : Spake} {own sealed secret secret' : Bytes} {channel : Key}
  {value : String × String}

/-- The device reads both frames and opens the second one. -/
theorem exchange_opening (hown : own.length = 32) (hderived : derived lib spake own = some channel)
    (hguid : identity.guid.utf8ByteSize < PEER_SIZE - 1) (hsealed : sealed.length = PEER_SIZE + 16)
    (hinput : s.input = frame 0 own ++ (frame 1 sealed ++ rest)) :
    exchange codec lib env identity (.fresh spake) s =
      (do
        let (opened, pake) := Pake.crypt lib.toCrypto ⟨none, some channel, 0, 0⟩ false sealed
        let their ← lift opened
        ensure (their.length = PEER_SIZE ∧ their.headD 1 = 0) "invalid pairing peer information"
        let key ← lift (hostText their)
        let _ ← lift (hostKey codec key)
        modify fun s => { s with events := s.events ++ [Event.committed key] }
        lift (env.commit key)
        let (sealed, _) := pake.crypt lib.toCrypto true
          (peerInfo 1 (JsonText.toBytes identity.guid.toList))
        let answer ← lift sealed
        send 1 answer
        return key : Method String) { s with input := rest } := by
  have hfirst : receive 0 s = .ok own { s with input := frame 1 sealed ++ rest } := by
    apply receive_frame
    · omega
    · rw [hown]
      decide
    · exact hinput
  have hsecond : receive 1 { s with input := frame 1 sealed ++ rest } =
      .ok sealed { s with input := rest } := by
    apply receive_frame
    · omega
    · rw [hsealed]
      decide
    · rfl
  unfold exchange
  rw [bind_ok hfirst, finish_eq hown hderived]
  dsimp only
  have hok : ∀ (next : Unit → Method String) (s : Session),
      (lift (.ok ()) >>= next) s = next () s :=
    fun _ _ => rfl
  have hensure : ∀ (next : Unit → Method String) (s : Session),
      (ensure (identity.guid.utf8ByteSize < PEER_SIZE - 1) "device GUID too long" >>= next) s =
        next () s := by
    intro next s
    rw [ensure, if_pos hguid]
    rfl
  rw [hok, hensure, bind_ok hsecond]

/-- Another key of the channel ends the attempt before anything is committed. -/
theorem exchange_closed (hown : own.length = 32) (hderived : derived lib spake own = some channel)
    (hguid : identity.guid.utf8ByteSize < PEER_SIZE - 1) (hsealed : sealed.length = PEER_SIZE + 16)
    (hinput : s.input = frame 0 own ++ (frame 1 sealed ++ rest))
    (hopen : lib.aeadOpen channel (Pake.nonce 0) sealed (sealed.length + 16) = none) :
    exchange codec lib env identity (.fresh spake) s =
      .error "pairing authentication failed" { s with input := rest } := by
  rw [exchange_opening hown hderived hguid hsealed hinput, open_eq (by rw [hsealed]; decide), hopen]
  rfl

/-- The same key of the channel brings the key of the computer to the callback. -/
theorem exchange_opened (hlib : Reliable lib secret secret') (hown : own.length = 32)
    (hderived : derived lib spake own = some channel)
    (hguid : identity.guid.utf8ByteSize < PEER_SIZE - 1) (hsealed : sealed.length = PEER_SIZE + 16)
    (hinput : s.input = frame 0 own ++ (frame 1 sealed ++ rest)) (hfaults : s.faults = [])
    (hkey : hostKey codec key = .ok value)
    (hopen : lib.aeadOpen channel (Pake.nonce 0) sealed (sealed.length + 16) =
      some (peerInfo 0 (JsonText.toBytes key.toList))) :
    (∀ error, env.commit key = .error error →
      exchange codec lib env identity (.fresh spake) s =
        .error error { s with input := rest, events := s.events ++ [.committed key] }) ∧
      (env.commit key = .ok () → ∃ answer,
        exchange codec lib env identity (.fresh spake) s =
          .ok key { s with
            input := rest
            events := s.events ++ [.committed key] ++ writes 1 answer } ∧
        (Pake.crypt lib.toCrypto ⟨none, some channel, 1, 0⟩ false answer).1 =
          .ok (peerInfo 1 (JsonText.toBytes identity.guid.toList))) := by
  have hbounds : key.utf8ByteSize ≤ 8190 ∧ '\x00' ∉ key.toList := by
    by_contra hnot
    rw [hostKey, if_pos hnot] at hkey
    cases hkey
  have htext : (JsonText.toBytes key.toList).length ≤ 8191 := by
    rw [JsonText.length_toBytes, JsonText.size_toList]
    omega
  have hcommitted : exchange codec lib env identity (.fresh spake) s =
      (do
        lift (env.commit key)
        let (sealed, _) := Pake.crypt lib.toCrypto ⟨none, some channel, 0, 1⟩ true
          (peerInfo 1 (JsonText.toBytes identity.guid.toList))
        let answer ← lift sealed
        send 1 answer
        return key : Method String)
        { s with input := rest, events := s.events ++ [.committed key] } := by
    rw [exchange_opening hown hderived hguid hsealed hinput, open_eq (by rw [hsealed]; decide),
      hopen]
    have hok : ∀ {α : Type} (value : α) (next : α → Method String) (s : Session),
        (lift (.ok value) >>= next) s = next value s := fun _ _ _ => rfl
    have hensure : ∀ (next : Unit → Method String) (s : Session),
        (ensure ((peerInfo 0 (JsonText.toBytes key.toList)).length = PEER_SIZE ∧
          (peerInfo 0 (JsonText.toBytes key.toList)).headD 1 = 0)
          "invalid pairing peer information" >>= next) s = next () s := by
      intro next s
      rw [ensure, if_pos ⟨length_peerInfo 0 htext, rfl⟩]
      rfl
    dsimp only
    rw [hok, hensure, hostText_peerInfo hbounds.2 hbounds.1, hok, hkey, hok]
    rfl
  constructor
  · intro error hcommit
    rw [hcommitted, hcommit]
    rfl
  · intro hcommit
    have hguid' : (JsonText.toBytes identity.guid.toList).length ≤ 8191 := by
      rw [JsonText.length_toBytes, JsonText.size_toList]
      exact hguid.le
    have hlength := length_peerInfo 1 hguid'
    obtain ⟨answer, hanswer, hseal, hcrypt⟩ := seal_eq hlib channel 1 (size_peerInfo 1 hguid')
    have hsent : (send 1 answer >>= fun _ => pure key)
        { s with input := rest, events := s.events ++ [.committed key] } =
          .ok key { s with
            input := rest
            events := s.events ++ [.committed key] ++ writes 1 answer } :=
      bind_ok (send_eq hfaults)
    refine ⟨answer, ?_, ?_⟩
    · rw [hcommitted, hcommit, hcrypt]
      exact hsent
    · have hopen' := hlib.opens _ _ _ _ _ hseal (answer.length + 16) (by omega)
      rw [open_eq (by rw [hanswer, hlength]; decide), hopen']

theorem toBytes_inj {text text' : String}
    (h : JsonText.toBytes text.toList = JsonText.toBytes text'.toList) : text = text' := by
  have hread := congrArg JsonText.ofBytes h
  rw [JsonText.ofBytes_toBytes, JsonText.ofBytes_toBytes] at hread
  exact String.toList_inj.mp (Option.some.inj hread)

/-- A computer is paired exactly if it has the code and the channel of the device:
its key is then committed before it gets the answer, which it can open.  Otherwise
nothing is committed, and the attempt ends with the message of the device. -/
theorem pair_computer (env : Env) (rest : Bytes) {exporter exporter' entropy sent : Bytes}
    {code' : String} {device pake : Pake Spake Key}
    (hlib : Reliable lib (JsonText.toBytes code'.toList ++ exporter')
      (JsonText.toBytes code.toList ++ exporter))
    (hideal : Pake.IdealAead lib.toCrypto)
    (haccept : env.accept = .ok ()) (hexporter : env.exporter = .ok exporter)
    (hsize : exporter.length = 64) (hsize' : exporter'.length = 64)
    (hnew : Pake.new lib true (JsonText.toBytes code.toList ++ exporter) env.entropy =
      .ok (device, message))
    (hcomputer : computer lib (JsonText.toBytes code'.toList ++ exporter') entropy
      (JsonText.toBytes key.toList) message = .ok (pake, sent))
    (hguid : identity.guid.utf8ByteSize < PEER_SIZE - 1) (hkey : hostKey codec key = .ok value) :
    (¬ (code' = code ∧ exporter' = exporter) →
      pairWithCommit codec lib env identity code ⟨sent ++ rest, [], []⟩ =
        .error "pairing authentication failed" ⟨rest, [], writes 0 message⟩) ∧
      (code' = code ∧ exporter' = exporter →
        (∀ error, env.commit key = .error error →
          pairWithCommit codec lib env identity code ⟨sent ++ rest, [], []⟩ =
            .error error ⟨rest, [], writes 0 message ++ [.committed key]⟩) ∧
        (env.commit key = .ok () → ∃ answer,
          pairWithCommit codec lib env identity code ⟨sent ++ rest, [], []⟩ =
            .ok key ⟨rest, [], writes 0 message ++ [.committed key] ++ writes 1 answer⟩ ∧
          (pake.crypt lib.toCrypto false answer).1 =
            .ok (peerInfo 1 (JsonText.toBytes identity.guid.toList)))) := by
  have hbounds : key.utf8ByteSize ≤ 8190 := by
    by_contra hnot
    rw [hostKey, if_pos fun h => hnot h.1] at hkey
    cases hkey
  have htext : (JsonText.toBytes key.toList).length ≤ 8191 := by
    rw [JsonText.length_toBytes, JsonText.size_toList]
    omega
  obtain ⟨spake', own, channel', sealed, hgenerate', hderived', hseal, hsealed, rfl, rfl⟩ :=
    computer_ok hlib htext hcomputer
  obtain ⟨spake, hgenerate, rfl⟩ : ∃ spake,
      lib.generateMsg true (JsonText.toBytes code.toList ++ exporter) env.entropy =
        some (spake, message) ∧ device = .fresh spake := by
    unfold Pake.new at hnew
    split at hnew
    · next spake message' hmade =>
      obtain ⟨rfl, rfl⟩ := Prod.mk.inj (Except.ok.inj hnew)
      exact ⟨spake, hmade, rfl⟩
    · cases hnew
  obtain ⟨key₁, channel, hkey₁, hderived, hsame⟩ :=
    hlib.agree _ _ _ _ _ _ hgenerate' hgenerate
  obtain rfl := Option.some.inj (hkey₁.symm.trans hderived')
  have hown := hlib.message _ _ _ _ _ hgenerate'
  have hrun : pairWithCommit codec lib env identity code
      ⟨frame 0 own ++ frame 1 sealed ++ rest, [], []⟩ =
        exchange codec lib env identity (.fresh spake)
          ⟨frame 0 own ++ frame 1 sealed ++ rest, [], writes 0 message⟩ := by
    rw [pairWithCommit_eq haccept hexporter hnew, bind_ok (send_eq rfl)]
    rfl
  have hinput : frame 0 own ++ frame 1 sealed ++ rest =
      frame 0 own ++ (frame 1 sealed ++ rest) := List.append_assoc _ _ _
  have hsecret : JsonText.toBytes code'.toList ++ exporter' =
      JsonText.toBytes code.toList ++ exporter ↔ code' = code ∧ exporter' = exporter := by
    constructor
    · intro h
      obtain ⟨hcode, hexport⟩ := List.append_inj' h (hsize'.trans hsize.symm)
      exact ⟨toBytes_inj hcode, hexport⟩
    · rintro ⟨rfl, rfl⟩
      rfl
  rw [hrun]
  constructor
  · intro hdiffer
    apply exchange_closed hown hderived hguid hsealed hinput
    cases hopen : lib.aeadOpen channel (Pake.nonce 0) sealed (sealed.length + 16) with
    | none => rfl
    | some plain =>
        have hkeys := (hideal _ _ _ _ _ hseal _ _ _ _ hopen).1
        exact absurd (hsecret.mp (hsame.mp hkeys.symm)) hdiffer
  · intro hequal
    obtain rfl := hsame.mpr (hsecret.mpr hequal)
    apply exchange_opened hlib hown hderived hguid hsealed hinput rfl hkey
    apply hlib.opens _ _ _ _ _ hseal
    rw [length_peerInfo 0 htext, hsealed]
    omega

/-- A computer gets through to the end. -/
theorem computer_eq {text : Bytes} (entropy : Bytes) (hlib : Reliable lib secret secret')
    (htext : text.length ≤ 8191) (hmessage : message.length = 32)
    (hgenerate : lib.generateMsg false secret entropy = some (spake, own))
    (hderived : derived lib spake message = some channel) :
    ∃ sent, computer lib secret entropy text message = .ok (⟨none, some channel, 1, 0⟩, sent) := by
  obtain ⟨sealed, -, -, hcrypt⟩ := seal_eq hlib channel 0 (size_peerInfo 0 htext)
  refine ⟨frame 0 own ++ frame 1 sealed, ?_⟩
  rw [computer, Pake.new, hgenerate]
  simp only [bind, Except.bind]
  rw [finish_eq hmessage hderived]
  dsimp only
  rw [hcrypt]
  rfl

end Honest

/-- A library whose channel key is the first word of the secret. -/
def codeLib : PairCrypto Bytes UInt32 where
  processMsg := fun spake _ => some spake
  hkdf := Pake.World.plainLib.hkdf
  aeadNew := Pake.World.plainLib.aeadNew
  aeadSeal := Pake.World.plainLib.aeadSeal
  aeadOpen := Pake.World.plainLib.aeadOpen
  generateMsg := fun _ secret _ => some (secret, List.replicate 32 0)

theorem codeLib_reliable {secret secret' : Bytes}
    (h : (leWords (secret.take 16)).getD 0 0 = (leWords (secret'.take 16)).getD 0 0 ↔
      secret = secret') : Reliable codeLib secret secret' := by
  constructor
  · intro server secret entropy spake message hgenerate
    obtain ⟨-, rfl⟩ := Prod.mk.inj (Option.some.inj hgenerate)
    exact List.length_replicate
  · intro entropy entropy' computer device own message hgenerate hgenerate'
    obtain ⟨rfl, -⟩ := Prod.mk.inj (Option.some.inj hgenerate)
    obtain ⟨rfl, -⟩ := Prod.mk.inj (Option.some.inj hgenerate')
    exact ⟨_, _, rfl, rfl, h⟩
  · intro key nonce plain hnonce
    refine ⟨nonce ++ leBytes key ++ plain, if_pos ⟨hnonce, le_rfl⟩, ?_⟩
    rw [List.length_append, List.length_append, hnonce]
    change 12 + 4 + _ = _
    omega
  · intro key nonce plain capacity cipher hseal capacity' _
    obtain ⟨⟨hnonce, -⟩, hcipher⟩ := Option.ite_none_right_eq_some.mp hseal
    obtain rfl := Option.some.inj hcipher
    have hfront : (nonce ++ leBytes key).length = 16 := by
      rw [List.length_append, hnonce]
      rfl
    change (if nonce.length = 12 ∧ (nonce ++ leBytes key ++ plain).take 16 = nonce ++ leBytes key
      then some ((nonce ++ leBytes key ++ plain).drop 16) else none) = some plain
    rw [← hfront, List.take_left, List.drop_left, if_pos ⟨hnonce, rfl⟩]

/-- A code and an exporter of zeros. -/
def codeSecret (code : String) : Bytes := JsonText.toBytes code.toList ++ List.replicate 64 0

/-- An attempt whose callback succeeds. -/
def quietEnv : Env := ⟨.ok (), .ok (List.replicate 64 0), [], fun _ => .ok ()⟩

def anyCodec : KeyCodec := ⟨fun _ => .ok [], fun _ => some []⟩

def sampleDevice : Identity := ⟨"", "", "altdb-00"⟩

/-- The computer pairs with its own code, and not with another one. -/
theorem pair_computer_codes :
    (∃ pake sent answer, computer codeLib (codeSecret "123456") [] (JsonText.toBytes "QAAA".toList)
        (List.replicate 32 0) = .ok (pake, sent) ∧
      pairWithCommit anyCodec codeLib quietEnv sampleDevice "123456" ⟨sent ++ [], [], []⟩ =
        .ok "QAAA" ⟨[], [],
          writes 0 (List.replicate 32 0) ++ [.committed "QAAA"] ++ writes 1 answer⟩) ∧
      ∃ pake sent, computer codeLib (codeSecret "654321") [] (JsonText.toBytes "QAAA".toList)
        (List.replicate 32 0) = .ok (pake, sent) ∧
      pairWithCommit anyCodec codeLib quietEnv sampleDevice "123456" ⟨sent ++ [], [], []⟩ =
        .error "pairing authentication failed" ⟨[], [], writes 0 (List.replicate 32 0)⟩ := by
  have hideal : Pake.IdealAead codeLib.toCrypto := Pake.World.plainLib_ideal
  have htext : (JsonText.toBytes "QAAA".toList).length ≤ 8191 := by decide
  have hkey : hostKey anyCodec "QAAA" = .ok ("", "Computer") := by rfl
  have hguid : sampleDevice.guid.utf8ByteSize < PEER_SIZE - 1 := by decide
  constructor
  · have hlib : Reliable codeLib (codeSecret "123456") (codeSecret "123456") :=
      codeLib_reliable (iff_of_true rfl rfl)
    obtain ⟨sent, hsent⟩ := computer_eq [] hlib htext List.length_replicate rfl rfl
    have hpair := pair_computer quietEnv [] hlib hideal rfl rfl List.length_replicate
      List.length_replicate rfl hsent hguid hkey
    obtain ⟨answer, hanswer, -⟩ := (hpair.2 ⟨rfl, rfl⟩).2 rfl
    exact ⟨_, sent, answer, hsent, hanswer⟩
  · have hcodes : codeSecret "654321" ≠ codeSecret "123456" := by decide
    have hlib : Reliable codeLib (codeSecret "654321") (codeSecret "123456") :=
      codeLib_reliable (iff_of_false (by decide) hcodes)
    obtain ⟨sent, hsent⟩ := computer_eq [] hlib htext List.length_replicate rfl rfl
    have hpair := pair_computer quietEnv [] hlib hideal rfl rfl List.length_replicate
      List.length_replicate rfl hsent hguid hkey
    exact ⟨_, sent, hsent, hpair.1 fun h => by simp at h⟩

/-! ## The pairing thread -/

/-- A key that was shown is one that the pairing thread of the worker commits. -/
theorem Shown.commits {spake : Spake} {input sealed their : Bytes} {channel : Key} {p : Process}
    {j epoch : ℕ} (h : Shown codec lib spake input key channel sealed their)
    (hthread : p.pairings[j]? = some ⟨epoch, .exchanging⟩) :
    p.pairing codec j (.commit key) =
      p.enter (.pairResult epoch (some key)) fun c => Process.setPairing j (.committing key c) := by
  obtain ⟨value, hvalue⟩ := h.accepted
  simp [Process.pairing, hthread, hvalue]

end PairExchange

end Altdb
