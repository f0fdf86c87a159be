import Altdb.Link
import Altdb.StreamLifecycle
import Altdb.StreamOutput
import Altdb.StreamAcknowledgement

/-!
# The session of one device id

`Session` is the protocol between both parties about one id of the device: the
stream of the device, the packets in flight in both directions and what the
host knows.  Each constructor is a phase, and the lemmas below say how each
action of a party moves a session from phase to phase.
-/

namespace Altdb

/-! ## Counting packets -/

def packetCount (command : UInt32) (ps : List Packet) : ℕ :=
  ps.countP (·.command = command)

section

variable (command : UInt32) (p : Packet) (ps qs : List Packet)

@[simp] theorem packetCount_nil : packetCount command [] = 0 := rfl

@[simp] theorem packetCount_append :
    packetCount command (ps ++ qs) = packetCount command ps + packetCount command qs :=
  List.countP_append

@[simp] theorem packetCount_cons :
    packetCount command (p :: ps) =
      packetCount command ps + if p.command = command then 1 else 0 := by
  simp [packetCount, List.countP_cons]

end

theorem packetCount_eq_zero {command : UInt32} {ps : List Packet}
    (hnone : ∀ p ∈ ps, p.command ≠ command) : packetCount command ps = 0 := by
  rw [packetCount, List.countP_eq_zero]
  intro p hp
  simpa using hnone p hp

theorem packetCount_pos {command : UInt32} {ps : List Packet} {p : Packet}
    (hp : p ∈ ps) (hcommand : p.command = command) : 0 < packetCount command ps := by
  rw [packetCount, List.countP_pos_iff]
  exact ⟨p, hp, by simpa using hcommand⟩

/-! ## Flow of one pass -/

namespace Stream

theorem flushPending_length (s : Stream) (work : Bool)
    (script : List WriteOutcome) :
    (s.flushPending work script).stream.pending.length ≤ s.pending.length := by
  induction script generalizing s work with
  | nil =>
      unfold flushPending
      repeat' split
      all_goals exact le_rfl
  | cons outcome script ih =>
      unfold flushPending
      split
      · exact le_rfl
      · next data rest hpending =>
        split
        · exact le_rfl
        · next n _ hwrote =>
          dsimp only
          split
          · apply (ih _ true).trans
            simp [hpending]
          · exact ih { s with offset := _ } true
        · exact le_rfl
        · exact le_rfl

theorem service_length (s : Stream) (io : Io) (queued max : ℕ) (id : UInt32) :
    (s.service io queued max id).stream.pending.length ≤ s.pending.length := by
  have hflushed := s.flushPending_length false (io.write id)
  have hpass := s.service_pass io queued max id
  generalize s.service io queued max id = r at hpass ⊢
  cases hpass with
  | timeout => exact le_rfl
  | writeFailed | closing | ended | idle | read => exact hflushed

/-- A pass acknowledges at most what it takes from the queue, and sends data
only to a stream that does not wait. -/
theorem Queue.service_flow {s : Stream} (h : s.Queue) (io : Io) (queued max : ℕ)
    (id : UInt32) :
    packetCount OKAY (packets ((s.service io queued max id).log id)) +
        (s.service io queued max id).stream.pending.length ≤ s.pending.length ∧
      ((s.service io queued max id).closed = false →
        packetCount WRTE (packets ((s.service io queued max id).log id)) +
          s.waiting.toNat ≤ (s.service io queued max id).stream.waiting.toNat) := by
  constructor
  · rcases h.service_okay io queued max id with ⟨hnone, -⟩ |
      ⟨start, after, hlog, hstart, hafter, hpending, hempty, -⟩
    · rw [packetCount_eq_zero hnone, Nat.zero_add]
      exact s.service_length io queued max id
    · have hone : packetCount OKAY (packets ((s.service io queued max id).log id)) = 1 := by
        simp [hlog, hstart, packetCount_eq_zero hafter]
      rw [hone, hempty]
      exact List.length_pos_of_ne_nil hpending
  · intro hopen
    rcases s.service_output io queued max id with ⟨hokay, -, hwaiting⟩ |
      ⟨start, data, hlog, hstart, -, -, -, -, hidle, -, hwaiting⟩
    · have hnone : ∀ p ∈ packets ((s.service io queued max id).log id),
          p.command ≠ WRTE := by
        intro p hp
        rw [hokay p hp]
        decide
      rw [packetCount_eq_zero hnone, Nat.zero_add, hwaiting]
    · have hnone : ∀ p ∈ packets start, p.command ≠ WRTE := by
        intro p hp
        rw [hstart p hp]
        decide
      simp [hlog, packetCount_eq_zero hnone, hidle, hwaiting]

end Stream

/-! ## Sessions -/

/-- The host holds no stream with the id `d` of the device. -/
def Peer.Free (peer : Peer) (d : UInt32) : Prop :=
  ∀ h, (peer.stream h).device ≠ some d

/-- Only the stream that was set can hold an id that was free before. -/
theorem Peer.Free.of_setStream {peer : Peer} {d h h' : UInt32} {s : PeerStream}
    (hfree : peer.Free d) (hdevice : ((peer.setStream h s).stream h').device = some d) :
    h' = h := by
  by_cases heq : h = h'
  · exact heq.symm
  · rw [Peer.stream_setStream, if_neg heq] at hdevice
    exact absurd hdevice (hfree h')

/-- The host holds the stream `h` with the id `d`, and these packets are on
their way to the device. -/
structure Inbound (peer : Peer) (h d : UInt32) (inbox : List Packet) : Prop where
  nonzero : h ≠ 0
  device : (peer.stream h).device = some d
  only : ∀ h', (peer.stream h').device = some d → h' = h
  packets : ∀ p ∈ inbox, p.arg0 = h ∧
    (p.command = OKAY ∧ p.data = [] ∨ p.command = WRTE ∨ p.command = CLSE)
  last : inbox.Pairwise fun p _ => p.command ≠ CLSE
  closed : (∃ p ∈ inbox, p.command = CLSE) → peer.stream h = .closing d

/-- The device has offered the stream and the host has not accepted it as far
as the device knows. -/
structure Offering (v : StreamView) (outbox : List Packet) : Prop where
  allocated : v.allocated = true
  offered : Offered v.history
  unanswered : .accepted .opened ∉ v.history
  withdrawn : ∀ p ∈ outbox, p.command ≠ OPEN ∧ p.arg1 = 0
  stream : ∀ s, v.stream = some s →
    s.opening.isSome ∧ s.remote = 0 ∧ s.closing = none ∧ outbox = []

/-- Both parties hold the stream. -/
structure Bound (strict : Prop) (peer : Peer) (h d : UInt32) (s : Stream)
    (outbox inbox : List Packet) : Prop where
  inbound : Inbound peer h d inbox
  opening : s.opening = none
  remote : s.remote = h
  outgoing : ∀ p ∈ outbox, p.arg1 = h ∧ (p.command = OKAY ∨ p.command = WRTE)
  closing : s.closing.isSome → inbox = [] ∧ peer.stream h = .closing d
  output : strict → packetCount OKAY inbox + (peer.stream h).owed +
    packetCount WRTE outbox ≤ s.waiting.toNat
  input : strict → packetCount WRTE inbox + s.pending.length +
    packetCount OKAY outbox ≤ (peer.stream h).unacked.toNat

inductive Session (late strict : Prop) (peer : Peer) (d : UInt32)
    (v : StreamView) (outbox inbox : List Packet) : Prop
  | unused (hallocated : v.allocated = false) (hstream : v.stream = none)
      (hout : outbox = []) (hin : inbox = []) (hoffer : peer.offer d = .unseen)
      (hfree : peer.Free d)
  /-- The device has opened a stream of the host, which does not know yet. -/
  | answered (h : UInt32) (s : Stream) (rest : List Packet)
      (hstream : v.stream = some s) (hout : outbox = ⟨OKAY, d, h, []⟩ :: rest)
      (hin : inbox = []) (hoffer : peer.offer d = .unseen) (hfree : peer.Free d)
      (hpeer : peer.stream h = .opening) (hnonzero : h ≠ 0)
      (hopening : s.opening = none) (hremote : s.remote = h)
      (hclosing : s.closing = none) (hpending : s.pending = [])
      (hrest : ∀ p ∈ rest, p.arg1 = h ∧ p.command = WRTE)
      (hwaiting : packetCount WRTE rest ≤ s.waiting.toNat)
  | answeredGone (h : UInt32) (rest : List Packet)
      (hallocated : v.allocated = true) (hstream : v.stream = none)
      (hout : outbox = ⟨OKAY, d, h, []⟩ :: rest) (hin : inbox = [])
      (hoffer : peer.offer d = .unseen) (hfree : peer.Free d)
      (hpeer : peer.stream h = .opening) (hnonzero : h ≠ 0)
      (hrest : ∀ p ∈ rest, p.arg1 = h ∧ p.command ≠ OPEN)
      (hclose : ∃ p ∈ rest, p.command = CLSE)
  | offered (p : Packet) (rest : List Packet) (hoffering : Offering v rest)
      (hopen : p.command = OPEN) (hout : outbox = p :: rest) (hin : inbox = [])
      (hoffer : peer.offer d = .unseen) (hfree : peer.Free d)
  | pending (hoffering : Offering v outbox) (hin : inbox = [])
      (hoffer : peer.offer d = .pending) (hfree : peer.Free d)
  | refused (s : Stream) (hstream : v.stream = some s) (hout : outbox = [])
      (hopening : s.opening.isSome) (hremote : s.remote = 0)
      (hin : s.closing = none ∧ inbox = [⟨CLSE, 0, d, []⟩] ∨
        s.closing.isSome ∧ inbox = [])
      (hoffer : peer.offer d = .refused) (hfree : peer.Free d)
  /-- The host has accepted an offer, and the device does not know yet. -/
  | accepted (h : UInt32) (rest : List Packet) (hoffering : Offering v outbox)
      (hin : inbox = ⟨OKAY, h, d, []⟩ :: rest)
      (hinbound : Inbound peer h d inbox) (hoffer : peer.offer d = .accepted)
      (howed : strict → (peer.stream h).owed = 0 ∧ packetCount OKAY rest = 0)
      (hwrites : strict →
        packetCount WRTE rest ≤ (peer.stream h).unacked.toNat)
  | bound (h : UInt32) (s : Stream) (hstream : v.stream = some s)
      (hbound : Bound strict peer h d s outbox inbox)
      (hoffer : peer.offer d ≠ .pending)
  /-- The device has dropped the stream and tells the host. -/
  | ending (h : UInt32) (hallocated : v.allocated = true)
      (hstream : v.stream = none) (hinbound : Inbound peer h d inbox)
      (hoffer : peer.offer d ≠ .pending)
      (hout : ∀ p ∈ outbox, p.command ≠ OPEN ∧ (p.arg1 = h ∨ p.arg1 = 0))
      (hclose : ∃ p ∈ outbox, p.command = CLSE ∧ p.arg1 = h)
  /-- The host holds a stream that the device withdrew. -/
  | leaked (h : UInt32) (hlate : late) (hallocated : v.allocated = true)
      (hstream : v.stream = none) (hinbound : Inbound peer h d inbox)
      (hoffer : peer.offer d ≠ .pending)
      (hout : ∀ p ∈ outbox, p.command ≠ OPEN ∧ p.arg1 = 0)
  | ended (hallocated : v.allocated = true) (hstream : v.stream = none)
      (hfree : peer.Free d) (hoffer : peer.offer d ≠ .pending)
      (hout : ∀ p ∈ outbox, p.command ≠ OPEN ∧
        (p.arg1 = 0 ∨ peer.stream p.arg1 = .done))
      (hin : ∀ p ∈ inbox, p.arg0 = 0 ∨ peer.stream p.arg0 = .done)

variable {late strict : Prop} {peer peer' : Peer} {d h : UInt32}
  {v : StreamView} {outbox inbox : List Packet}

/-! ## The device serves its streams -/

theorem Offering.keep (io : Io) (queued max : ℕ) {s : Stream}
    {history : List StreamEvent} {a : Bool}
    (hoffering : Offering ⟨some s, history, a⟩ outbox)
    (hunopened : s.opening.isSome → s.pending = []) :
    packets ((s.service io queued max d).log d) = [] ∧
      Offering ⟨some (s.service io queued max d).stream,
        history ++ (s.service io queued max d).log d, a⟩ outbox := by
  obtain ⟨hopening, hremote, hclosing, hout⟩ := hoffering.stream s rfl
  obtain ⟨hframe, hframe', hframe''⟩ := s.service_frame io queued max d
  have hnone := Stream.service_silent hunopened hopening io queued max d
  refine ⟨hnone, hoffering.allocated, ?_, ?_, hoffering.withdrawn, ?_⟩
  · obtain ⟨p, hp, hcommand⟩ := hoffering.offered
    exact ⟨p, packets_append history _ ▸ List.mem_append_left _ hp, hcommand⟩
  · intro hmem
    rcases List.mem_append.mp hmem with hmem | hmem
    · exact hoffering.unanswered hmem
    · exact Connection.service_log_not_accepted io queued max d s hmem _ rfl
  · intro s' hs'
    obtain rfl := Option.some.inj hs'
    rw [hframe, hframe', hframe'']
    exact ⟨hopening, hremote, hclosing, hout⟩

/-- The offer is withdrawn. -/
theorem Offering.remove {s : Stream} {history : List StreamEvent} {a : Bool}
    {p : Packet} (hoffering : Offering ⟨some s, history, a⟩ outbox)
    (hp : p.command = CLSE ∧ p.arg1 = s.remote) :
    Offering ⟨none, history ++ [.sent p], a⟩ (outbox ++ [p]) := by
  obtain ⟨hopening, hremote, hclosing, hout⟩ := hoffering.stream s rfl
  refine ⟨hoffering.allocated, ?_, ?_, ?_, fun s' hs' => by cases hs'⟩
  · obtain ⟨q, hq, hcommand⟩ := hoffering.offered
    exact ⟨q, packets_append history _ ▸ List.mem_append_left _ hq, hcommand⟩
  · intro hmem
    rcases List.mem_append.mp hmem with hmem | hmem
    · exact hoffering.unanswered hmem
    · cases List.mem_singleton.mp hmem
  · intro q hq
    rw [hout, List.nil_append, List.mem_singleton] at hq
    subst q
    rw [hp.1, hp.2]
    exact ⟨by decide, hremote⟩

theorem Bound.keep (io : Io) (queued max : ℕ) {s : Stream}
    (hbound : Bound strict peer h d s outbox inbox) (hqueue : s.Queue)
    (hunopened : s.opening.isSome → s.pending = [])
    (hkept : (s.service io queued max d).closed = false) :
    Bound strict peer h d (s.service io queued max d).stream
      (outbox ++ packets ((s.service io queued max d).log d)) inbox := by
  obtain ⟨hframe, hframe', hframe''⟩ := s.service_frame io queued max d
  obtain ⟨hokays, hwrites⟩ := hqueue.service_flow io queued max d
  have hwrites := hwrites hkept
  refine ⟨hbound.inbound, ?_, ?_, ?_, ?_, ?_, ?_⟩
  · rw [hframe', hbound.opening]
  · rw [hframe, hbound.remote]
  · intro p hp
    rcases List.mem_append.mp hp with hp | hp
    · exact hbound.outgoing p hp
    · have hsent := Stream.service_packets hunopened io queued max d p hp
      exact ⟨hsent.2.1.trans hbound.remote, hsent.1⟩
  · rw [hframe'']
    exact hbound.closing
  · intro hstrict
    have houtput := hbound.output hstrict
    rw [packetCount_append]
    omega
  · intro hstrict
    have hinput := hbound.input hstrict
    rw [packetCount_append]
    omega

namespace Session

/-- A pass keeps the stream. -/
theorem keep (io : Io) (queued max : ℕ) {s : Stream}
    {history : List StreamEvent} {a : Bool}
    (hsession : Session late strict peer d ⟨some s, history, a⟩ outbox inbox)
    (hqueue : s.Queue) (hunopened : s.opening.isSome → s.pending = [])
    (hkept : (s.service io queued max d).closed = false) :
    Session late strict peer d
      ⟨some (s.service io queued max d).stream,
        history ++ (s.service io queued max d).log d, a⟩
      (outbox ++ packets ((s.service io queued max d).log d)) inbox := by
  obtain ⟨hframe, hframe', hframe''⟩ := s.service_frame io queued max d
  cases hsession with
  | unused _ hstream | answeredGone _ _ _ hstream | ending _ _ hstream
  | leaked _ _ _ hstream | ended _ hstream => cases hstream
  | answered h s₀ rest hstream hout hin hoffer hfree hpeer hnonzero hopening
      hremote hclosing hpending hrest hwaiting =>
      obtain rfl := Option.some.inj hstream
      obtain ⟨hokays, hwrites⟩ := hqueue.service_flow io queued max d
      have hwrites := hwrites hkept
      rw [hpending, List.length_nil] at hokays
      refine .answered h _ (rest ++ packets ((s.service io queued max d).log d)) rfl
        (by rw [hout, List.cons_append]) hin hoffer hfree hpeer hnonzero ?_ ?_ ?_ ?_
        ?_ ?_
      · rw [hframe', hopening]
      · rw [hframe, hremote]
      · rw [hframe'', hclosing]
      · exact List.length_eq_zero_iff.mp (by omega)
      · intro p hp
        rcases List.mem_append.mp hp with hp | hp
        · exact hrest p hp
        · have hsent := Stream.service_packets hunopened io queued max d p hp
          refine ⟨hsent.2.1.trans hremote, hsent.1.resolve_left fun hokay => ?_⟩
          have hpos := packetCount_pos hp hokay
          omega
      · rw [packetCount_append]
        omega
  | offered p rest hoffering hopen hout hin hoffer hfree =>
      obtain ⟨hnone, hoffering⟩ := hoffering.keep io queued max hunopened
      rw [hnone, List.append_nil]
      exact .offered p rest hoffering hopen hout hin hoffer hfree
  | pending hoffering hin hoffer hfree =>
      obtain ⟨hnone, hoffering⟩ := hoffering.keep io queued max hunopened
      rw [hnone, List.append_nil]
      exact .pending hoffering hin hoffer hfree
  | accepted h rest hoffering hin hinbound hoffer howed hwrites =>
      obtain ⟨hnone, hoffering⟩ := hoffering.keep io queued max hunopened
      rw [hnone, List.append_nil]
      exact .accepted h rest hoffering hin hinbound hoffer howed hwrites
  | refused s₀ hstream hout hopening hremote hin hoffer hfree =>
      obtain rfl := Option.some.inj hstream
      have hnone := Stream.service_silent hunopened hopening io queued max d
      rw [hnone, List.append_nil]
      exact .refused _ rfl hout (hframe' ▸ hopening) (hframe.trans hremote)
        (hframe'' ▸ hin) hoffer hfree
  | bound h s₀ hstream hbound hoffer =>
      obtain rfl := Option.some.inj hstream
      exact .bound h _ rfl (hbound.keep io queued max hqueue hunopened hkept) hoffer

/-- A pass removes the stream. -/
theorem remove (io : Io) (queued max : ℕ) {s : Stream}
    {history : List StreamEvent}
    (hsession : Session late strict peer d ⟨some s, history, true⟩ outbox inbox)
    (hunopened : s.opening.isSome → s.pending = []) :
    Session late strict peer d
      ⟨none, history ++ (s.service io queued max d).log d ++
        [.sent ⟨CLSE, d, (s.service io queued max d).stream.remote, []⟩], true⟩
      (outbox ++ (packets ((s.service io queued max d).log d) ++
        [⟨CLSE, d, (s.service io queued max d).stream.remote, []⟩])) inbox := by
  obtain ⟨hframe, -, -⟩ := s.service_frame io queued max d
  have hsent := Stream.service_packets hunopened io queued max d
  rw [hframe, ← List.append_assoc]
  cases hsession with
  | unused _ hstream | answeredGone _ _ _ hstream | ending _ _ hstream
  | leaked _ _ _ hstream | ended _ hstream => cases hstream
  | answered h s₀ rest hstream hout hin hoffer hfree hpeer hnonzero hopening
      hremote hclosing hpending hrest hwaiting =>
      obtain rfl := Option.some.inj hstream
      apply answeredGone h (rest ++ packets ((s.service io queued max d).log d) ++
        [⟨CLSE, d, s.remote, []⟩]) rfl rfl (by simp [hout]) hin hoffer hfree hpeer
        hnonzero
      · intro p hp
        rw [List.append_assoc] at hp
        rcases List.mem_append.mp hp with hp | hp
        · rw [(hrest p hp).2]
          exact ⟨(hrest p hp).1, by decide⟩
        · rcases List.mem_append.mp hp with hp | hp
          · refine ⟨(hsent p hp).2.1.trans hremote, ?_⟩
            rcases (hsent p hp).1 with hcommand | hcommand <;> rw [hcommand] <;> decide
          · rw [List.mem_singleton.mp hp]
            exact ⟨hremote, clse_ne_open⟩
      · exact ⟨⟨CLSE, d, s.remote, []⟩, by simp, rfl⟩
  | offered p rest hoffering hopen hout hin hoffer hfree =>
      obtain ⟨hnone, hkept⟩ := hoffering.keep io queued max hunopened
      rw [hnone, List.append_nil]
      exact .offered p (rest ++ [⟨CLSE, d, s.remote, []⟩])
        (hkept.remove ⟨rfl, hframe.symm⟩) hopen (by simp [hout]) hin hoffer hfree
  | pending hoffering hin hoffer hfree =>
      obtain ⟨hnone, hkept⟩ := hoffering.keep io queued max hunopened
      rw [hnone, List.append_nil]
      exact .pending (hkept.remove ⟨rfl, hframe.symm⟩) hin hoffer hfree
  | accepted h rest hoffering hin hinbound hoffer howed hwrites =>
      obtain ⟨hnone, hkept⟩ := hoffering.keep io queued max hunopened
      rw [hnone, List.append_nil]
      exact .accepted h rest (hkept.remove ⟨rfl, hframe.symm⟩) hin hinbound hoffer
        howed hwrites
  | refused s₀ hstream hout hopening hremote hin hoffer hfree =>
      obtain rfl := Option.some.inj hstream
      apply ended rfl rfl hfree (by simp [hoffer])
      · intro p hp
        rw [hout, List.nil_append] at hp
        rcases List.mem_append.mp hp with hp | hp
        · simp [(hsent p hp).2.2] at hopening
        · rw [List.mem_singleton.mp hp]
          exact ⟨clse_ne_open, .inl hremote⟩
      · intro p hp
        rcases hin with ⟨-, hin⟩ | ⟨-, hin⟩
        · rw [hin] at hp
          rw [List.mem_singleton.mp hp]
          exact .inl rfl
        · rw [hin] at hp
          cases hp
  | bound h s₀ hstream hbound hoffer =>
      obtain rfl := Option.some.inj hstream
      apply ending h rfl rfl hbound.inbound hoffer
      · intro p hp
        rw [List.append_assoc] at hp
        rcases List.mem_append.mp hp with hp | hp
        · refine ⟨?_, .inl (hbound.outgoing p hp).1⟩
          rcases (hbound.outgoing p hp).2 with hcommand | hcommand <;>
            rw [hcommand] <;> decide
        · rcases List.mem_append.mp hp with hp | hp
          · refine ⟨?_, .inl ((hsent p hp).2.1.trans hbound.remote)⟩
            rcases (hsent p hp).1 with hcommand | hcommand <;> rw [hcommand] <;> decide
          · rw [List.mem_singleton.mp hp]
            exact ⟨clse_ne_open, .inl hbound.remote⟩
      · exact ⟨⟨CLSE, d, s.remote, []⟩, by simp, rfl, hbound.remote⟩

/-! ## The device opens and offers streams -/

/-- Before the device allocates the id, neither party knows it. -/
theorem of_unallocated {history : List StreamEvent}
    (hsession : Session late strict peer d ⟨none, history, false⟩ outbox inbox) :
    outbox = [] ∧ inbox = [] ∧ peer.offer d = .unseen ∧ peer.Free d := by
  cases hsession with
  | unused _ _ hout hin hoffer hfree => exact ⟨hout, hin, hoffer, hfree⟩
  | answered _ _ _ hstream => cases hstream
  | answeredGone _ _ hallocated | ending _ hallocated | leaked _ _ hallocated
  | ended hallocated => cases hallocated
  | offered _ _ hoffering | pending hoffering | accepted _ _ hoffering =>
      cases hoffering.allocated
  | refused _ hstream | bound _ _ hstream => cases hstream

theorem openHost {history : List StreamEvent} (source : Source) {p : Packet}
    (hsession : Session late strict peer d ⟨none, history, false⟩ outbox inbox)
    (hpeer : peer.stream h = .opening) (hnonzero : h ≠ 0)
    (hp : p = ⟨OKAY, d, h, []⟩) :
    Session late strict peer d
      ⟨some (Connection.hostStream h source), history ++ [.sent p], true⟩
      (outbox ++ [p]) inbox := by
  obtain ⟨hout, hin, hoffer, hfree⟩ := hsession.of_unallocated
  exact .answered h _ [] rfl (by rw [hout, hp, List.nil_append]) hin hoffer hfree
    hpeer hnonzero rfl rfl rfl rfl (by simp) (Nat.zero_le _)

theorem offer {history : List StreamEvent} (fd : Fd) (now : Instant)
    (target : Bytes)
    (hsession : Session late strict peer d ⟨none, history, false⟩ outbox inbox)
    (hwf : (⟨none, history, false⟩ : StreamView).WellFormed) :
    Session late strict peer d
      ⟨some (Connection.reverseStream fd now),
        history ++ [.sent ⟨OPEN, d, 0, target⟩], true⟩
      (outbox ++ [⟨OPEN, d, 0, target⟩]) inbox := by
  obtain ⟨hout, hin, hoffer, hfree⟩ := hsession.of_unallocated
  refine .offered ⟨OPEN, d, 0, target⟩ [] ⟨rfl, ?_, ?_, by simp, ?_⟩ rfl
    (by rw [hout, List.nil_append]) hin hoffer hfree
  · exact ⟨⟨OPEN, d, 0, target⟩, by simp, rfl⟩
  · intro hmem
    rcases List.mem_append.mp hmem with hmem | hmem
    · exact hwf.unaccepted rfl _ hmem
    · cases List.mem_singleton.mp hmem
  · intro s hs
    obtain rfl := Option.some.inj hs
    exact ⟨rfl, rfl, rfl, rfl⟩

end Session

/-! ## A packet reaches the device -/

theorem Inbound.tail {p : Packet} (h₀ : Inbound peer h d (p :: inbox)) :
    Inbound peer h d inbox where
  nonzero := h₀.nonzero
  device := h₀.device
  only := h₀.only
  packets q hq := h₀.packets q (List.mem_cons_of_mem _ hq)
  last := (List.pairwise_cons.mp h₀.last).2
  closed := by
    rintro ⟨q, hq, hclose⟩
    exact h₀.closed ⟨q, List.mem_cons_of_mem _ hq, hclose⟩

namespace Session

variable {history : List StreamEvent} {s : Stream} {a : Bool} {p : Packet}

theorem ackOpen
    (hsession : Session late strict peer d ⟨some s, history, a⟩ outbox (p :: inbox))
    (hunopened : s.opening.isSome → s.pending = [])
    (hcommand : p.command = OKAY) (hopening : s.opening.isSome) :
    Session late strict peer d
      ⟨some { s with opening := none, remote := p.arg0 },
        history ++ [.accepted .opened], a⟩ outbox inbox := by
  cases hsession with
  | unused _ hstream | answeredGone _ _ _ hstream | ending _ _ hstream
  | leaked _ _ _ hstream | ended _ hstream => cases hstream
  | answered _ _ _ _ _ hin | offered _ _ _ _ _ hin | pending _ hin => cases hin
  | refused s₀ hstream hout hopening' hremote hin =>
      rcases hin with ⟨-, hin⟩ | ⟨-, hin⟩
      · obtain ⟨rfl, -⟩ := List.cons.inj hin
        exact absurd hcommand clse_ne_okay
      · cases hin
  | bound h s₀ hstream hbound =>
      obtain rfl := Option.some.inj hstream
      simp [hbound.opening] at hopening
  | accepted h rest hoffering hin hinbound hoffer howed hwrites =>
      obtain ⟨rfl, rfl⟩ := List.cons.inj hin
      obtain ⟨-, -, hclosing, hout⟩ := hoffering.stream s rfl
      refine .bound h _ rfl ⟨hinbound.tail, rfl, rfl, by simp [hout], ?_, ?_, ?_⟩
        (by simp [hoffer])
      · simp [hclosing]
      · intro hstrict
        obtain ⟨howed, hokays⟩ := howed hstrict
        simp [howed, hokays, hout]
      · intro hstrict
        have hwrites := hwrites hstrict
        simpa [hunopened hopening, hout] using hwrites

/-- The packets for a stream that is open on the device come from its host. -/
theorem bound_of_head
    (hsession : Session late strict peer d ⟨some s, history, a⟩ outbox (p :: inbox))
    (hopening : s.opening = none) :
    Bound strict peer s.remote d s outbox (p :: inbox) ∧ peer.offer d ≠ .pending := by
  cases hsession with
  | unused _ hstream | answeredGone _ _ _ hstream | ending _ _ hstream
  | leaked _ _ _ hstream | ended _ hstream => cases hstream
  | answered _ _ _ _ _ hin | offered _ _ _ _ _ hin | pending _ hin => cases hin
  | refused s₀ hstream _ hopening' =>
      obtain rfl := Option.some.inj hstream
      simp [hopening] at hopening'
  | accepted h rest hoffering =>
      have hopening' := (hoffering.stream s rfl).1
      simp [hopening] at hopening'
  | bound h s₀ hstream hbound hoffer =>
      obtain rfl := Option.some.inj hstream
      rw [hbound.remote]
      exact ⟨hbound, hoffer⟩

theorem ackData
    (hsession : Session late strict peer d ⟨some s, history, a⟩ outbox (p :: inbox))
    (hcommand : p.command = OKAY) (hopening : s.opening = none)
    (hwaiting : s.waiting = true) :
    Session late strict peer d
      ⟨some { s with waiting := false },
        history ++ [.accepted .acknowledged], a⟩ outbox inbox := by
  obtain ⟨hbound, hoffer⟩ := hsession.bound_of_head hopening
  refine .bound s.remote _ rfl ⟨hbound.inbound.tail, hopening, rfl, hbound.outgoing,
    ?_, ?_, ?_⟩ hoffer
  · intro hclosing
    exact absurd (hbound.closing hclosing).1 (by simp)
  · intro hstrict
    have houtput := hbound.output hstrict
    simp only [packetCount_cons, hcommand, if_true, hwaiting, Bool.toNat_true] at houtput
    simp only [Bool.toNat_false]
    omega
  · intro hstrict
    have hinput := hbound.input hstrict
    simp only [packetCount_cons, hcommand, wrte_ne_okay.symm, if_false] at hinput
    exact hinput

theorem write
    (hsession : Session late strict peer d ⟨some s, history, a⟩ outbox (p :: inbox))
    (hcommand : p.command = WRTE) (hopening : s.opening = none)
    (hclosing : s.closing = none) :
    Session late strict peer d
      ⟨some { s with pending := s.pending ++ [p.data] },
        history ++ [.accepted (.payload p.data)], a⟩ outbox inbox := by
  obtain ⟨hbound, hoffer⟩ := hsession.bound_of_head hopening
  refine .bound s.remote _ rfl ⟨hbound.inbound.tail, hopening, rfl, hbound.outgoing,
    ?_, ?_, ?_⟩ hoffer
  · simp [hclosing]
  · intro hstrict
    have houtput := hbound.output hstrict
    simp only [packetCount_cons, hcommand, wrte_ne_okay, if_false] at houtput
    exact houtput
  · intro hstrict
    have hinput := hbound.input hstrict
    simp only [packetCount_cons, hcommand, if_true] at hinput
    simp only [List.length_append, List.length_singleton]
    omega

theorem writeEmpty
    (hsession : Session late strict peer d ⟨some s, history, a⟩ outbox (p :: inbox))
    (hcommand : p.command = WRTE) (hopening : s.opening = none)
    (hclosing : s.closing = none) :
    Session late strict peer d
      ⟨some s, history ++ [.accepted (.payload []),
        .sent ⟨OKAY, d, s.remote, []⟩], a⟩
      (outbox ++ [⟨OKAY, d, s.remote, []⟩]) inbox := by
  obtain ⟨hbound, hoffer⟩ := hsession.bound_of_head hopening
  refine .bound s.remote _ rfl ⟨hbound.inbound.tail, hopening, rfl, ?_, ?_, ?_, ?_⟩
    hoffer
  · intro q hq
    rcases List.mem_append.mp hq with hq | hq
    · exact hbound.outgoing q hq
    · rw [List.mem_singleton.mp hq]
      exact ⟨rfl, .inl rfl⟩
  · simp [hclosing]
  · intro hstrict
    have houtput := hbound.output hstrict
    simp only [packetCount_cons, hcommand, wrte_ne_okay, if_false] at houtput
    simpa [wrte_ne_okay.symm] using houtput
  · intro hstrict
    have hinput := hbound.input hstrict
    simp only [packetCount_cons, hcommand, if_true] at hinput
    simp only [packetCount_append, packetCount_cons, packetCount_nil, if_true]
    omega

theorem close (now : Instant)
    (hsession : Session late strict peer d ⟨some s, history, a⟩ outbox (p :: inbox))
    (hcommand : p.command = CLSE) :
    Session late strict peer d
      ⟨some { s with closing := some now },
        history ++ [.accepted (.closed now)], a⟩ outbox inbox := by
  cases hsession with
  | unused _ hstream | answeredGone _ _ _ hstream | ending _ _ hstream
  | leaked _ _ _ hstream | ended _ hstream => cases hstream
  | answered _ _ _ _ _ hin | offered _ _ _ _ _ hin | pending _ hin => cases hin
  | refused s₀ hstream hout hopening hremote hin hoffer hfree =>
      obtain rfl := Option.some.inj hstream
      rcases hin with ⟨-, hin⟩ | ⟨-, hin⟩
      · obtain ⟨-, rfl⟩ := List.cons.inj hin
        exact .refused _ rfl hout hopening hremote (.inr ⟨rfl, rfl⟩) hoffer hfree
      · cases hin
  | accepted h rest hoffering hin =>
      obtain ⟨rfl, -⟩ := List.cons.inj hin
      exact absurd hcommand clse_ne_okay.symm
  | bound h s₀ hstream hbound hoffer =>
      obtain rfl := Option.some.inj hstream
      -- Nothing follows a close on its channel.
      have hnil : inbox = [] := by
        cases inbox with
        | nil => rfl
        | cons q rest =>
            have hlast := (List.pairwise_cons.mp hbound.inbound.last).1 q
              List.mem_cons_self
            exact absurd hcommand hlast
      have hclosed := hbound.inbound.closed ⟨p, List.mem_cons_self, hcommand⟩
      refine .bound h _ rfl ⟨hbound.inbound.tail, hbound.opening, hbound.remote,
        hbound.outgoing, fun _ => ⟨hnil, hclosed⟩, ?_, ?_⟩ hoffer
      · intro hstrict
        have houtput := hbound.output hstrict
        rw [packetCount_cons] at houtput
        simp only
        omega
      · intro hstrict
        have hinput := hbound.input hstrict
        rw [packetCount_cons] at hinput
        simp only
        omega

/-- An `OKAY` or `CLSE` for a stream that the device does not hold. -/
theorem drop
    (hsession : Session late strict peer d ⟨none, history, a⟩ outbox (p :: inbox))
    (hlate : p.command = OKAY → Offered history → .accepted .opened ∉ history →
      late) :
    Session late strict peer d ⟨none, history, a⟩ outbox inbox := by
  cases hsession with
  | unused _ _ _ hin | answeredGone _ _ _ _ _ hin | offered _ _ _ _ _ hin
  | pending _ hin => cases hin
  | answered _ _ _ hstream | refused _ hstream | bound _ _ hstream => cases hstream
  | accepted h rest hoffering hin hinbound hoffer =>
      obtain ⟨rfl, rfl⟩ := List.cons.inj hin
      exact .leaked h (hlate rfl hoffering.offered hoffering.unanswered)
        hoffering.allocated rfl hinbound.tail (by simp [hoffer]) hoffering.withdrawn
  | ending h hallocated hstream hinbound hoffer hout hclose =>
      exact .ending h hallocated hstream hinbound.tail hoffer hout hclose
  | leaked h hlate hallocated hstream hinbound hoffer hout =>
      exact .leaked h hlate hallocated hstream hinbound.tail hoffer hout
  | ended hallocated hstream hfree hoffer hout hin =>
      exact .ended hallocated hstream hfree hoffer hout fun q hq =>
        hin q (List.mem_cons_of_mem _ hq)

/-- A `WRTE` for a stream that the device does not hold is answered. -/
theorem stray
    (hsession : Session late strict peer d ⟨none, history, a⟩ outbox (p :: inbox))
    (hcommand : p.command = WRTE) :
    Session late strict peer d
      ⟨none, history ++ [.sent ⟨CLSE, d, p.arg0, []⟩], a⟩
      (outbox ++ [⟨CLSE, d, p.arg0, []⟩]) inbox := by
  have hopen := clse_ne_open
  cases hsession with
  | unused _ _ _ hin | answeredGone _ _ _ _ _ hin | offered _ _ _ _ _ hin
  | pending _ hin => cases hin
  | answered _ _ _ hstream | refused _ hstream | bound _ _ hstream => cases hstream
  | accepted h rest hoffering hin =>
      obtain ⟨rfl, -⟩ := List.cons.inj hin
      exact absurd hcommand wrte_ne_okay.symm
  | ending h hallocated hstream hinbound hoffer hout hclose =>
      have hh := (hinbound.packets p List.mem_cons_self).1
      refine .ending h hallocated rfl hinbound.tail hoffer ?_ ?_
      · intro q hq
        rcases List.mem_append.mp hq with hq | hq
        · exact hout q hq
        · rw [List.mem_singleton.mp hq]
          exact ⟨hopen, .inl hh⟩
      · obtain ⟨q, hq, hclose⟩ := hclose
        exact ⟨q, List.mem_append_left _ hq, hclose⟩
  | leaked h hlate hallocated hstream hinbound hoffer hout =>
      have hh := (hinbound.packets p List.mem_cons_self).1
      refine .ending h hallocated rfl hinbound.tail hoffer ?_ ?_
      · intro q hq
        rcases List.mem_append.mp hq with hq | hq
        · exact ⟨(hout q hq).1, .inr (hout q hq).2⟩
        · rw [List.mem_singleton.mp hq]
          exact ⟨hopen, .inl hh⟩
      · exact ⟨⟨CLSE, d, p.arg0, []⟩, by simp, rfl, hh⟩
  | ended hallocated hstream hfree hoffer hout hin =>
      refine .ended hallocated rfl hfree hoffer ?_ ?_
      · intro q hq
        rcases List.mem_append.mp hq with hq | hq
        · exact hout q hq
        · rw [List.mem_singleton.mp hq]
          exact ⟨hopen, hin p List.mem_cons_self⟩
      · exact fun q hq => hin q (List.mem_cons_of_mem _ hq)

end Session

/-! ## The host acts -/

/-- The host changes nothing that the session of `d` depends on. -/
structure Peer.Apart (d : UInt32) (outbox : List Packet) (peer peer' : Peer) :
    Prop where
  offer : peer'.offer d = peer.offer d
  stream : ∀ h, peer'.stream h = peer.stream h ∨
    (peer.stream h).device ≠ some d ∧ (peer'.stream h).device ≠ some d ∧
      peer.stream h ≠ .done ∧
      (peer.stream h = .opening → ∀ p ∈ outbox, p.arg1 ≠ h)

namespace Peer.Apart

variable (hapart : Peer.Apart d outbox peer peer')

include hapart

theorem free (hfree : peer.Free d) : peer'.Free d := by
  intro h
  rcases hapart.stream h with heq | ⟨-, hdevice, -⟩
  · rw [heq]
    exact hfree h
  · exact hdevice

theorem eq_of_device (hdevice : (peer.stream h).device = some d) :
    peer'.stream h = peer.stream h := by
  rcases hapart.stream h with heq | ⟨hne, -⟩
  · exact heq
  · exact absurd hdevice hne

theorem inbound (hinbound : Inbound peer h d inbox) : Inbound peer' h d inbox := by
  have heq := hapart.eq_of_device hinbound.device
  refine ⟨hinbound.nonzero, by rw [heq, hinbound.device], ?_, hinbound.packets,
    hinbound.last, by rw [heq]; exact hinbound.closed⟩
  intro h' hdevice
  rcases hapart.stream h' with heq' | ⟨-, hne, -⟩
  · rw [heq'] at hdevice
    exact hinbound.only h' hdevice
  · exact absurd hdevice hne

theorem opening {p : Packet} (hpeer : peer.stream h = .opening) (hp : p ∈ outbox)
    (hh : p.arg1 = h) : peer'.stream h = .opening := by
  rcases hapart.stream h with heq | ⟨-, -, -, hnone⟩
  · rw [heq, hpeer]
  · exact absurd hh (hnone hpeer p hp)

theorem done (hpeer : peer.stream h = .done) : peer'.stream h = .done := by
  rcases hapart.stream h with heq | ⟨-, -, hne, -⟩
  · rw [heq, hpeer]
  · exact absurd hpeer hne

end Peer.Apart

namespace Session

variable {p : Packet}

theorem frame (hsession : Session late strict peer d v outbox inbox)
    (hapart : Peer.Apart d outbox peer peer') :
    Session late strict peer' d v outbox inbox := by
  cases hsession with
  | unused hallocated hstream hout hin hoffer hfree =>
      exact .unused hallocated hstream hout hin (hapart.offer.trans hoffer)
        (hapart.free hfree)
  | answered h s rest hstream hout hin hoffer hfree hpeer hnonzero hopening
      hremote hclosing hpending hrest hwaiting =>
      have hpeer' := hapart.opening hpeer (hout ▸ List.mem_cons_self) rfl
      exact .answered h s rest hstream hout hin (hapart.offer.trans hoffer)
        (hapart.free hfree) hpeer' hnonzero hopening hremote hclosing hpending hrest
        hwaiting
  | answeredGone h rest hallocated hstream hout hin hoffer hfree hpeer hnonzero
      hrest hclose =>
      have hpeer' := hapart.opening hpeer (hout ▸ List.mem_cons_self) rfl
      exact .answeredGone h rest hallocated hstream hout hin
        (hapart.offer.trans hoffer) (hapart.free hfree) hpeer' hnonzero hrest hclose
  | offered p rest hoffering hopen hout hin hoffer hfree =>
      exact .offered p rest hoffering hopen hout hin (hapart.offer.trans hoffer)
        (hapart.free hfree)
  | pending hoffering hin hoffer hfree =>
      exact .pending hoffering hin (hapart.offer.trans hoffer) (hapart.free hfree)
  | refused s hstream hout hopening hremote hin hoffer hfree =>
      exact .refused s hstream hout hopening hremote hin (hapart.offer.trans hoffer)
        (hapart.free hfree)
  | accepted h rest hoffering hin hinbound hoffer howed hwrites =>
      have heq := hapart.eq_of_device hinbound.device
      exact .accepted h rest hoffering hin (hapart.inbound hinbound)
        (hapart.offer.trans hoffer) (heq ▸ howed) (heq ▸ hwrites)
  | bound h s hstream hbound hoffer =>
      have heq := hapart.eq_of_device hbound.inbound.device
      exact .bound h s hstream ⟨hapart.inbound hbound.inbound, hbound.opening,
        hbound.remote, hbound.outgoing, heq ▸ hbound.closing, heq ▸ hbound.output,
        heq ▸ hbound.input⟩ (hapart.offer ▸ hoffer)
  | ending h hallocated hstream hinbound hoffer hout hclose =>
      exact .ending h hallocated hstream (hapart.inbound hinbound)
        (hapart.offer ▸ hoffer) hout hclose
  | leaked h hlate hallocated hstream hinbound hoffer hout =>
      exact .leaked h hlate hallocated hstream (hapart.inbound hinbound)
        (hapart.offer ▸ hoffer) hout
  | ended hallocated hstream hfree hoffer hout hin =>
      refine .ended hallocated hstream (hapart.free hfree) (hapart.offer ▸ hoffer) ?_ ?_
      · intro q hq
        exact ⟨(hout q hq).1, (hout q hq).2.imp_right hapart.done⟩
      · intro q hq
        exact (hin q hq).imp_right hapart.done

end Session

theorem Inbound.update {s : PeerStream} (hinbound : Inbound peer h d inbox)
    (hdevice : s.device = some d)
    (hclosed : (∃ p ∈ inbox, p.command = CLSE) → s = .closing d) :
    Inbound (peer.setStream h s) h d inbox where
  nonzero := hinbound.nonzero
  device := by simpa using hdevice
  only h' hdevice' := by
    by_cases heq : h = h'
    · exact heq.symm
    · rw [Peer.stream_setStream, if_neg heq] at hdevice'
      exact hinbound.only h' hdevice'
  packets := hinbound.packets
  last := hinbound.last
  closed hclose := by simpa using hclosed hclose

/-- One more packet of the host. -/
theorem Inbound.post {p : Packet} {s : PeerStream} {unacked : Bool} {owed : ℕ}
    (hinbound : Inbound peer h d inbox)
    (hpeer : peer.stream h = .opened d unacked owed) (hdevice : s.device = some d)
    (hp : p.arg0 = h ∧
      (p.command = OKAY ∧ p.data = [] ∨ p.command = WRTE ∨ p.command = CLSE))
    (hclose : p.command = CLSE → s = .closing d) :
    Inbound (peer.setStream h s) h d (inbox ++ [p]) := by
  have hnone : ¬∃ q ∈ inbox, q.command = CLSE := by
    intro hsome
    have hclosing := hinbound.closed hsome
    rw [hpeer] at hclosing
    cases hclosing
  have hupdate := hinbound.update hdevice fun hsome => absurd hsome hnone
  refine ⟨hinbound.nonzero, hupdate.device, hupdate.only, ?_, ?_, ?_⟩
  · intro q hq
    rcases List.mem_append.mp hq with hq | hq
    · exact hinbound.packets q hq
    · rw [List.mem_singleton.mp hq]
      exact hp
  · refine List.pairwise_append.mpr ⟨hinbound.last, List.pairwise_singleton _ _, ?_⟩
    exact fun q hq _ _ hcommand => hnone ⟨q, hq, hcommand⟩
  · rintro ⟨q, hq, hcommand⟩
    rcases List.mem_append.mp hq with hq | hq
    · exact absurd ⟨q, hq, hcommand⟩ hnone
    · rw [List.mem_singleton.mp hq] at hcommand
      simpa using hclose hcommand

namespace Session

variable {p : Packet}

/-- The host sends a packet on a stream that it holds open. -/
theorem post {s : PeerStream} {unacked : Bool} {owed : ℕ}
    (hsession : Session late strict peer d v outbox inbox)
    (hpeer : peer.stream h = .opened d unacked owed) (hdevice : s.device = some d)
    (hp : p.arg0 = h ∧
      (p.command = OKAY ∧ p.data = [] ∨ p.command = WRTE ∨ p.command = CLSE))
    (hclose : p.command = CLSE → s = .closing d)
    (hflow : strict → packetCount OKAY [p] + s.owed ≤ owed ∧
      packetCount WRTE [p] + unacked.toNat ≤ s.unacked.toNat) :
    Session late strict (peer.setStream h s) d v outbox (inbox ++ [p]) := by
  have hholds : (peer.stream h).device = some d := by rw [hpeer]; rfl
  cases hsession with
  | unused _ _ _ _ _ hfree | answered _ _ _ _ _ _ _ hfree
  | answeredGone _ _ _ _ _ _ _ hfree | offered _ _ _ _ _ _ _ hfree
  | pending _ _ _ hfree | refused _ _ _ _ _ _ _ hfree | ended _ _ hfree =>
      exact absurd hholds (hfree h)
  | accepted h₀ rest hoffering hin hinbound hoffer howed hwrites =>
      obtain rfl := hinbound.only h hholds
      refine .accepted h (rest ++ [p]) hoffering (by rw [hin, List.cons_append])
        (hinbound.post hpeer hdevice hp hclose) hoffer ?_ ?_
      · intro hstrict
        obtain ⟨hzero, hokays⟩ := howed hstrict
        have hflow := (hflow hstrict).1
        rw [hpeer] at hzero
        change owed = 0 at hzero
        rw [Peer.stream_setStream, if_pos rfl, packetCount_append]
        omega
      · intro hstrict
        have hwrites := hwrites hstrict
        have hflow := (hflow hstrict).2
        rw [hpeer] at hwrites
        change _ ≤ unacked.toNat at hwrites
        rw [Peer.stream_setStream, if_pos rfl, packetCount_append]
        omega
  | bound h₀ s₀ hstream hbound hoffer =>
      obtain rfl := hbound.inbound.only h hholds
      refine .bound h s₀ hstream ⟨hbound.inbound.post hpeer hdevice hp hclose,
        hbound.opening, hbound.remote, hbound.outgoing, ?_, ?_, ?_⟩ hoffer
      · intro hclosing
        have hclosed := (hbound.closing hclosing).2
        rw [hpeer] at hclosed
        cases hclosed
      · intro hstrict
        have houtput := hbound.output hstrict
        have hflow := (hflow hstrict).1
        rw [hpeer] at houtput
        change _ + owed + _ ≤ _ at houtput
        rw [Peer.stream_setStream, if_pos rfl, packetCount_append]
        omega
      · intro hstrict
        have hinput := hbound.input hstrict
        have hflow := (hflow hstrict).2
        rw [hpeer] at hinput
        change _ ≤ unacked.toNat at hinput
        rw [Peer.stream_setStream, if_pos rfl, packetCount_append]
        omega
  | ending h₀ hallocated hstream hinbound hoffer hout hclosed =>
      obtain rfl := hinbound.only h hholds
      exact .ending h hallocated hstream (hinbound.post hpeer hdevice hp hclose)
        hoffer hout hclosed
  | leaked h₀ hlate hallocated hstream hinbound hoffer hout =>
      obtain rfl := hinbound.only h hholds
      exact .leaked h hlate hallocated hstream
        (hinbound.post hpeer hdevice hp hclose) hoffer hout

/-- An offer that waits for the answer of the host. -/
theorem pending_of_offer (hsession : Session late strict peer d v outbox inbox)
    (hoffer : peer.offer d = .pending) :
    Offering v outbox ∧ inbox = [] ∧ peer.Free d := by
  cases hsession with
  | pending hoffering hin _ hfree => exact ⟨hoffering, hin, hfree⟩
  | unused _ _ _ _ hother | answered _ _ _ _ _ _ hother
  | answeredGone _ _ _ _ _ _ hother | offered _ _ _ _ _ _ hother
  | refused _ _ _ _ _ _ hother | accepted _ _ _ _ _ hother =>
      rw [hoffer] at hother
      cases hother
  | bound _ _ _ _ hother | ending _ _ _ _ hother | leaked _ _ _ _ _ hother
  | ended _ _ _ hother => exact absurd hoffer hother

theorem accept (hsession : Session late strict peer d v outbox inbox)
    (hoffer : peer.offer d = .pending) (hnonzero : h ≠ 0) :
    Session late strict
      ((peer.setOffer d .accepted).setStream h (.opened d false 0)) d v outbox
      (inbox ++ [⟨OKAY, h, d, []⟩]) := by
  obtain ⟨hoffering, rfl, hfree⟩ := hsession.pending_of_offer hoffer
  refine .accepted h [] hoffering rfl ⟨hnonzero, by simp [PeerStream.device], ?_,
    by simp, by simp, ?_⟩ (by simp) ?_ ?_
  · have hfree' : (peer.setOffer d .accepted).Free d := hfree
    exact fun h' => hfree'.of_setStream
  · rintro ⟨q, hq, hclose⟩
    obtain rfl := List.mem_singleton.mp hq
    exact absurd hclose clse_ne_okay.symm
  · intro hstrict
    simp [PeerStream.owed]
  · intro hstrict
    exact Nat.zero_le _

theorem refuse (hsession : Session late strict peer d v outbox inbox)
    (hoffer : peer.offer d = .pending) :
    Session late strict (peer.setOffer d .refused) d v outbox
      (inbox ++ [⟨CLSE, 0, d, []⟩]) := by
  obtain ⟨hoffering, rfl, hfree⟩ := hsession.pending_of_offer hoffer
  cases hstream : v.stream with
  | none =>
      refine .ended hoffering.allocated hstream hfree (by simp) ?_ ?_
      · intro q hq
        exact ⟨(hoffering.withdrawn q hq).1, .inl (hoffering.withdrawn q hq).2⟩
      · intro q hq
        rw [List.nil_append, List.mem_singleton] at hq
        subst q
        exact .inl rfl
  | some s =>
      obtain ⟨hopening, hremote, hclosing, hout⟩ := hoffering.stream s hstream
      exact .refused s hstream hout hopening hremote (.inl ⟨hclosing, rfl⟩) (by simp)
        hfree

end Session

/-! ## A packet reaches the host -/

section

variable {p : Packet} {unacked : Bool} {owed : ℕ}

theorem Peer.receive_open (hcommand : p.command = OPEN) :
    peer.receive p = (peer.setOffer p.arg0 .pending, []) := by
  simp [Peer.receive, hcommand]

theorem Peer.receive_ignored (hcommand : p.command ≠ OPEN)
    (hstream : peer.stream p.arg1 = .idle ∨ peer.stream p.arg1 = .done) :
    peer.receive p = (peer, []) := by
  unfold Peer.receive
  rw [if_neg hcommand]
  rcases hstream with hstream | hstream <;> rw [hstream]

theorem Peer.receive_opening (hcommand : p.command = OKAY)
    (hstream : peer.stream p.arg1 = .opening) :
    peer.receive p = (peer.setStream p.arg1 (.opened p.arg0 false 0), []) := by
  unfold Peer.receive
  rw [if_neg (hcommand ▸ okay_ne_open), hstream]
  exact if_pos hcommand

theorem Peer.receive_okay (hcommand : p.command = OKAY)
    (hstream : peer.stream p.arg1 = .opened p.arg0 unacked owed) :
    peer.receive p = (peer.setStream p.arg1 (.opened p.arg0 false owed), []) := by
  simp [Peer.receive, hcommand, hstream, okay_ne_open]

theorem Peer.receive_write (hcommand : p.command = WRTE)
    (hstream : peer.stream p.arg1 = .opened p.arg0 unacked owed) :
    peer.receive p =
      (peer.setStream p.arg1 (.opened p.arg0 unacked (owed + 1)), []) := by
  simp [Peer.receive, hcommand, hstream, wrte_ne_open,
    wrte_ne_okay]

theorem Peer.receive_close (hcommand : p.command = CLSE)
    (hstream : peer.stream p.arg1 = .opened p.arg0 unacked owed) :
    peer.receive p =
      (peer.setStream p.arg1 .done, [⟨CLSE, p.arg1, p.arg0, []⟩]) := by
  simp [Peer.receive, hcommand, hstream, clse_ne_open,
    clse_ne_okay, clse_ne_wrte]

theorem Peer.receive_closing (hcommand : p.command ≠ OPEN)
    (hstream : peer.stream p.arg1 = .closing p.arg0) :
    peer.receive p =
      (if p.command = CLSE then peer.setStream p.arg1 .done else peer, []) := by
  unfold Peer.receive
  rw [if_neg hcommand, hstream]
  by_cases hclose : p.command = CLSE <;> simp [hclose]

end

/-- The host stream is known from its device. -/
theorem PeerStream.eq_of_device {s : PeerStream} (h : s.device = some d) :
    (∃ unacked owed, s = .opened d unacked owed) ∨ s = .closing d := by
  cases s with
  | idle | opening | done => cases h
  | opened d' unacked owed =>
      obtain rfl := Option.some.inj h
      exact .inl ⟨unacked, owed, rfl⟩
  | closing d' =>
      obtain rfl := Option.some.inj h
      exact .inr rfl

theorem Offering.tail {p : Packet} (hoffering : Offering v (p :: outbox)) :
    Offering v outbox where
  allocated := hoffering.allocated
  offered := hoffering.offered
  unanswered := hoffering.unanswered
  withdrawn q hq := hoffering.withdrawn q (List.mem_cons_of_mem _ hq)
  stream s hs := by
    have hstream := hoffering.stream s hs
    simp at hstream

theorem Bound.receive {p : Packet} {s : Stream}
    (hbound : Bound strict peer h p.arg0 s (p :: outbox) inbox) :
    Bound strict (peer.receive p).1 h p.arg0 s outbox
      (inbox ++ (peer.receive p).2) := by
  obtain ⟨rfl, hcommand⟩ := hbound.outgoing p List.mem_cons_self
  have houtgoing : ∀ q ∈ outbox, q.arg1 = p.arg1 ∧
      (q.command = OKAY ∨ q.command = WRTE) :=
    fun q hq => hbound.outgoing q (List.mem_cons_of_mem _ hq)
  have houtput := hbound.output
  have hinput := hbound.input
  have hbit : ∀ b : Bool, b.toNat ≤ 1 := Bool.toNat_le
  rcases PeerStream.eq_of_device hbound.inbound.device with
    ⟨unacked, owed, hpeer⟩ | hpeer
  · have hnone : ¬∃ q ∈ inbox, q.command = CLSE := by
      intro hsome
      have hclosing := hbound.inbound.closed hsome
      rw [hpeer] at hclosing
      cases hclosing
    have hopen : s.closing.isSome → False := by
      intro hclosing
      have hclosed := (hbound.closing hclosing).2
      rw [hpeer] at hclosed
      cases hclosed
    rw [hpeer] at houtput hinput
    rcases hcommand with hcommand | hcommand
    · rw [Peer.receive_okay hcommand hpeer, List.append_nil]
      refine ⟨hbound.inbound.update rfl fun hsome => absurd hsome hnone,
        hbound.opening, hbound.remote, houtgoing, fun hclosing => (hopen hclosing).elim,
        ?_, ?_⟩
      · intro hstrict
        have houtput := houtput hstrict
        rw [packetCount_cons] at houtput
        rw [Peer.stream_setStream, if_pos rfl]
        change _ + owed + _ ≤ _ at houtput ⊢
        omega
      · intro hstrict
        have hinput := hinput hstrict
        rw [packetCount_cons, if_pos hcommand] at hinput
        rw [Peer.stream_setStream, if_pos rfl]
        have hone := hbit unacked
        change _ ≤ unacked.toNat at hinput
        change _ ≤ 0
        omega
    · rw [Peer.receive_write hcommand hpeer, List.append_nil]
      refine ⟨hbound.inbound.update rfl fun hsome => absurd hsome hnone,
        hbound.opening, hbound.remote, houtgoing, fun hclosing => (hopen hclosing).elim,
        ?_, ?_⟩
      · intro hstrict
        have houtput := houtput hstrict
        rw [packetCount_cons, if_pos hcommand] at houtput
        rw [Peer.stream_setStream, if_pos rfl]
        change _ + owed + _ ≤ _ at houtput
        change _ + (owed + 1) + _ ≤ _
        omega
      · intro hstrict
        have hinput := hinput hstrict
        rw [packetCount_cons] at hinput
        rw [Peer.stream_setStream, if_pos rfl]
        change _ ≤ unacked.toNat at hinput ⊢
        omega
  · have hopen : p.command ≠ OPEN := by
      rcases hcommand with hcommand | hcommand <;> rw [hcommand] <;> decide
    have hclose : p.command ≠ CLSE := by
      rcases hcommand with hcommand | hcommand <;> rw [hcommand] <;> decide
    rw [Peer.receive_closing hopen hpeer, if_neg hclose, List.append_nil]
    refine ⟨hbound.inbound, hbound.opening, hbound.remote, houtgoing, hbound.closing,
      ?_, ?_⟩
    · intro hstrict
      have houtput := houtput hstrict
      rw [packetCount_cons] at houtput
      dsimp only
      omega
    · intro hstrict
      have hinput := hinput hstrict
      rw [packetCount_cons] at hinput
      dsimp only
      omega

/-- A packet other than `CLSE` on a stream that the host holds. -/
theorem Inbound.receive {p : Packet} (hinbound : Inbound peer p.arg1 p.arg0 inbox)
    (hopen : p.command ≠ OPEN) (hclose : p.command ≠ CLSE) :
    Inbound (peer.receive p).1 p.arg1 p.arg0 inbox ∧ (peer.receive p).2 = [] ∧
      (peer.receive p).1.offer p.arg0 = peer.offer p.arg0 := by
  rcases PeerStream.eq_of_device hinbound.device with ⟨unacked, owed, hpeer⟩ | hpeer
  · have hnone : ¬∃ q ∈ inbox, q.command = CLSE := by
      intro hsome
      have hclosing := hinbound.closed hsome
      rw [hpeer] at hclosing
      cases hclosing
    by_cases hokay : p.command = OKAY
    · rw [Peer.receive_okay hokay hpeer]
      exact ⟨hinbound.update rfl fun hsome => absurd hsome hnone, rfl, rfl⟩
    · by_cases hwrite : p.command = WRTE
      · rw [Peer.receive_write hwrite hpeer]
        exact ⟨hinbound.update rfl fun hsome => absurd hsome hnone, rfl, rfl⟩
      · have hignored : peer.receive p = (peer, []) := by
          simp [Peer.receive, hpeer, hopen, hokay, hwrite, hclose]
        rw [hignored]
        exact ⟨hinbound, rfl, rfl⟩
  · rw [Peer.receive_closing hopen hpeer, if_neg hclose]
    exact ⟨hinbound, rfl, rfl⟩

namespace Session

/-- The device told the host that it dropped the stream. -/
theorem receive_ending {p : Packet}
    (hallocated : v.allocated = true) (hstream : v.stream = none)
    (hinbound : Inbound peer p.arg1 p.arg0 inbox)
    (hoffer : peer.offer p.arg0 ≠ .pending) (hopen : p.command ≠ OPEN)
    (hout : ∀ q ∈ outbox, q.command ≠ OPEN ∧ (q.arg1 = p.arg1 ∨ q.arg1 = 0))
    (hclose : ∃ q ∈ p :: outbox, q.command = CLSE ∧ q.arg1 = p.arg1) :
    Session late strict (peer.receive p).1 p.arg0 v outbox
      (inbox ++ (peer.receive p).2) := by
  by_cases hlast : p.command = CLSE
  · have hdone : ∀ more : List Packet, (∀ q ∈ more, q.arg0 = p.arg1) →
        Session late strict (peer.setStream p.arg1 .done) p.arg0 v outbox
          (inbox ++ more) := by
      intro more hmore
      refine .ended hallocated hstream ?_ hoffer ?_ ?_
      · intro h' hdevice
        by_cases heq : p.arg1 = h'
        · rw [Peer.stream_setStream, if_pos heq] at hdevice
          cases hdevice
        · rw [Peer.stream_setStream, if_neg heq] at hdevice
          exact heq (hinbound.only h' hdevice).symm
      · intro q hq
        refine ⟨(hout q hq).1, ?_⟩
        rcases (hout q hq).2 with heq | hzero
        · exact .inr (by simp [heq])
        · exact .inl hzero
      · intro q hq
        have heq : q.arg0 = p.arg1 := by
          rcases List.mem_append.mp hq with hq | hq
          · exact (hinbound.packets q hq).1
          · exact hmore q hq
        exact .inr (by simp [heq])
    rcases PeerStream.eq_of_device hinbound.device with ⟨unacked, owed, hpeer⟩ | hpeer
    · rw [Peer.receive_close hlast hpeer]
      exact hdone _ (by simp)
    · rw [Peer.receive_closing hopen hpeer, if_pos hlast]
      exact hdone [] (by simp)
  · have hclose' : ∃ q ∈ outbox, q.command = CLSE ∧ q.arg1 = p.arg1 := by
      obtain ⟨q, hq, hcommand⟩ := hclose
      rcases List.mem_cons.mp hq with rfl | hq
      · exact absurd hcommand.1 hlast
      · exact ⟨q, hq, hcommand⟩
    obtain ⟨hinbound', hanswer, hoffer'⟩ := hinbound.receive hopen hlast
    rw [hanswer, List.append_nil]
    exact .ending p.arg1 hallocated hstream hinbound' (hoffer' ▸ hoffer) hout hclose'

/-- The host takes the next packet of the device. -/
theorem receive {p : Packet}
    (hsession : Session late strict peer p.arg0 v (p :: outbox) inbox)
    (hzero : peer.stream 0 = .idle) :
    Session late strict (peer.receive p).1 p.arg0 v outbox
      (inbox ++ (peer.receive p).2) := by
  have hignored : p.command ≠ OPEN → p.arg1 = 0 → peer.receive p = (peer, []) :=
    fun hcommand hnone => Peer.receive_ignored hcommand (.inl (by rw [hnone, hzero]))
  cases hsession with
  | unused _ _ hout | refused _ _ hout => cases hout
  | answered h s rest hstream hout hin hoffer hfree hpeer hnonzero hopening
      hremote hclosing hpending hrest hwaiting =>
      obtain ⟨hp, rfl⟩ := List.cons.inj hout
      obtain ⟨hcommand, hh⟩ : p.command = OKAY ∧ p.arg1 = h := by
        rw [hp]
        exact ⟨rfl, rfl⟩
      subst hh
      have hokays : packetCount OKAY outbox = 0 :=
        packetCount_eq_zero fun q hq => by
          rw [(hrest q hq).2]
          decide
      rw [Peer.receive_opening hcommand hpeer, hin]
      refine .bound p.arg1 s hstream ⟨⟨hnonzero, by simp [PeerStream.device], ?_,
        by simp, by simp, by simp⟩, hopening, hremote, ?_, by simp [hclosing], ?_, ?_⟩
        (by simp [hoffer])
      · exact fun h' => hfree.of_setStream
      · exact fun q hq => ⟨(hrest q hq).1, .inr (hrest q hq).2⟩
      · intro hstrict
        simpa [PeerStream.owed] using hwaiting
      · intro hstrict
        simp [hpending, hokays]
  | answeredGone h rest hallocated hstream hout hin hoffer hfree hpeer hnonzero
      hrest hclose =>
      obtain ⟨hp, rfl⟩ := List.cons.inj hout
      obtain ⟨hcommand, hh⟩ : p.command = OKAY ∧ p.arg1 = h := by
        rw [hp]
        exact ⟨rfl, rfl⟩
      subst hh
      rw [Peer.receive_opening hcommand hpeer, hin]
      refine .ending p.arg1 hallocated hstream ⟨hnonzero, by simp [PeerStream.device],
        ?_, by simp, by simp, by simp⟩ (by simp [hoffer]) ?_ ?_
      · exact fun h' => hfree.of_setStream
      · exact fun q hq => ⟨(hrest q hq).2, .inl (hrest q hq).1⟩
      · obtain ⟨q, hq, hcommand⟩ := hclose
        exact ⟨q, hq, hcommand, (hrest q hq).1⟩
  | offered q rest hoffering hopen hout hin hoffer hfree =>
      obtain ⟨rfl, rfl⟩ := List.cons.inj hout
      rw [Peer.receive_open hopen, hin]
      exact .pending hoffering rfl (by simp) hfree
  | pending hoffering hin hoffer hfree =>
      obtain ⟨hcommand, hnone⟩ := hoffering.withdrawn p List.mem_cons_self
      rw [hignored hcommand hnone, List.append_nil]
      exact .pending hoffering.tail hin hoffer hfree
  | accepted h rest hoffering hin hinbound hoffer howed hwrites =>
      obtain ⟨hcommand, hnone⟩ := hoffering.withdrawn p List.mem_cons_self
      rw [hignored hcommand hnone, List.append_nil]
      exact .accepted h rest hoffering.tail hin hinbound hoffer howed hwrites
  | bound h s hstream hbound hoffer =>
      obtain ⟨rfl, hcommand⟩ := hbound.outgoing p List.mem_cons_self
      have hopen : p.command ≠ OPEN := by
        rcases hcommand with hcommand | hcommand <;> rw [hcommand] <;> decide
      have hclose : p.command ≠ CLSE := by
        rcases hcommand with hcommand | hcommand <;> rw [hcommand] <;> decide
      obtain ⟨-, -, hoffer'⟩ := hbound.inbound.receive hopen hclose
      exact .bound p.arg1 s hstream hbound.receive (hoffer' ▸ hoffer)
  | ending h hallocated hstream hinbound hoffer hout hclose =>
      obtain ⟨hopen, hh⟩ := hout p List.mem_cons_self
      have hrest : ∀ q ∈ outbox, q.command ≠ OPEN ∧ (q.arg1 = h ∨ q.arg1 = 0) :=
        fun q hq => hout q (List.mem_cons_of_mem _ hq)
      rcases hh with rfl | hnone
      · exact receive_ending hallocated hstream hinbound hoffer hopen hrest hclose
      · rw [hignored hopen hnone, List.append_nil]
        refine .ending h hallocated hstream hinbound hoffer hrest ?_
        obtain ⟨q, hq, hcommand, hh⟩ := hclose
        rcases List.mem_cons.mp hq with rfl | hq
        · exact absurd (hh.symm.trans hnone) hinbound.nonzero
        · exact ⟨q, hq, hcommand, hh⟩
  | leaked h hlate hallocated hstream hinbound hoffer hout =>
      obtain ⟨hcommand, hnone⟩ := hout p List.mem_cons_self
      rw [hignored hcommand hnone, List.append_nil]
      exact .leaked h hlate hallocated hstream hinbound hoffer fun q hq =>
        hout q (List.mem_cons_of_mem _ hq)
  | ended hallocated hstream hfree hoffer hout hin =>
      obtain ⟨hcommand, hdone⟩ := hout p List.mem_cons_self
      have hnone : peer.receive p = (peer, []) := by
        rcases hdone with hnone | hdone
        · exact hignored hcommand hnone
        · exact Peer.receive_ignored hcommand (.inr hdone)
      rw [hnone, List.append_nil]
      exact .ended hallocated hstream hfree hoffer
        (fun q hq => hout q (List.mem_cons_of_mem _ hq)) hin

end Session

end Altdb
