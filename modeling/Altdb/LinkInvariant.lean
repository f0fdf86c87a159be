import Altdb.LinkSession

/-!
# The invariant of both parties

Every id of the device has a session, and the packets that open streams of the
host or answer them are unique.  Both are kept by every step of either party.
-/

namespace Altdb

open Fallible Relation

/-! ## Packets of one id -/

/-- The packets for the host that concern the id `d` of the device. -/
def outboxOf (d : UInt32) (ps : List Packet) : List Packet :=
  ps.filter (·.arg0 = d)

/-- The packets for the device that concern its id `d`. -/
def inboxOf (d : UInt32) (ps : List Packet) : List Packet :=
  ps.filter fun p => p.arg1 = d ∧ p.command ≠ OPEN

section

variable (d : UInt32) (p : Packet) (ps qs : List Packet)

@[simp] theorem outboxOf_append :
    outboxOf d (ps ++ qs) = outboxOf d ps ++ outboxOf d qs :=
  List.filter_append ..

@[simp] theorem outboxOf_nil : outboxOf d [] = [] := rfl

theorem outboxOf_cons :
    outboxOf d (p :: ps) = if p.arg0 = d then p :: outboxOf d ps else outboxOf d ps := by
  simp [outboxOf, List.filter_cons]

@[simp] theorem inboxOf_append :
    inboxOf d (ps ++ qs) = inboxOf d ps ++ inboxOf d qs :=
  List.filter_append ..

@[simp] theorem inboxOf_nil : inboxOf d [] = [] := rfl

theorem inboxOf_cons :
    inboxOf d (p :: ps) =
      if p.arg1 = d ∧ p.command ≠ OPEN then p :: inboxOf d ps else inboxOf d ps := by
  simp [inboxOf, List.filter_cons]

end

theorem mem_outboxOf {d : UInt32} {p : Packet} {ps : List Packet} :
    p ∈ outboxOf d ps ↔ p ∈ ps ∧ p.arg0 = d := by
  simp [outboxOf]

namespace Connection

variable {c c' : Connection}

/-- The packets of a history are those sent under the id. -/
theorem outboxOf_sent (c : Connection) (d : UInt32) :
    outboxOf d c.sent = packets (c.history d) := by
  unfold sent Connection.history outboxOf packets
  induction c.transcript with
  | nil => rfl
  | cons o rest ih =>
      cases o with
      | sent p =>
          by_cases hp : p.arg0 = d
          · simpa [Observation.about, hp, StreamEvent.packet?] using ih
          · simpa [Observation.about, hp] using ih
      | accepted id what | wrote id data | read id data =>
          by_cases hid : id = d <;>
            simpa [Observation.about, hid, StreamEvent.packet?] using ih
      | called r => simpa [Observation.about] using ih

/-- The new packets of an id are those of the new events. -/
theorem outboxOf_new {ps : List Packet} {d : UInt32} {more : List StreamEvent}
    (hsent : c'.sent = c.sent ++ ps)
    (hhistory : c'.history d = c.history d ++ more) :
    outboxOf d ps = packets more := by
  have heq := outboxOf_sent c' d
  rw [hsent, hhistory, outboxOf_append, packets_append, outboxOf_sent] at heq
  exact List.append_cancel_left heq

end Connection

/-! ## Opening packets and their answers -/

/-- Each `OPEN` of the host has at most one answer. -/
structure Tokens (peer : Peer) (toDevice toPeer : List Packet) : Prop where
  commands : ∀ p ∈ toDevice, p.command ∈ [OPEN, OKAY, WRTE, CLSE]
  opens : ∀ p ∈ toDevice, p.command = OPEN → p.arg0 ≠ 0 ∧ p.arg1 = 0 ∧
    peer.stream p.arg0 = .opening ∧ ∀ q ∈ toPeer, q.arg1 ≠ p.arg0
  others : ∀ p ∈ toDevice, p.command ≠ OPEN → p.arg1 ≠ 0
  once : toDevice.Pairwise fun p q =>
    p.command = OPEN → q.command = OPEN → p.arg0 ≠ q.arg0
  refusals : ∀ p ∈ toPeer, p.arg0 = 0 →
    p.command = CLSE ∧ peer.stream p.arg1 = .opening
  answers : toPeer.Pairwise fun p q => p.arg1 = q.arg1 →
    peer.stream p.arg1 = .opening → p.arg0 = q.arg0 ∧ p.arg0 ≠ 0
  idle : ∀ p ∈ toPeer, peer.stream p.arg1 = .idle → p.arg1 = 0
  zero : peer.stream 0 = .idle
  device : ∀ h, (peer.stream h).device ≠ some 0
  offer : peer.offer 0 = .unseen

namespace Tokens

variable {peer peer' : Peer} {toDevice toPeer rest ps : List Packet} {p q : Packet}

theorem initial : Tokens ⟨∅, ∅⟩ [] [] := by
  constructor <;> simp [Peer.stream, Peer.offer, PeerStream.device]

theorem pop (h : Tokens peer (p :: rest) toPeer) : Tokens peer rest toPeer where
  commands q hq := h.commands q (List.mem_cons_of_mem _ hq)
  opens q hq := h.opens q (List.mem_cons_of_mem _ hq)
  others q hq := h.others q (List.mem_cons_of_mem _ hq)
  once := (List.pairwise_cons.mp h.once).2
  refusals := h.refusals
  answers := h.answers
  idle := h.idle
  zero := h.zero
  device := h.device
  offer := h.offer

theorem take (h : Tokens peer toDevice (p :: rest)) : Tokens peer toDevice rest where
  commands := h.commands
  opens q hq hopen := by
    obtain ⟨hnonzero, hzero, hpeer, hnone⟩ := h.opens q hq hopen
    exact ⟨hnonzero, hzero, hpeer, fun q hq => hnone q (List.mem_cons_of_mem _ hq)⟩
  others := h.others
  once := h.once
  refusals q hq := h.refusals q (List.mem_cons_of_mem _ hq)
  answers := (List.pairwise_cons.mp h.answers).2
  idle q hq := h.idle q (List.mem_cons_of_mem _ hq)
  zero := h.zero
  device := h.device
  offer := h.offer

/-- The answers to one `OPEN` come from one stream of the device. -/
theorem same_device (h : Tokens peer toDevice toPeer) (hp : p ∈ toPeer)
    (hq : q ∈ toPeer) (heq : p.arg1 = q.arg1)
    (hpeer : peer.stream p.arg1 = .opening) : p.arg0 = q.arg0 := by
  have hsymm : Std.Symm fun p q : Packet => p.arg1 = q.arg1 →
      peer.stream p.arg1 = .opening → p.arg0 = q.arg0 := by
    constructor
    intro a b hab hba hopening
    exact (hab hba.symm (hba ▸ hopening)).symm
  have hpairs := h.answers.imp fun hab heq hopening => (hab heq hopening).1
  exact hpairs.forall_of_forall (fun _ _ _ _ => rfl) hp hq heq hpeer

/-- Packets of streams that the device holds, or refused writes. -/
theorem send (h : Tokens peer toDevice toPeer)
    (hps : ∀ q ∈ ps, q.arg0 ≠ 0 ∧ (q.arg1 = 0 ∨ peer.stream q.arg1 ≠ .idle ∧
      (peer.stream q.arg1 = .opening →
        ∃ p ∈ toPeer, p.arg0 = q.arg0 ∧ p.arg1 = q.arg1))) :
    Tokens peer toDevice (toPeer ++ ps) := by
  have hknown : ∀ q ∈ ps, peer.stream q.arg1 = .opening →
      ∃ p ∈ toPeer, p.arg0 = q.arg0 ∧ p.arg1 = q.arg1 := by
    intro q hq hopening
    rcases (hps q hq).2 with hzero | ⟨-, hknown⟩
    · rw [hzero, h.zero] at hopening
      cases hopening
    · exact hknown hopening
  refine ⟨h.commands, ?_, h.others, h.once, ?_, ?_, ?_, h.zero, h.device, h.offer⟩
  · intro p hp hopen
    obtain ⟨hnonzero, hzero, hpeer, hnone⟩ := h.opens p hp hopen
    refine ⟨hnonzero, hzero, hpeer, fun q hq => ?_⟩
    rcases List.mem_append.mp hq with hq | hq
    · exact hnone q hq
    · intro heq
      obtain ⟨p', hp', -, heq'⟩ := hknown q hq (heq ▸ hpeer)
      exact hnone p' hp' (heq'.trans heq)
  · intro q hq hzero
    rcases List.mem_append.mp hq with hq | hq
    · exact h.refusals q hq hzero
    · exact absurd hzero (hps q hq).1
  · refine List.pairwise_append.mpr ⟨h.answers, ?_, ?_⟩
    · apply List.pairwise_of_forall_mem_list
      intro q hq q' hq' heq hopening
      obtain ⟨p, hp, hp0, hp1⟩ := hknown q hq hopening
      obtain ⟨p', hp', hp0', hp1'⟩ := hknown q' hq' (heq ▸ hopening)
      have hsame := h.same_device hp hp' (by rw [hp1, hp1', heq])
        (by rw [hp1]; exact hopening)
      exact ⟨by rw [← hp0, ← hp0', hsame], (hps q hq).1⟩
    · intro p hp q hq heq hopening
      obtain ⟨p', hp', hp0, hp1⟩ := hknown q hq (heq ▸ hopening)
      have hsame := h.same_device hp hp' (heq.trans hp1.symm) hopening
      have heq' := hsame.trans hp0
      exact ⟨heq', heq' ▸ (hps q hq).1⟩
  · intro q hq hidle
    rcases List.mem_append.mp hq with hq | hq
    · exact h.idle q hq hidle
    · rcases (hps q hq).2 with hzero | ⟨hne, -⟩
      · exact hzero
      · exact absurd hidle hne

/-- The answer to an `OPEN` of the host. -/
theorem answer (h : Tokens peer (p :: rest) toPeer) (hopen : p.command = OPEN)
    (hq : q.arg1 = p.arg0) (hrefused : q.arg0 = 0 → q.command = CLSE) :
    Tokens peer rest (toPeer ++ [q]) := by
  obtain ⟨hnonzero, -, hpeer, hnone⟩ := h.opens p List.mem_cons_self hopen
  have hpop := h.pop
  refine ⟨hpop.commands, ?_, hpop.others, hpop.once, ?_, ?_, ?_, h.zero, h.device,
    h.offer⟩
  · intro p' hp' hopen'
    obtain ⟨hnonzero', hzero', hpeer', hnone'⟩ := hpop.opens p' hp' hopen'
    refine ⟨hnonzero', hzero', hpeer', fun q' hq' => ?_⟩
    rcases List.mem_append.mp hq' with hq' | hq'
    · exact hnone' q' hq'
    · rw [List.mem_singleton.mp hq', hq]
      exact (List.pairwise_cons.mp h.once).1 p' hp' hopen hopen'
  · intro q' hq' hzero
    rcases List.mem_append.mp hq' with hq' | hq'
    · exact h.refusals q' hq' hzero
    · obtain rfl := List.mem_singleton.mp hq'
      exact ⟨hrefused hzero, by rw [hq, hpeer]⟩
  · refine List.pairwise_append.mpr ⟨h.answers, List.pairwise_singleton _ _, ?_⟩
    intro p' hp' q' hq' heq
    obtain rfl := List.mem_singleton.mp hq'
    exact absurd (heq.trans hq) (hnone p' hp')
  · intro q' hq' hidle
    rcases List.mem_append.mp hq' with hq' | hq'
    · exact h.idle q' hq' hidle
    · obtain rfl := List.mem_singleton.mp hq'
      rw [hq, hpeer] at hidle
      cases hidle

/-- The host changes streams that nothing opens any more. -/
theorem change (h : Tokens peer toDevice toPeer)
    (hstream : ∀ k, peer'.stream k = peer.stream k ∨
      peer'.stream k ≠ .idle ∧ peer'.stream k ≠ .opening ∧ k ≠ 0 ∧
        (peer.stream k = .opening →
          (∀ p ∈ toDevice, p.command = OPEN → p.arg0 ≠ k) ∧
            ∀ p ∈ toPeer, p.arg0 = 0 → p.arg1 ≠ k))
    (hdevice : ∀ k, (peer'.stream k).device ≠ some 0)
    (hoffer : peer'.offer 0 = .unseen) : Tokens peer' toDevice toPeer := by
  refine ⟨h.commands, ?_, h.others, h.once, ?_, ?_, ?_, ?_, hdevice, hoffer⟩
  · intro p hp hopen
    obtain ⟨hnonzero, hzero, hpeer, hnone⟩ := h.opens p hp hopen
    refine ⟨hnonzero, hzero, ?_, hnone⟩
    rcases hstream p.arg0 with heq | ⟨-, -, -, hanswered⟩
    · rw [heq, hpeer]
    · exact absurd rfl ((hanswered hpeer).1 p hp hopen)
  · intro p hp hzero
    obtain ⟨hcommand, hpeer⟩ := h.refusals p hp hzero
    refine ⟨hcommand, ?_⟩
    rcases hstream p.arg1 with heq | ⟨-, -, -, hanswered⟩
    · rw [heq, hpeer]
    · exact absurd rfl ((hanswered hpeer).2 p hp hzero)
  · refine h.answers.imp fun hpq heq hopening => ?_
    apply hpq heq
    rcases hstream _ with heq' | ⟨-, hne, -⟩
    · rw [← heq', hopening]
    · exact absurd hopening hne
  · intro p hp hidle
    rcases hstream p.arg1 with heq | ⟨hne, -⟩
    · exact h.idle p hp (by rw [← heq, hidle])
    · exact absurd hidle hne
  · rcases hstream 0 with heq | ⟨-, -, hne, -⟩
    · rw [heq, h.zero]
    · exact absurd rfl hne

/-- A packet of the host that opens nothing. -/
theorem post (h : Tokens peer toDevice toPeer)
    (hq : q.command ∈ [OKAY, WRTE, CLSE]) (hnonzero : q.arg1 ≠ 0) :
    Tokens peer (toDevice ++ [q]) toPeer := by
  have hopen : q.command ≠ OPEN := by
    intro heq
    rw [heq] at hq
    exact absurd hq (by decide)
  refine ⟨?_, ?_, ?_, ?_, h.refusals, h.answers, h.idle, h.zero, h.device, h.offer⟩
  · intro p hp
    rcases List.mem_append.mp hp with hp | hp
    · exact h.commands p hp
    · rw [List.mem_singleton.mp hp]
      exact List.mem_cons_of_mem _ hq
  · intro p hp hcommand
    rcases List.mem_append.mp hp with hp | hp
    · exact h.opens p hp hcommand
    · rw [List.mem_singleton.mp hp] at hcommand
      exact absurd hcommand hopen
  · intro p hp hcommand
    rcases List.mem_append.mp hp with hp | hp
    · exact h.others p hp hcommand
    · rw [List.mem_singleton.mp hp]
      exact hnonzero
  · refine List.pairwise_append.mpr ⟨h.once, List.pairwise_singleton _ _, ?_⟩
    intro p hp q' hq' _ hcommand
    rw [List.mem_singleton.mp hq'] at hcommand
    exact absurd hcommand hopen

/-- The host opens a stream under a new id. -/
theorem openStream {k : UInt32} (h : Tokens peer toDevice toPeer) (hk : k ≠ 0)
    (hidle : peer.stream k = .idle) (data : Bytes) :
    Tokens (peer.setStream k .opening) (toDevice ++ [⟨OPEN, k, 0, data⟩]) toPeer := by
  have hunused : ∀ q ∈ toPeer, q.arg1 ≠ k := by
    intro q hq heq
    have hzero := h.idle q hq (heq ▸ hidle)
    exact hk (heq.symm.trans hzero)
  have hother : ∀ k', peer.stream k' = .opening →
      (peer.setStream k .opening).stream k' = .opening := by
    intro k' hopening
    rw [Peer.stream_setStream]
    split
    · rfl
    · exact hopening
  refine ⟨?_, ?_, ?_, ?_, ?_, ?_, ?_, ?_, ?_, h.offer⟩
  · intro p hp
    rcases List.mem_append.mp hp with hp | hp
    · exact h.commands p hp
    · rw [List.mem_singleton.mp hp]
      exact List.mem_cons_self
  · intro p hp hcommand
    rcases List.mem_append.mp hp with hp | hp
    · obtain ⟨hnonzero, hzero, hpeer, hnone⟩ := h.opens p hp hcommand
      exact ⟨hnonzero, hzero, hother _ hpeer, hnone⟩
    · rw [List.mem_singleton.mp hp]
      exact ⟨hk, rfl, by simp, hunused⟩
  · intro p hp hcommand
    rcases List.mem_append.mp hp with hp | hp
    · exact h.others p hp hcommand
    · rw [List.mem_singleton.mp hp] at hcommand
      exact absurd rfl hcommand
  · refine List.pairwise_append.mpr ⟨h.once, List.pairwise_singleton _ _, ?_⟩
    intro p hp q hq hcommand _ heq
    rw [List.mem_singleton.mp hq] at heq
    have hpeer := (h.opens p hp hcommand).2.2.1
    rw [heq, hidle] at hpeer
    cases hpeer
  · intro p hp hzero
    obtain ⟨hcommand, hpeer⟩ := h.refusals p hp hzero
    exact ⟨hcommand, hother _ hpeer⟩
  · refine List.Pairwise.imp_of_mem ?_ h.answers
    intro p q hp hq hpq heq hopening
    rw [Peer.stream_setStream, if_neg (hunused p hp).symm] at hopening
    exact hpq heq hopening
  · intro p hp hopening
    rw [Peer.stream_setStream, if_neg (hunused p hp).symm] at hopening
    exact h.idle p hp hopening
  · rw [Peer.stream_setStream, if_neg hk, h.zero]
  · intro k'
    rw [Peer.stream_setStream]
    split
    · simp [PeerStream.device]
    · exact h.device k'

end Tokens

/-! ## Both parties agree -/

/-- Every id of the device has a session, and opening packets are unique. -/
structure Agreed (late strict : Prop) (c : Connection) (peer : Peer)
    (toDevice toPeer : List Packet) : Prop where
  tokens : Tokens peer toDevice toPeer
  session : ∀ d, d ≠ 0 → Session late strict peer d (c.view d) (outboxOf d toPeer)
    (inboxOf d toDevice)

theorem Session.remote_known {late strict : Prop} {peer : Peer} {d : UInt32}
    {v : StreamView} {outbox inbox : List Packet} {s : Stream}
    (hsession : Session late strict peer d v outbox inbox)
    (hstream : v.stream = some s) :
    s.remote = 0 ∨ peer.stream s.remote ≠ .idle ∧
      (peer.stream s.remote = .opening → ∃ p ∈ outbox, p.arg1 = s.remote) := by
  have hheld : ∀ {k : UInt32}, (peer.stream k).device = some d →
      peer.stream k ≠ .idle ∧ peer.stream k ≠ .opening := by
    intro k hdevice
    constructor <;> intro heq <;> rw [heq] at hdevice <;> cases hdevice
  cases hsession with
  | unused _ hnone | answeredGone _ _ _ hnone | ending _ _ hnone
  | leaked _ _ _ hnone | ended _ hnone =>
      rw [hstream] at hnone
      cases hnone
  | answered h s₀ rest hstream₀ hout _ _ _ hpeer _ _ hremote =>
      obtain rfl := Option.some.inj (hstream.symm.trans hstream₀)
      subst hremote
      refine .inr ⟨by rw [hpeer]; simp, fun _ => ⟨_, hout ▸ List.mem_cons_self, rfl⟩⟩
  | offered _ _ hoffering | pending hoffering | accepted _ _ hoffering =>
      exact .inl (hoffering.stream s hstream).2.1
  | refused s₀ hstream₀ _ _ hremote =>
      obtain rfl := Option.some.inj (hstream.symm.trans hstream₀)
      exact .inl hremote
  | bound h s₀ hstream₀ hbound =>
      obtain rfl := Option.some.inj (hstream.symm.trans hstream₀)
      have hdevice := hbound.inbound.device
      rw [← hbound.remote] at hdevice
      exact .inr ⟨(hheld hdevice).1, fun hopening => absurd hopening (hheld hdevice).2⟩

namespace Agreed

open Connection

variable {late strict : Prop} {io : Io} {c c' : Connection} {peer : Peer}
  {toDevice toPeer rest ps : List Packet} {p : Packet}

theorem initial {c : Connection} (hinitial : c.Initial) :
    Agreed late strict c ⟨∅, ∅⟩ [] [] := by
  obtain ⟨tls, transport, max, now, -, -, rfl⟩ := hinitial
  refine ⟨.initial, fun d _ => ?_⟩
  rw [initial_view]
  refine .unused rfl rfl rfl rfl rfl fun h => ?_
  simp [Peer.stream, PeerStream.device]

/-- What the connection sends under `d` for a stream that it holds. -/
theorem known (h : Agreed late strict c peer toDevice toPeer) {d : UInt32}
    {s : Stream} (hd : d ≠ 0) (hstream : c.streams[d]? = some s) :
    s.remote = 0 ∨ peer.stream s.remote ≠ .idle ∧
      (peer.stream s.remote = .opening →
        ∃ p ∈ toPeer, p.arg0 = d ∧ p.arg1 = s.remote) := by
  refine ((h.session d hd).remote_known hstream).imp_right ?_
  rintro ⟨hidle, hopening⟩
  refine ⟨hidle, fun heq => ?_⟩
  obtain ⟨p, hp, hp1⟩ := hopening heq
  obtain ⟨hp, hp0⟩ := mem_outboxOf.mp hp
  exact ⟨p, hp, hp0, hp1⟩

/-- A change of no view that sends nothing. -/
theorem congr (h : Agreed late strict c peer toDevice toPeer)
    (hview : ∀ d, c'.view d = c.view d) : Agreed late strict c' peer toDevice toPeer :=
  ⟨h.tokens, fun d hd => hview d ▸ h.session d hd⟩

theorem services (h : Agreed late strict c peer toDevice toPeer)
    (hwf : c.WellFormed)
    (hdelivery : ∀ d, DeliveryInvariant c.clock (c.view d))
    (hnext : c'.next = c.next) (hviews : ∀ d, PassedView io c c' d)
    (hsent : c'.sent = c.sent ++ ps) :
    Agreed late strict c' peer toDevice (toPeer ++ ps) := by
  have hnew := fun d => outboxOf_new hsent (hviews d).history
  have hallocated : ∀ d, c'.allocated d = c.allocated d := fun d => by
    simp [Connection.allocated, hnext]
  have hunopened : ∀ (d : UInt32) (s : Stream), c.streams[d]? = some s →
      s.opening.isSome → s.pending = [] :=
    fun d s hs => (hdelivery d).unopened s hs
  constructor
  · apply h.tokens.send
    intro q hq
    have hq : q ∈ outboxOf q.arg0 ps := mem_outboxOf.mpr ⟨hq, rfl⟩
    rw [hnew] at hq
    cases hs : c.streams[q.arg0]? with
    | none => simp [hs] at hq
    | some s =>
        have hd : q.arg0 ≠ 0 := by
          intro hzero
          rw [hzero, hwf.zero] at hs
          cases hs
        have hremote : q.arg1 = s.remote := by
          simp only [hs, Option.map_some, Option.getD_some, packets_append,
            List.mem_append] at hq
          rcases hq with hq | hq
          · exact (Stream.service_packets (hunopened _ s hs) io _ _ _ q hq).2.1
          · split at hq
            · obtain heq := List.mem_singleton.mp hq
              rw [heq]
              exact (s.service_frame io _ _ _).1
            · cases hq
        rw [hremote]
        exact ⟨hd, h.known hd hs⟩
  · intro d hd
    have hsession := h.session d hd
    obtain ⟨hstream, hhistory⟩ := hviews d
    rw [outboxOf_append, hnew]
    cases hs : c.streams[d]? with
    | none =>
        rw [hs] at hstream hhistory
        have hview : c'.view d = c.view d :=
          StreamView.ext (by simpa [hs] using hstream) (by simpa using hhistory)
            (hallocated d)
        rw [hview]
        simpa using hsession
    | some s =>
        rw [hs] at hstream hhistory
        simp only [Option.bind_some, Option.map_some, Option.getD_some] at hstream hhistory
        have hqueue := ((hdelivery d).queue s hs).1
        have htrue : c.allocated d = true :=
          (hwf.view d).allocated (Option.isSome_iff_exists.mpr ⟨s, hs⟩)
        rw [view_of_stream hs, htrue] at hsession
        cases hclosed : (passed io c d s).closed with
        | false =>
            rw [hclosed] at hstream hhistory
            have hview : c'.view d = ⟨some (passed io c d s).stream,
                c.history d ++ (passed io c d s).log d, true⟩ :=
              StreamView.ext (by simpa using hstream) (by simpa using hhistory)
                ((hallocated d).trans htrue)
            rw [hview]
            have hkept : Session late strict peer d
                ⟨some (passed io c d s).stream,
                  c.history d ++ (passed io c d s).log d, true⟩
                (outboxOf d toPeer ++ packets ((passed io c d s).log d))
                (inboxOf d toDevice) :=
              hsession.keep io c.tls.queued c.max hqueue (hunopened d s hs) hclosed
            simpa [hs, hclosed] using hkept
        | true =>
            rw [hclosed] at hstream hhistory
            have hview : c'.view d = ⟨none, c.history d ++ (passed io c d s).log d ++
                [.sent ⟨CLSE, d, (passed io c d s).stream.remote, []⟩], true⟩ :=
              StreamView.ext (by simpa using hstream) (by simpa using hhistory)
                ((hallocated d).trans htrue)
            rw [hview]
            have hremoved : Session late strict peer d
                ⟨none, c.history d ++ (passed io c d s).log d ++
                  [.sent ⟨CLSE, d, (passed io c d s).stream.remote, []⟩], true⟩
                (outboxOf d toPeer ++ (packets ((passed io c d s).log d) ++
                  [⟨CLSE, d, (passed io c d s).stream.remote, []⟩]))
                (inboxOf d toDevice) :=
              hsession.remove io c.tls.queued c.max (hunopened d s hs)
            simpa [hs, hclosed] using hremoved

theorem offers (h : Agreed late strict c peer toDevice toPeer)
    (hwf : c.WellFormed) (hoffers : Offers io c c') :
    ∃ ps, c'.sent = c.sent ++ ps ∧
      Agreed late strict c' peer toDevice (toPeer ++ ps) := by
  obtain ⟨fd, target, tls, hallocate, rfl⟩ := hoffers
  refine ⟨[⟨OPEN, c.next, 0, target⟩], by simp [Connection.sent, opened], ?_, ?_⟩
  · apply h.tokens.send
    intro q hq
    rw [List.mem_singleton.mp hq]
    exact ⟨hwf.next_ne_zero, .inl rfl⟩
  · intro d hd
    have hsession := h.session d hd
    rw [outboxOf_append, outboxOf_cons, outboxOf_nil]
    by_cases hnext : c.next = d
    · subst hnext
      rw [if_pos rfl, view_opened_self c _ tls _ rfl hwf.next_pos hallocate.id]
      rw [hwf.view_next] at hsession
      exact hsession.offer fd io.now target (hwf.view_next ▸ hwf.view c.next)
    · rw [if_neg hnext, view_opened_ne c _ tls _ rfl hnext hallocate.id,
        List.append_nil]
      exact hsession

theorem offers_run (h : Agreed late strict c peer toDevice toPeer)
    (hwf : c.WellFormed) (hoffers : ReflTransGen (Offers io) c c') :
    ∃ ps, c'.sent = c.sent ++ ps ∧
      Agreed late strict c' peer toDevice (toPeer ++ ps) := by
  induction hoffers with
  | refl => exact ⟨[], by simp, by simpa using h⟩
  | tail hbefore hlast ih =>
      obtain ⟨ps, hsent, hagreed⟩ := ih
      have hmoves := @moves_of_offers (fun _ => True) io _ _ hwf hbefore
      obtain ⟨ps', hsent', hagreed'⟩ := hagreed.offers (hwf.moves hmoves) hlast
      exact ⟨ps ++ ps', by rw [hsent', hsent, List.append_assoc],
        List.append_assoc toPeer ps ps' ▸ hagreed'⟩

end Agreed

end Altdb
