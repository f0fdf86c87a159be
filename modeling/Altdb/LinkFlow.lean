import Altdb.LinkAgreement
import Altdb.Totals

/-!
# A host that respects flow control

The connection handles every packet of such a host, except a `WRTE` that does
not fit into the input that the streams retain together.
-/

namespace Altdb

open Fallible Relation

variable {late strict : Prop} {peer : Peer} {toDevice toPeer rest : List Packet}
  {p : Packet}

/-! ## Packets at the head of the channel -/

namespace Session

variable {d : UInt32} {history : List StreamEvent} {s : Stream} {a : Bool}
  {outbox inbox : List Packet}

/-- What the host may send for a stream that the device holds. -/
theorem head_cases
    (hsession : Session late strict peer d ⟨some s, history, a⟩ outbox (p :: inbox)) :
    (p.command = OKAY ∧ p.data = [] ∧ p.arg0 ≠ 0 ∧ s.opening.isSome ∧ s.remote = 0) ∨
      (p.command = CLSE ∧ p.arg0 = 0 ∧ s.opening.isSome) ∨
      s.opening = none ∧ Bound strict peer s.remote d s outbox (p :: inbox) := by
  cases hsession with
  | unused _ hstream | answeredGone _ _ _ hstream | ending _ _ hstream
  | leaked _ _ _ hstream | ended _ hstream => cases hstream
  | answered _ _ _ _ _ hin | offered _ _ _ _ _ hin | pending _ hin => cases hin
  | refused s₀ hstream _ hopening _ hin =>
      obtain rfl := Option.some.inj hstream
      rcases hin with ⟨-, hin⟩ | ⟨-, hin⟩
      · obtain ⟨rfl, -⟩ := List.cons.inj hin
        right
        left
        exact ⟨rfl, rfl, hopening⟩
      · cases hin
  | accepted h rest hoffering hin hinbound =>
      obtain ⟨rfl, -⟩ := List.cons.inj hin
      obtain ⟨hopening, hremote, -⟩ := hoffering.stream s rfl
      left
      exact ⟨rfl, rfl, hinbound.nonzero, hopening, hremote⟩
  | bound h s₀ hstream hbound =>
      obtain rfl := Option.some.inj hstream
      right
      right
      rw [hbound.remote]
      exact ⟨hbound.opening, hbound⟩

end Session

namespace Bound

variable {h d : UInt32} {s : Stream} {outbox inbox : List Packet}

theorem waiting_of_okay (hbound : Bound True peer h d s outbox (p :: inbox))
    (hcommand : p.command = OKAY) : s.waiting = true := by
  have houtput := hbound.output trivial
  rw [packetCount_cons, if_pos hcommand] at houtput
  cases hwaiting : s.waiting with
  | true => rfl
  | false =>
      rw [hwaiting] at houtput
      change _ ≤ 0 at houtput
      omega

theorem pending_of_write (hbound : Bound True peer h d s outbox (p :: inbox))
    (hcommand : p.command = WRTE) : s.pending.length = 0 := by
  have hinput := hbound.input trivial
  rw [packetCount_cons, if_pos hcommand] at hinput
  have hone := Bool.toNat_le (peer.stream h).unacked
  omega

theorem open_of_head (hbound : Bound strict peer h d s outbox (p :: inbox)) :
    s.closing = none := by
  by_contra hsome
  have hnil := (hbound.closing (Option.isSome_iff_ne_none.mpr hsome)).1
  cases hnil

end Bound

/-! ## No packet is rejected -/

theorem Connection.handle_write {io : Io} (hcommand : p.command = WRTE) :
    Connection.handle io p = Connection.handleWrte io p := by
  simp [Connection.handle, hcommand, wrte_ne_open,
    wrte_ne_okay]

namespace Agreed

open Connection

variable {io : Io} {c : Connection} {error : String}

/-- The only reason to reject a packet is the limit of the retained input. -/
theorem rejects (h : Agreed late True c peer (p :: rest) toPeer)
    (hwf : c.WellFormed) (hid : c.next.toNat + 1 < UInt32.size)
    (htls : ∀ n tls bytes, ∃ tls', io.tlsWrite n tls bytes = .ok tls')
    (hrejects : Rejects io p c error) :
    p.command = WRTE ∧ 8 * 1024 * 1024 < c.queuedInput + p.data.length := by
  have hhead : ∀ s, c.streams[p.arg1]? = some s → p.command ≠ OPEN →
      Session late True peer p.arg1 ⟨some s, c.history p.arg1, c.allocated p.arg1⟩
        (outboxOf p.arg1 toPeer) (p :: inboxOf p.arg1 rest) := by
    intro s hstream hopen
    rw [← view_of_stream hstream]
    exact (h.head hopen).2
  cases hrejects with
  | command hcommand =>
      exact absurd (h.tokens.commands p List.mem_cons_self) hcommand
  | openIds hcommand hids =>
      obtain ⟨hnonzero, hzero, -⟩ := h.tokens.opens p List.mem_cons_self hcommand
      exact absurd ⟨hnonzero, hzero⟩ hids
  | duplicate hcommand id s hstream hremote =>
      obtain ⟨hnonzero, -, hpeer, hnone⟩ := h.tokens.opens p List.mem_cons_self hcommand
      have hd : id ≠ 0 := by
        rintro rfl
        rw [hwf.zero] at hstream
        cases hstream
      rcases h.known hd hstream with hzero | ⟨-, hknown⟩
      · exact absurd (hremote.symm.trans hzero) hnonzero
      · rw [hremote] at hknown
        obtain ⟨q, hq, -, hq1⟩ := hknown hpeer
        exact absurd hq1 (hnone q hq)
  | exhausted _ hids => omega
  | okayForm s hcommand hstream hform =>
      rcases (hhead s hstream (hcommand ▸ okay_ne_open)).head_cases with
        ⟨-, hdata, hnonzero, -⟩ | ⟨hclose, -⟩ | ⟨-, hbound⟩
      · exact absurd ⟨hdata, hnonzero⟩ hform
      · exact absurd (hclose.symm.trans hcommand) clse_ne_okay
      · obtain ⟨hp, hcases⟩ := hbound.inbound.packets p List.mem_cons_self
        rcases hcases with ⟨-, hdata⟩ | hwrite | hclose
        · exact absurd ⟨hdata, hp ▸ hbound.inbound.nonzero⟩ hform
        · exact absurd (hwrite.symm.trans hcommand) wrte_ne_okay
        · exact absurd (hclose.symm.trans hcommand) clse_ne_okay
  | okayOpen s hcommand hstream hopening hremote =>
      rcases (hhead s hstream (hcommand ▸ okay_ne_open)).head_cases with
        ⟨-, -, -, -, hzero⟩ | ⟨hclose, -⟩ | ⟨hnone, -⟩
      · exact absurd hzero hremote
      · exact absurd (hclose.symm.trans hcommand) clse_ne_okay
      · rw [hnone] at hopening
        cases hopening
  | okayData s hcommand hstream hopening hunexpected =>
      rcases (hhead s hstream (hcommand ▸ okay_ne_open)).head_cases with
        ⟨-, -, -, hsome, -⟩ | ⟨-, -, hsome⟩ | ⟨-, hbound⟩
      · rw [hopening] at hsome
        cases hsome
      · rw [hopening] at hsome
        cases hsome
      · have hp := (hbound.inbound.packets p List.mem_cons_self).1
        exact absurd ⟨hp.symm, hbound.waiting_of_okay hcommand⟩ hunexpected
  | queueLimit hcommand hqueue => exact ⟨hcommand, hqueue⟩
  | ordering s hcommand hstream hordering =>
      rcases (hhead s hstream (hcommand ▸ wrte_ne_open)).head_cases with
        ⟨hokay, -⟩ | ⟨hclose, -⟩ | ⟨hnone, hbound⟩
      · exact absurd (hcommand.symm.trans hokay) wrte_ne_okay
      · exact absurd (hclose.symm.trans hcommand) clse_ne_wrte
      · have hp := (hbound.inbound.packets p List.mem_cons_self).1
        exact absurd ⟨hp.symm, hnone, hbound.open_of_head⟩ hordering
  | packetLimit s hcommand hstream hlimit =>
      rcases (hhead s hstream (hcommand ▸ wrte_ne_open)).head_cases with
        ⟨hokay, -⟩ | ⟨hclose, -⟩ | ⟨-, hbound⟩
      · exact absurd (hcommand.symm.trans hokay) wrte_ne_okay
      · exact absurd (hclose.symm.trans hcommand) clse_ne_wrte
      · have hempty := hbound.pending_of_write hcommand
        omega
  | closeId s hcommand hstream hid =>
      rcases (hhead s hstream (hcommand ▸ clse_ne_open)).head_cases with
        ⟨hokay, -⟩ | ⟨-, hzero, hopening⟩ | ⟨-, hbound⟩
      · exact absurd (hcommand.symm.trans hokay) clse_ne_okay
      · exact absurd (.inr ⟨hopening, hzero⟩) hid
      · have hp := (hbound.inbound.packets p List.mem_cons_self).1
        exact absurd (.inl hp) hid
  | tls _ n tls bytes herror =>
      obtain ⟨tls', hok⟩ := htls n tls bytes
      rw [herror] at hok
      cases hok

end Agreed

namespace Link

open Connection

variable {l : Link} {io : Io}

/-- While the host respects flow control, TLS writes succeed and ids remain, a
packet is rejected exactly when it is a `WRTE` beyond the input limit. -/
theorem flow_control (h : Link.Reachable True True l) (hhead : l.toDevice = p :: rest)
    (htls : ∀ n tls bytes, ∃ tls', io.tlsWrite n tls bytes = .ok tls')
    (hid : l.device.next.toNat + 1 < UInt32.size) :
    (∃ error c', handle io p l.device = .error error c') ↔
      p.command = WRTE ∧
        8 * 1024 * 1024 < l.device.queuedInput + p.data.length := by
  obtain ⟨hreach, hagreed⟩ := h.agreed
  rw [hhead] at hagreed
  constructor
  · rintro ⟨error, c', herror⟩
    have hrejects := (wp_of_error (@handle_spec io l.device p) herror).1
    exact hagreed.rejects (ReachableWithin.wellFormed hreach) hid htls hrejects
  · rintro ⟨hcommand, hqueue⟩
    have hspec : wp (handle io p) (fun _ _ => False) (fun _ _ => True) l.device := by
      rw [handle_write hcommand]
      simp only [handleWrte, wp_bind, wp_get, wp_ensure]
      exact ⟨fun hfits => absurd hqueue (not_lt.mpr hfits), fun _ => trivial⟩
    cases hrun : handle io p l.device with
    | ok _ c' => exact (wp_of_ok hspec hrun).elim
    | error error c' => exact ⟨error, c', rfl⟩

/-- The host writes to two streams, whose services take nothing. -/
theorem flow_control_write :
    ∃ (l : Link) (p : Packet), Link.Reachable True True l ∧ l.toDevice = [p] ∧
      p.command = WRTE ∧ l.device.queuedInput = 3 ∧
      ¬∃ error c', handle (Turn.packet 4 WRTE 8 2 [4, 5]).answers p l.device =
        .error error c' := by
  have hplay : ∃ l ∈ start.play True True
      [.act (.openStream 7 (utf8 "shell:\x00")), .deliver 1, .receive, .act (.write 7 [1, 2, 3]),
        .deliver 2, .act (.openStream 8 (utf8 "shell:\x00")), .deliver 3, .receive,
        .act (.write 8 [4, 5])],
      l.toDevice = [⟨WRTE, 8, 2, [4, 5]⟩] ∧ l.device.queuedInput = 3 ∧
        l.device.next.toNat + 1 < UInt32.size := by
    decide +kernel
  obtain ⟨l, hplay, hhead, hqueue, hid⟩ := hplay
  refine ⟨l, _, play_reachable hplay, hhead, rfl, hqueue, ?_⟩
  rw [flow_control (play_reachable hplay) hhead (fun _ tls _ => ⟨tls, rfl⟩) hid, hqueue]
  rintro ⟨-, hfull⟩
  exact absurd hfull (by decide)

end Link

/-! ## Slow services -/

namespace Connection

variable {c c' : Connection}

theorem queuedInput_insert (streams : Streams) (id : UInt32) (s : Stream) :
    ((streams.insert id s).toList.map fun e => held e.2).sum +
        streams[id]?.elim 0 held =
      (streams.toList.map fun e => held e.2).sum + held s :=
  @Totals.total_insert _ _ _ _ _ held streams id s

/-- A service whose socket is there opens. -/
theorem openService_shell (turn : Turn) :
    wp (openService turn.answers (utf8 "shell:\x00")) (fun _ => Talks c)
      (fun _ _ => False) c := by
  have hname : String.fromUTF8? ⟨(utf8 "shell:\x00").dropLast.toArray⟩ =
      some "shell:" := by
    decide +kernel
  have hreverse : stripPrefix "reverse:" "shell:" = none := by decide +kernel
  have hroot : ¬("shell:" = "root:" ∨ "shell:" = "unroot:") := by decide +kernel
  simp only [openService, hname, wp_bind, wp_ensure, if_neg hroot, hreverse, wp_get]
  refine ⟨fun _ => ⟨fun _ => ?_, fun hno => hno ?_⟩, fun hno => hno ?_⟩
  · refine wp_mono (call_spec _) ?_ ?_
    · rintro ⟨id, fds⟩ c' ⟨hanswer, rfl⟩
      obtain ⟨rfl, rfl⟩ : id = "5" ∧ fds = [7] := by
        simpa [Turn.answers, eq_comm] using hanswer
      simp only [wp_bind, wp_lift]
      refine ⟨fun _ _ => ⟨fun _ _ => ⟨c.reverse, [_], rfl⟩, ?_⟩, ?_⟩
      · intro error herror
        have hport : parseU32 "5" = .ok 5 := by decide +kernel
        rw [hport] at herror
        cases herror
      · intro error herror
        cases herror
    · rintro error c' ⟨herror, -⟩
      cases herror
  · decide +kernel
  · decide +kernel

/-- The device opens a stream when there is room and TLS and the supervisor
answer. -/
theorem handle_open (turn : Turn) {p : Packet} (hcommand : p.command = OPEN)
    (hdata : p.data = utf8 "shell:\x00") (hids : p.arg0 ≠ 0 ∧ p.arg1 = 0)
    (hfresh : ∀ (id : UInt32) (s : Stream), c.streams[id]? = some s →
      s.remote ≠ p.arg0)
    (hallocate : c.CanAllocate) :
    ∃ c₁ source tls, Talks c c₁ ∧ handle turn.answers p c =
      .ok () (c₁.opened c.next (hostStream p.arg0 source) tls
        ⟨OKAY, c.next, p.arg0, []⟩) := by
  have hspec : wp (handle turn.answers p) (fun _ c' => ∃ c₁ source tls, Talks c c₁ ∧
      c' = c₁.opened c.next (hostStream p.arg0 source) tls
        ⟨OKAY, c.next, p.arg0, []⟩) (fun _ _ => False) c := by
    simp only [handle, if_pos hcommand, handleOpen, wp_bind, wp_get, wp_ensure, wp_ite,
      wp_attempt, hdata]
    refine ⟨fun _ => ⟨fun _ => ⟨fun hfull => ?_, fun _ => ?_⟩, fun hno => hno ?_⟩,
      fun hno => hno hids⟩
    · exact absurd hallocate.slot (not_lt.mpr hfull)
    · refine wp_mono (openService_shell turn) ?_ (fun _ _ h => h.elim)
      intro source c₁ htalks
      simp only [wp_bind, wp_attempt]
      refine wp_mono allocate_spec ?_ ?_
      · rintro _ _ ⟨-, rfl, rfl⟩
        simp only [putStream, packet, wp_bind, wp_modify]
        refine wp_mono (send_spec _) ?_ ?_
        · rintro _ _ ⟨tls, -, rfl⟩
          exact ⟨c₁, source, tls, htalks, by rw [← htalks.next_eq]; rfl⟩
        · rintro error _ ⟨-, herror⟩
          obtain ⟨bytes, hbytes⟩ := write_error rfl herror
          cases hbytes
      · rintro error _ ⟨-, hfull | ⟨hids', -⟩⟩
        · rw [htalks.streams_eq] at hfull
          exact absurd hallocate.slot hfull
        · rw [htalks.next_eq] at hids'
          have hid := hallocate.id
          omega
    · rintro ⟨e, he, hremote⟩
      exact hfresh e.1 e.2 (Std.TreeMap.mem_toList_iff_getElem?_eq_some.mp he) hremote
  cases hrun : handle turn.answers p c with
  | ok value c' =>
      obtain ⟨c₁, source, tls, htalks, rfl⟩ := wp_of_ok hspec hrun
      exact ⟨c₁, source, tls, htalks, rfl⟩
  | error error c' => exact (wp_of_error hspec hrun).elim

end Connection

theorem Peer.live_le (peer : Peer) : peer.live ≤ peer.streams.size := by
  rw [← Std.TreeMap.length_toList]
  exact List.length_filter_le _ _

namespace Link

open Connection

/-- `n` streams, each with an unacknowledged payload of 1 MiB. -/
structure Filled (n : ℕ) (l : Link) : Prop where
  reach : Link.Reachable True True l
  toDevice : l.toDevice = []
  toPeer : l.toPeer = []
  max : l.device.max = 1024 * 1024
  next : l.device.next.toNat = n + 1
  slots : l.device.streams.size ≤ 2 * n
  queued : l.device.queuedInput = n * (1024 * 1024)
  live : l.peer.streams.size ≤ 3 * n
  idle : ∀ k : UInt32, n < k.toNat → l.peer.stream k = .idle

/-- One more stream is open, without input. -/
structure Opened (n : ℕ) (k : UInt32) (source : Source) (l : Link) : Prop where
  reach : Link.Reachable True True l
  toDevice : l.toDevice = []
  toPeer : l.toPeer = []
  max : l.device.max = 1024 * 1024
  next : l.device.next.toNat = n + 2
  slots : l.device.streams.size ≤ 2 * n + 1
  queued : l.device.queuedInput = n * (1024 * 1024)
  live : l.peer.streams.size ≤ 3 * n + 2
  idle : ∀ k : UInt32, n + 1 < k.toNat → l.peer.stream k = .idle
  id : k.toNat = n + 1
  device : l.device.streams[k]? = some (hostStream k source)
  peer : l.peer.stream k = .opened k false 0

theorem filled_zero : Filled 0 ⟨Connection.initial ⟨[], 0⟩ 5 (1024 * 1024) 0, ⟨∅, ∅⟩, [], []⟩ where
  reach := .start ⟨⟨_, _, _, _, by decide, by decide, rfl⟩, rfl, rfl, rfl⟩
  toDevice := rfl
  toPeer := rfl
  max := rfl
  next := rfl
  slots := by simp [Connection.initial]
  queued := by decide +kernel
  live := by simp
  idle k _ := by simp [Peer.stream]

/-- What the device does with the only packet on its way. -/
theorem Reachable.answer {l : Link} {p : Packet} {c : Connection} {ps : List Packet}
    (h : Link.Reachable True True l) (hhead : l.toDevice = [p])
    (hrun : handle (Turn.packet l.device.clock p.command p.arg0 p.arg1 p.data).answers p
      l.device = .ok () c) (hsent : c.sent = l.device.sent ++ ps) :
    Link.Reachable True True
      ⟨{ c with clock := l.device.clock }, l.peer, [], l.toPeer ++ ps⟩ := by
  apply h.next
  exact .deliver l _ p [] { c with clock := l.device.clock } ps hhead (fun _ => trivial)
    ⟨⟨fun _ => ⟨le_rfl, le_rfl⟩, le_rfl⟩, c, hrun, rfl⟩ hsent

theorem Filled.open {n : ℕ} {l : Link} (h : Filled n l) (hn : n < 9) :
    ∃ k source l', Opened n k source l' := by
  obtain ⟨k, hk⟩ : ∃ k : UInt32, k.toNat = n + 1 := ⟨l.device.next, h.next⟩
  have hnext : l.device.next = k := UInt32.toNat.inj (h.next.trans hk.symm)
  have hidle : l.peer.stream k = .idle := h.idle k (by omega)
  have hnonzero : k ≠ 0 := by
    rintro rfl
    cases hk
  have hlive := l.peer.live_le
  have hfull := h.live
  have hslots := h.slots
  obtain ⟨hreach, hagreed⟩ := h.reach.agreed
  -- The host opens the stream.
  have hreach₁ : Link.Reachable True True
      ⟨l.device, l.peer.setStream k .opening, [⟨OPEN, k, 0, utf8 "shell:\x00"⟩], []⟩ := by
    have hact : l.peer.act (.openStream k (utf8 "shell:\x00")) =
        some (l.peer.setStream k .opening, ⟨OPEN, k, 0, utf8 "shell:\x00"⟩) := by
      simp [Peer.act, hnonzero, hidle]
    have hstep := h.reach.next (.act l _ _ _ hact fun _ => ⟨by omega, ?_⟩)
    · simpa [h.toDevice, h.toPeer] using hstep
    · rw [h.max]
      decide +kernel
  -- The device answers it.
  obtain ⟨c₁, source, tls, htalks, hrun⟩ := @handle_open l.device
    (Turn.packet l.device.clock OPEN k 0 (utf8 "shell:\x00"))
    ⟨OPEN, k, 0, utf8 "shell:\x00"⟩ rfl rfl ⟨hnonzero, rfl⟩ (by
      intro id s hstream hremote
      have hid : id ≠ 0 := by
        rintro rfl
        rw [(ReachableWithin.wellFormed hreach).zero] at hstream
        cases hstream
      rcases hagreed.known hid hstream with hzero | ⟨hne, -⟩
      · exact hnonzero (hremote.symm.trans hzero)
      · exact hne (hremote ▸ hidle))
    ⟨by unfold maxStreams; omega, by rw [h.next]; unfold UInt32.size; omega⟩
  have hsent : (c₁.opened l.device.next (hostStream k source) tls
      ⟨OKAY, l.device.next, k, []⟩).sent =
        l.device.sent ++ [⟨OKAY, l.device.next, k, []⟩] := by
    rw [sent_opened, htalks.sent_eq]
  have hreach₂ := hreach₁.answer rfl hrun hsent
  -- The host takes the answer.
  have hreach₃ := hreach₂.next (.receive _ ⟨OKAY, l.device.next, k, []⟩ [] rfl)
  have hopening : (l.peer.setStream k .opening).stream k = .opening := by simp
  rw [Peer.receive_opening rfl hopening] at hreach₃
  refine ⟨k, source, _, hreach₃, rfl, rfl, ?_, ?_, ?_, ?_, ?_, ?_, hk, ?_, ?_⟩
  · exact htalks.max_eq.trans h.max
  · change (l.device.next + 1).toNat = n + 2
    rw [next_succ (by rw [h.next]; unfold UInt32.size; omega), h.next]
  · change (c₁.streams.insert l.device.next (hostStream k source)).size ≤ 2 * n + 1
    have hsize := @Std.TreeMap.size_insert_le _ _ _ c₁.streams _ l.device.next
      (hostStream k source)
    rw [htalks.streams_eq] at hsize ⊢
    omega
  · have hqueue := queuedInput_insert c₁.streams l.device.next (hostStream k source)
    have hnone : l.device.streams[l.device.next]? = none := by
      have hview := (ReachableWithin.wellFormed hreach).view_next
      exact congrArg StreamView.stream hview
    rw [htalks.streams_eq, hnone] at hqueue
    change ((c₁.streams.insert _ _).toList.map fun e => held e.2).sum = _
    rw [htalks.streams_eq]
    have hold := h.queued
    change (l.device.streams.toList.map fun e => held e.2).sum = _ at hold
    rw [hold] at hqueue
    simpa [held, hostStream] using hqueue
  · have hsize := @Std.TreeMap.size_insert_le _ _ _ l.peer.streams _ k PeerStream.opening
    have hsize' := @Std.TreeMap.size_insert_le _ _ _ (l.peer.setStream k .opening).streams
      _ k (.opened l.device.next false 0)
    change (l.peer.setStream k .opening).streams.size ≤ _ at hsize
    change ((l.peer.setStream k .opening).setStream k _).streams.size ≤ _ at hsize'
    change ((l.peer.setStream k .opening).setStream k
      (.opened l.device.next false 0)).streams.size ≤ _
    omega
  · intro k' hk'
    have hne : k ≠ k' := by
      rintro rfl
      omega
    simpa [hne] using h.idle k' (by omega)
  · change (c₁.streams.insert l.device.next (hostStream k source))[k]? = _
    rw [streams_insert, if_pos hnext]
  · simp [hnext]

/-- The host writes its payload. -/
theorem Opened.write {n : ℕ} {k : UInt32} {source : Source} {l : Link} {data : Bytes}
    (h : Opened n k source l) (hdata : data.length = 1024 * 1024) :
    Link.Reachable True True
      ⟨l.device, l.peer.setStream k (.opened k true 0), [⟨WRTE, k, k, data⟩], []⟩ := by
  have hact : l.peer.act (.write k data) =
      some (l.peer.setStream k (.opened k true 0), ⟨WRTE, k, k, data⟩) := by
    simp [Peer.act, h.peer]
  have hstep := h.reach.next (.act l _ _ _ hact fun _ => ⟨?_, ?_⟩)
  · simpa [h.toDevice, h.toPeer] using hstep
  · rw [h.peer]
    rfl
  · rw [hdata, h.max]

/-- The device retains a payload that fits. -/
theorem Opened.fill {n : ℕ} {k : UInt32} {source : Source} {l : Link} {data : Bytes}
    (h : Opened n k source l) (hdata : data.length = 1024 * 1024) (hn : n < 8) :
    ∃ l', Filled (n + 1) l' := by
  have hwrite := h.write hdata
  have hspec : wp (handle (Turn.packet l.device.clock WRTE k k data).answers
      ⟨WRTE, k, k, data⟩)
      (fun _ c => c = l.device.updated k
        { hostStream k source with pending := [data] } (.payload data))
      (fun _ _ => False) l.device := by
    have hfits : l.device.queuedInput + data.length ≤ 8 * 1024 * 1024 := by
      rw [h.queued, hdata]
      omega
    have hsome : data ≠ [] := by
      rintro rfl
      cases hdata
    rw [handle_write rfl]
    simp only [handleWrte, wp_bind, wp_get, wp_ensure]
    refine ⟨fun _ => ?_, fun hno => hno hfits⟩
    rw [h.device]
    simp only [wp_bind, wp_ensure, wp_ite]
    refine ⟨fun _ => ⟨fun hempty => absurd hempty hsome, fun _ => ?_⟩,
      fun hno => hno ⟨rfl, rfl, rfl⟩⟩
    have hqueued : (hostStream k source).enqueue data =
        .ok { hostStream k source with pending := [data] } := rfl
    simp only [hqueued, wp_lift]
    refine ⟨fun s hs => ?_, fun error herror => by cases herror⟩
    obtain rfl := Except.ok.inj hs
    rfl
  obtain ⟨c, hrun⟩ : ∃ c, handle (Turn.packet l.device.clock WRTE k k data).answers
      ⟨WRTE, k, k, data⟩ l.device = .ok () c := by
    cases hrun : handle (Turn.packet l.device.clock WRTE k k data).answers
        ⟨WRTE, k, k, data⟩ l.device with
    | ok _ c => exact ⟨c, rfl⟩
    | error error c => exact (wp_of_error hspec hrun).elim
  obtain rfl := wp_of_ok hspec hrun
  have hreach := hwrite.answer rfl hrun (by rw [sent_updated, List.append_nil])
  refine ⟨_, hreach, rfl, rfl, h.max, h.next, ?_, ?_, ?_, ?_⟩
  · have hsize := @Std.TreeMap.size_insert_le _ _ _ l.device.streams _ k
      { hostStream k source with pending := [data] }
    have hslots := h.slots
    change (l.device.streams.insert k _).size ≤ _
    omega
  · have hqueue := queuedInput_insert l.device.streams k
      { hostStream k source with pending := [data] }
    have hold := h.queued
    change (l.device.streams.toList.map fun e => held e.2).sum = _ at hold
    change ((l.device.streams.insert k _).toList.map fun e => held e.2).sum = _
    rw [h.device, hold] at hqueue
    simp only [held, hostStream, Option.elim_some, List.map_nil, List.sum_nil,
      List.map_cons, List.sum_cons, hdata] at hqueue ⊢
    omega
  · have hsize := @Std.TreeMap.size_insert_le _ _ _ l.peer.streams _ k
      (.opened k true 0)
    have hlive := h.live
    change (l.peer.streams.insert k _).size ≤ _
    omega
  · intro k' hk'
    have hne : k ≠ k' := by
      rintro rfl
      have hk := h.id
      omega
    simpa [hne] using h.idle k' hk'

/-- Nine services that do not read end the connection. -/
theorem slow_services_end_connection :
    ¬∀ (l : Link) (io : Io) (p : Packet) (rest : List Packet),
      Link.Reachable True True l → l.toDevice = p :: rest →
      (∀ n tls bytes, ∃ tls', io.tlsWrite n tls bytes = .ok tls') →
      l.device.next.toNat + 1 < UInt32.size →
      ∃ c', handle io p l.device = .ok () c' := by
  obtain ⟨data, hdata⟩ : ∃ data : Bytes, data.length = 1024 * 1024 :=
    ⟨List.replicate (1024 * 1024) 0, List.length_replicate⟩
  have hfill : ∀ n ≤ 8, ∃ l, Filled n l := by
    intro n
    induction n with
    | zero => exact fun _ => ⟨_, filled_zero⟩
    | succ n ih =>
        intro hn
        obtain ⟨l, h⟩ := ih (by omega)
        obtain ⟨k, source, l', hopened⟩ := h.open (by omega)
        exact hopened.fill hdata (by omega)
  obtain ⟨l, h⟩ := hfill 8 le_rfl
  obtain ⟨k, source, l', hopened⟩ := h.open (by omega)
  intro hall
  obtain ⟨c', hok⟩ := hall _ (Turn.packet 0 WRTE k k data).answers _ _
    (hopened.write hdata) rfl (fun _ tls _ => ⟨tls, rfl⟩)
    (by rw [hopened.next]; unfold UInt32.size; omega)
  have hspec : wp (handle (Turn.packet 0 WRTE k k data).answers ⟨WRTE, k, k, data⟩)
      (fun _ _ => False) (fun _ _ => True) l'.device := by
    rw [handle_write rfl]
    simp only [handleWrte, wp_bind, wp_get, wp_ensure]
    refine ⟨fun hfits => ?_, fun _ => trivial⟩
    rw [hopened.queued, hdata] at hfits
    omega
  exact (wp_of_ok hspec hok).elim

end Link

end Altdb
