import Altdb.StreamDelivery

/-!
# Acknowledgement of the payloads of the host

A stream acknowledges the host in two places: when a pass has drained its queue
and when an empty payload arrives.  The first waits until every byte is written.
The second does not: an empty payload that arrives behind queued ones is
acknowledged before these are written.
-/

namespace Altdb

open Fallible

/-- The packets after the one that opened the stream. -/
def afterOpening (ps : List Packet) : List Packet :=
  (ps.dropWhile (·.command = CLSE)).tail

/-- The stream has been opened. -/
def Opened (h : List StreamEvent) : Prop := ∃ p ∈ packets h, p.command ≠ CLSE

/-- The number of sent packets that acknowledge payloads.  The packet that
opens the stream of a host is none of them. -/
def okays (h : List StreamEvent) : ℕ :=
  (afterOpening (packets h)).countP (·.command = OKAY)

def StreamEvent.IsPayload (e : StreamEvent) : Prop :=
  ∃ data, e = .accepted (.payload data)

instance (e : StreamEvent) : Decidable e.IsPayload :=
  match e with
  | .accepted (.payload data) => isTrue ⟨data, rfl⟩
  | .accepted .opened | .accepted .acknowledged | .accepted (.closed _)
  | .wrote _ | .read _ | .sent _ => isFalse (by rintro ⟨data, hdata⟩; cases hdata)

def StreamEvent.IsOkay (e : StreamEvent) : Prop :=
  ∃ p, e = .sent p ∧ p.command = OKAY

/-- The number of payloads accepted from the host. -/
def payloads (h : List StreamEvent) : ℕ := h.countP (·.IsPayload)

@[simp] theorem payloads_append (h h' : List StreamEvent) :
    payloads (h ++ h') = payloads h + payloads h' :=
  List.countP_append

theorem Opened.append {h : List StreamEvent} (hopened : Opened h)
    (h' : List StreamEvent) : Opened (h ++ h') := by
  obtain ⟨p, hp, hcommand⟩ := hopened
  exact ⟨p, packets_append h h' ▸ List.mem_append_left _ hp, hcommand⟩

theorem afterOpening_append {ps : List Packet}
    (hopened : ∃ p ∈ ps, p.command ≠ CLSE) (qs : List Packet) :
    afterOpening (ps ++ qs) = afterOpening ps ++ qs := by
  induction ps with
  | nil =>
      obtain ⟨p, hp, -⟩ := hopened
      cases hp
  | cons p rest ih =>
      by_cases hclose : p.command = CLSE
      · have hrest : ∃ q ∈ rest, q.command ≠ CLSE := by
          obtain ⟨q, hq, hcommand⟩ := hopened
          rcases List.mem_cons.mp hq with rfl | hq
          · exact absurd hclose hcommand
          · exact ⟨q, hq, hcommand⟩
        simpa [afterOpening, List.dropWhile_cons, hclose] using ih hrest
      · simp [afterOpening, hclose]

/-- Nothing is acknowledged by the packet that opens the stream or before. -/
theorem afterOpening_opening {ps : List Packet} (p : Packet)
    (hrefused : ∀ q ∈ ps, q.command = CLSE) : afterOpening (ps ++ [p]) = [] := by
  induction ps with
  | nil =>
      by_cases hclose : p.command = CLSE <;>
        simp [afterOpening, hclose]
  | cons q rest ih =>
      have hq := hrefused q List.mem_cons_self
      simpa [afterOpening, List.dropWhile_cons, hq] using
        ih fun r hr => hrefused r (List.mem_cons_of_mem _ hr)

theorem okays_append {h : List StreamEvent} (hopened : Opened h)
    (h' : List StreamEvent) :
    okays (h ++ h') = okays h + (packets h').countP (·.command = OKAY) := by
  rw [okays, packets_append, afterOpening_append hopened, List.countP_append]
  rfl

/-- A refused packet acknowledges nothing. -/
theorem okays_refused (h : List StreamEvent) {p : Packet}
    (hp : p.command = CLSE) : okays (h ++ [.sent p]) ≤ okays h := by
  by_cases hopened : Opened h
  · rw [okays_append hopened, packets_sent, packets_nil, List.countP_singleton, hp]
    exact le_rfl
  · have hrefused : ∀ q ∈ packets h, q.command = CLSE := fun q hq => by
      by_contra hcommand
      exact hopened ⟨q, hq, hcommand⟩
    rw [okays, packets_append, packets_sent, packets_nil,
      afterOpening_opening p hrefused]
    exact Nat.zero_le _

theorem payloads_eq_zero {h : List StreamEvent}
    (hnone : ∀ e ∈ h, ∀ what, e ≠ .accepted what) : payloads h = 0 := by
  rw [payloads, List.countP_eq_zero]
  intro e he hpayload
  obtain ⟨data, hdata⟩ := of_decide_eq_true hpayload
  exact hnone e he _ hdata

/-- What holds when a stream acknowledges payloads. -/
def WrittenMoment (before : List StreamEvent) (e : StreamEvent) : Prop :=
  e.IsOkay → Opened before → written before = received before

/-- Every acknowledgement is sent when all payloads so far are written. -/
def AcknowledgedWritten (h : List StreamEvent) : Prop :=
  History.EachMoment WrittenMoment h

theorem AcknowledgedWritten.append {h h' : List StreamEvent}
    (hwritten : AcknowledgedWritten h) (hnone : ∀ p ∈ packets h', p.command ≠ OKAY) :
    AcknowledgedWritten (h ++ h') := by
  refine History.eachMoment_append.mpr ⟨hwritten, ?_⟩
  rintro before e after rfl ⟨p, rfl, hokay⟩
  exact absurd hokay (hnone p (mem_packets.mpr (by simp)))

/-- One acknowledgement, of bytes that are all written. -/
theorem AcknowledgedWritten.okay {h start after : List StreamEvent} {p : Packet}
    (hwritten : AcknowledgedWritten h) (hstart : packets start = [])
    (hafter : ∀ q ∈ packets after, q.command ≠ OKAY)
    (hbytes : written (h ++ start) = received (h ++ start)) :
    AcknowledgedWritten (h ++ (start ++ .sent p :: after)) := by
  have hbefore : AcknowledgedWritten (h ++ start) :=
    hwritten.append fun q hq => by simp [hstart] at hq
  rw [← List.append_assoc, List.append_cons]
  refine append (History.eachMoment_append.mpr ⟨hbefore, ?_⟩) hafter
  refine History.eachMoment_cons.mpr ⟨?_, History.eachMoment_nil⟩
  rw [List.append_nil]
  exact fun _ _ => hbytes

/-! ## One pass -/

/-- A pass acknowledges when it drains the queue of an open stream. -/
theorem Stream.Queue.service_okay {s : Stream} (h : s.Queue) (io : Io)
    (queued max : ℕ) (id : UInt32) :
    (∀ p ∈ packets ((s.service io queued max id).log id), p.command ≠ OKAY) ∧
        ((s.service io queued max id).closed = false → s.closing = none →
          (s.service io queued max id).stream.pending = [] → s.pending = []) ∨
      ∃ start after, (s.service io queued max id).log id =
          start ++ .sent ⟨OKAY, id, s.remote, []⟩ :: after ∧
        packets start = [] ∧ (∀ p ∈ packets after, p.command ≠ OKAY) ∧
        s.pending ≠ [] ∧ (s.service io queued max id).stream.pending = [] ∧
        written start = s.unwritten ∧ received start = [] := by
  obtain ⟨hqueue, hbytes⟩ := flushPending_spec h false (io.write id)
  obtain ⟨pending, offset, hframe⟩ := s.flushPending_frame false (io.write id)
  have hpass := s.service_pass io queued max id
  generalize s.service io queued max id = r at hpass ⊢
  generalize hf : s.flushPending false (io.write id) = f at *
  have hdrained : s.drained f.stream id = [] ∧
        (s.closing = none → f.stream.pending = [] → s.pending = []) ∨
      s.drained f.stream id = [⟨OKAY, id, s.remote, []⟩] ∧ s.pending ≠ [] ∧
        f.stream.pending = [] ∧ f.written = s.unwritten := by
    unfold drained
    split
    · next hdrain =>
      refine .inr ⟨by simp [hframe], hdrain.1, hdrain.2.1, ?_⟩
      rwa [hqueue.unwritten_eq_nil.mpr hdrain.2.1, List.append_nil] at hbytes
    · next hkeep =>
      refine .inl ⟨rfl, fun hclosing hempty => ?_⟩
      by_contra hpending
      exact hkeep ⟨hpending, hempty, by simp [hframe, hclosing]⟩
  cases hpass with
  | timeout => exact .inl ⟨by simp [Serviced.log], fun hopen => by cases hopen⟩
  | writeFailed =>
      refine .inl ⟨?_, fun hopen => by cases hopen⟩
      simp [Serviced.log, Observation.about]
  | closing t work hresult hclosing =>
      refine .inl ⟨by simp [Serviced.log, Observation.about], fun _ hopen => ?_⟩
      simp [hframe, hopen] at hclosing
  | ended | idle =>
      rcases hdrained with ⟨hnil, hempty⟩ | ⟨hokay, hpending, hempty, hwritten⟩
      · refine .inl ⟨by simp [Serviced.log, Observation.about, hnil], ?_⟩
        exact fun _ => hempty
      · exact .inr ⟨[.wrote f.written], [],
          by simp [Serviced.log, Observation.about, hokay], rfl, by simp, hpending,
          hempty, by simpa using hwritten, rfl⟩
  | read source data =>
      rcases hdrained with ⟨hnil, hempty⟩ | ⟨hokay, hpending, hempty, hwritten⟩
      · refine .inl ⟨?_, fun _ => hempty⟩
        simp [Serviced.log, Observation.about, hnil]
        decide
      · exact .inr ⟨[.wrote f.written, .read data],
          [.sent ⟨WRTE, id, f.stream.remote, data⟩],
          by simp [Serviced.log, Observation.about, hokay], rfl,
          by simp; decide, hpending, hempty, by simpa using hwritten, rfl⟩

/-! ## The invariant -/

/-- What is known of the acknowledgements of a stream.  The first part needs
that no empty payload arrives behind queued ones. -/
structure AcknowledgementInvariant (odd : Connection.Oddity → Prop)
    (v : StreamView) : Prop where
  moments : ¬odd .early → AcknowledgedWritten v.history
  opened : ∀ s, v.stream = some s → Opened v.history
  count : okays v.history ≤ payloads v.history
  queued : ∀ s, v.stream = some s →
    okays v.history + (if s.pending = [] then 0 else 1) ≤ payloads v.history
  answered : ∀ s, v.stream = some s → s.closing = none → s.pending = [] →
    History.Answered StreamEvent.IsPayload StreamEvent.IsOkay v.history

namespace AcknowledgementInvariant

variable {odd : Connection.Oddity → Prop} {v : StreamView}

theorem initial (odd : Connection.Oddity → Prop) :
    AcknowledgementInvariant odd ⟨none, [], false⟩ where
  moments _ := History.eachMoment_nil
  opened s hs := by cases hs
  count := Nat.zero_le _
  queued s hs := by cases hs
  answered s hs := by cases hs

/-- A stream that is opened under an id without history. -/
theorem fresh {h : List StreamEvent} {s : Stream} {p : Packet}
    (hwf : (⟨none, h, false⟩ : StreamView).WellFormed) (hpending : s.pending = [])
    (hp : p.command ≠ CLSE) :
    AcknowledgementInvariant odd ⟨some s, h ++ [.sent p], true⟩ := by
  have hclose := hwf.packets_refused rfl
  have hokays : okays (h ++ [.sent p]) = 0 := by
    rw [okays, packets_append, packets_sent, packets_nil,
      afterOpening_opening p hclose]
    rfl
  have hquiet : ∀ e ∈ h ++ [.sent p], ¬e.IsPayload := by
    rintro e he ⟨data, rfl⟩
    rcases List.mem_append.mp he with he | he
    · exact hwf.unaccepted rfl _ he
    · cases List.mem_singleton.mp he
  have hnone : ∀ q ∈ packets h, q.command ≠ OKAY := by
    intro q hq
    rw [hclose q hq]
    decide
  refine ⟨fun _ => ?_, ?_, ?_, ?_, fun _ _ _ _ => .of_forall_not hquiet⟩
  · refine History.eachMoment_append.mpr
      ⟨AcknowledgedWritten.append History.eachMoment_nil hnone, ?_⟩
    refine History.eachMoment_cons.mpr ⟨?_, History.eachMoment_nil⟩
    rintro - ⟨q, hq, hcommand⟩
    rw [List.append_nil] at hq
    exact absurd (hclose q hq) hcommand
  · rintro _ ⟨rfl⟩
    exact ⟨p, by simp, hp⟩
  · rw [hokays]
    exact Nat.zero_le _
  · rintro _ ⟨rfl⟩
    simp [hokays, hpending]

/-- A change that acknowledges nothing. -/
theorem silent {s : Stream} {o' : Option Stream} {h h' : List StreamEvent}
    {a : Bool} (hinv : AcknowledgementInvariant odd ⟨some s, h, a⟩)
    (hnone : ∀ p ∈ packets h', p.command ≠ OKAY)
    (hqueued : ∀ s', o' = some s' → s'.pending ≠ [] →
      s.pending ≠ [] ∨ payloads h' = 1)
    (hanswered : ∀ s', o' = some s' → s'.closing = none → s'.pending = [] →
      s.closing = none ∧ s.pending = [] ∧ ∀ e ∈ h', ¬e.IsPayload) :
    AcknowledgementInvariant odd ⟨o', h ++ h', a⟩ := by
  have hopened := hinv.opened s rfl
  have hokays : okays (h ++ h') = okays h := by
    rw [okays_append hopened, Nat.add_eq_left, List.countP_eq_zero]
    exact fun p hp => by simpa using hnone p hp
  have hcount := hinv.count
  dsimp only at hcount
  refine ⟨fun hearly => (hinv.moments hearly).append hnone,
    fun _ _ => hopened.append h', ?_, ?_, ?_⟩
  · simp only [hokays, payloads_append]
    omega
  · intro s' hs'
    have hbefore := hinv.queued s rfl
    dsimp only at hbefore ⊢
    rw [hokays, payloads_append]
    by_cases hempty : s'.pending = []
    · rw [if_pos hempty]
      omega
    · rw [if_neg hempty]
      rcases hqueued s' hs' hempty with hpending | hone
      · rw [if_neg hpending] at hbefore
        omega
      · omega
  · intro s' hs' hclosing hempty
    obtain ⟨hclosing, hempty, hquiet⟩ := hanswered s' hs' hclosing hempty
    exact History.answered_append.mpr
      ⟨.inl (hinv.answered s rfl hclosing hempty), .of_forall_not hquiet⟩

/-- A change that acknowledges once, with the queue empty or one more payload. -/
theorem okay {s : Stream} {o' : Option Stream} {h start after : List StreamEvent}
    {a : Bool} {p : Packet} (hinv : AcknowledgementInvariant odd ⟨some s, h, a⟩)
    (hp : p.command = OKAY) (hstart : packets start = [])
    (hafter : ∀ q ∈ packets after, q.command ≠ OKAY)
    (hbytes : ¬odd .early → written (h ++ start) = received (h ++ start))
    (hquiet : ∀ e ∈ after, ¬e.IsPayload)
    (hcount : ∀ s', o' = some s' →
      (if s'.pending = [] then 0 else 1) + 1 ≤
        (if s.pending = [] then 0 else 1) + payloads (start ++ .sent p :: after))
    (hpositive : 1 ≤
      (if s.pending = [] then 0 else 1) + payloads (start ++ .sent p :: after)) :
    AcknowledgementInvariant odd ⟨o', h ++ (start ++ .sent p :: after), a⟩ := by
  have hopened := hinv.opened s rfl
  have hafter' : (packets after).countP (·.command = OKAY) = 0 := by
    rw [List.countP_eq_zero]
    exact fun q hq => by simpa using hafter q hq
  have hokays : okays (h ++ (start ++ .sent p :: after)) = okays h + 1 := by
    rw [okays_append hopened]
    simp [hstart, hp, hafter']
  have hbefore := hinv.queued s rfl
  dsimp only at hbefore
  refine ⟨fun hearly =>
      (hinv.moments hearly).okay hstart hafter (hbytes hearly),
    fun _ _ => hopened.append _, ?_, ?_, ?_⟩
  · rw [hokays, payloads_append]
    omega
  · intro s' hs'
    have hcount := hcount s' hs'
    rw [hokays, payloads_append]
    omega
  · intro s' _ _ _
    have hlast : History.Answered StreamEvent.IsPayload StreamEvent.IsOkay
        ([.sent p] ++ after) := by
      refine .of_forall_not fun e he => ?_
      rcases List.mem_append.mp he with he | he
      · rw [List.mem_singleton.mp he]
        rintro ⟨data, hdata⟩
        cases hdata
      · exact hquiet e he
    have hanswer : ∃ e ∈ [.sent p] ++ after, StreamEvent.IsOkay e :=
      ⟨_, by simp, p, rfl, hp⟩
    rw [← List.append_assoc, ← List.singleton_append]
    exact History.answered_append.mpr ⟨.inr hanswer, hlast⟩

/-- Every change of a stream keeps the invariant. -/
theorem step {io : Io} {max : ℕ} {id : UInt32} {v' : StreamView}
    (hwf : v.WellFormed) (hdelivery : DeliveryInvariant io.now v)
    (hinv : AcknowledgementInvariant odd v)
    (hstep : StreamStep odd io max id v v') : AcknowledgementInvariant odd v' := by
  cases hstep with
  | openHost => exact fresh hwf rfl clse_ne_okay.symm
  | openReverse => exact fresh hwf rfl clse_ne_open.symm
  | ackOpen s h a remote =>
      refine hinv.silent (by simp) ?_ ?_
      · rintro _ ⟨rfl⟩ hpending
        exact .inl hpending
      · rintro _ ⟨rfl⟩ hclosing hpending
        exact ⟨hclosing, hpending, by simp [StreamEvent.IsPayload]⟩
  | ackData s h a =>
      refine hinv.silent (by simp) ?_ ?_
      · rintro _ ⟨rfl⟩ hpending
        exact .inl hpending
      · rintro _ ⟨rfl⟩ hclosing hpending
        exact ⟨hclosing, hpending, by simp [StreamEvent.IsPayload]⟩
  | write s h a data =>
      refine hinv.silent (by simp) ?_ ?_
      · rintro _ ⟨rfl⟩ -
        exact .inr (by simp [payloads, StreamEvent.IsPayload])
      · rintro _ ⟨rfl⟩ - hpending
        simp at hpending
  | writeEmpty s h a hopening hclosing hearly =>
      refine @okay odd s _ h [.accepted (.payload [])] [] a _ hinv rfl rfl (by simp)
        (fun hnot => ?_) (by simp) ?_ ?_
      · obtain ⟨hqueue, hbalance⟩ := hdelivery.queue s rfl
        have hempty := hearly.resolve_right hnot
        rw [hqueue.unwritten_eq_nil.mpr hempty, List.append_nil] at hbalance
        simpa using hbalance
      · rintro _ ⟨rfl⟩
        simp [payloads, StreamEvent.IsPayload]
      · simp [payloads, StreamEvent.IsPayload]
  | close s h a =>
      refine hinv.silent (by simp) ?_ ?_
      · rintro _ ⟨rfl⟩ hpending
        exact .inl hpending
      · rintro _ ⟨rfl⟩ hclosing
        cases hclosing
  | keep s h a queued hkept =>
      have haccepted := fun e he =>
        @Connection.service_log_not_accepted io queued max id s e he
      obtain ⟨hqueue, hbalance⟩ := hdelivery.queue s rfl
      obtain ⟨hqueue', hwritten, -⟩ := hqueue.service_queue io queued max id
      obtain ⟨-, -, hclosing⟩ := s.service_frame io queued max id
      rcases hqueue.service_okay io queued max id with ⟨hnone, hdrained⟩ |
        ⟨start, after, hlog, hstart, hafter, hpending, hempty, hbytes, hreceived⟩
      · refine hinv.silent hnone ?_ ?_
        · rintro _ ⟨rfl⟩ hleft
          refine .inl fun hpending => hleft ?_
          rw [hqueue.unwritten_eq_nil.mpr hpending] at hwritten
          exact hqueue'.unwritten_eq_nil.mp (List.append_eq_nil_iff.mp hwritten).2
        · rintro _ ⟨rfl⟩ hopen hleft
          rw [hclosing] at hopen
          refine ⟨hopen, hdrained hkept hopen hleft, ?_⟩
          rintro e he ⟨data, rfl⟩
          exact haccepted _ he _ rfl
      · have hzero := payloads_eq_zero haccepted
        rw [hlog] at hzero haccepted ⊢
        refine hinv.okay rfl hstart hafter (fun _ => ?_) ?_ ?_ ?_
        · simpa [hbytes, hreceived] using hbalance
        · rintro e he ⟨data, rfl⟩
          exact haccepted (.accepted (.payload data)) (by simp [he]) _ rfl
        · rintro _ ⟨rfl⟩
          simp [hempty, hpending]
        · simp [hpending]
  | remove s h a queued hclosed =>
      have haccepted := fun e he =>
        @Connection.service_log_not_accepted io queued max id s e he
      obtain ⟨hqueue, hbalance⟩ := hdelivery.queue s rfl
      rw [List.append_assoc]
      rcases hqueue.service_okay io queued max id with ⟨hnone, -⟩ |
        ⟨start, after, hlog, hstart, hafter, hpending, hempty, hbytes, hreceived⟩
      · refine hinv.silent (fun p hp => ?_) (fun s' hs' => by cases hs')
          (fun s' hs' => by cases hs')
        rcases List.mem_append.mp (packets_append _ _ ▸ hp) with hp | hp
        · exact hnone p hp
        · obtain rfl := List.mem_singleton.mp hp
          exact clse_ne_okay
      · rw [hlog] at haccepted ⊢
        rw [List.append_assoc, List.cons_append]
        refine hinv.okay rfl hstart (fun q hq => ?_) (fun _ => ?_) ?_
          (fun s' hs' => by cases hs') (by simp [hpending])
        · rcases List.mem_append.mp (packets_append _ _ ▸ hq) with hq | hq
          · exact hafter q hq
          · obtain rfl := List.mem_singleton.mp hq
            exact clse_ne_okay
        · simpa [hbytes, hreceived] using hbalance
        · rintro e he ⟨data, rfl⟩
          rcases List.mem_append.mp he with he | he
          · exact haccepted (.accepted (.payload data)) (by simp [he]) _ rfl
          · cases List.mem_singleton.mp he
  | stray h a remote =>
      refine ⟨fun hearly => (hinv.moments hearly).append (by simp; decide),
        fun s' hs' => (by cases hs'), ?_, fun s' hs' => (by cases hs'),
        fun s' hs' => (by cases hs')⟩
      refine (okays_refused h rfl).trans (hinv.count.trans ?_)
      simp

end AcknowledgementInvariant

namespace Connection

variable {io : Io} {c c' : Connection} {allowed : Oddity → Prop}

theorem ReachableWithin.acknowledgement (h : ReachableWithin allowed c)
    (id : UInt32) : AcknowledgementInvariant allowed (c.view id) :=
  (h.view_invariant
    (fun _ time _ v => DeliveryInvariant time v ∧ AcknowledgementInvariant allowed v)
    (fun _ time _ => ⟨.initial time, .initial allowed⟩)
    (fun _ _ _ _ _ htime hinv => ⟨hinv.1.later htime, hinv.2⟩)
    (fun _ _ _ _ _ hwf hinv hstep =>
      ⟨hinv.1.step hwf hstep, hinv.2.step hwf hinv.1 hstep⟩) id).2

/-- In every run in which no empty payload is accepted behind queued ones, each
acknowledgement of payloads is sent when every payload so far is written to the
service, there are at most as many of them as payloads, and every open stream
with an empty queue has acknowledged its last payload. -/
theorem acknowledged_when_written
    (h : ReachableWithin (fun o => o ≠ .early) c) (id : UInt32) :
    AcknowledgedWritten (c.history id) ∧
      okays (c.history id) ≤ payloads (c.history id) ∧
      ∀ s, c.streams[id]? = some s → s.closing = none → s.pending = [] →
        History.Answered StreamEvent.IsPayload StreamEvent.IsOkay
          (c.history id) := by
  have hinv := h.acknowledgement id
  exact ⟨hinv.moments fun hearly => hearly rfl, hinv.count, hinv.answered⟩

theorem Handled.early_history {p : Packet} {s : Stream} (h : Handled io p c c')
    (hcommand : p.command = WRTE) (hdata : p.data = [])
    (hstream : c.streams[p.arg1]? = some s) :
    c'.history p.arg1 = c.history p.arg1 ++
      [.accepted (.payload []), .sent ⟨OKAY, p.arg1, p.arg0, []⟩] := by
  have hne : ∀ command, p.command = command → command = WRTE :=
    fun command heq => heq.symm.trans hcommand
  cases h with
  | openHost _ _ _ hopen => exact absurd (hne _ hopen) (by decide)
  | refuseOpen _ _ hopen => exact absurd (hne _ hopen) (by decide)
  | ackOpen _ hokay => exact absurd (hne _ hokay) (by decide)
  | ackData _ hokay => exact absurd (hne _ hokay) (by decide)
  | write _ _ _ _ _ _ hsome => exact absurd hdata hsome
  | writeEmpty s tls => exact congrArg StreamView.history (view_acknowledged_self c tls _ _)
  | writeStray _ _ hnone => rw [hstream] at hnone; cases hnone
  | close _ hclse => exact absurd (hne _ hclse) (by decide)
  | stray hstray =>
      rcases hstray with hstray | hstray <;>
        exact absurd (hne _ hstray) (by decide)

/-- The exclusion is needed: an empty payload behind queued ones is
acknowledged too early. -/
theorem early_acknowledged {p : Packet} (h : ReachableWithin allowed c)
    (hearly : (Event.packet p).Odd c .early)
    (hstep : StepOf io (.packet p) c c') :
    ¬AcknowledgedWritten (c'.history p.arg1) := by
  obtain ⟨hcommand, hdata, s, hstream, hremote, hopening, hclosing, hpending⟩ := hearly
  obtain ⟨-, c₁, hrun, rfl⟩ := hstep
  have hopened := (h.acknowledgement p.arg1).opened s hstream
  obtain ⟨hqueue, hbalance⟩ := (h.delivery p.arg1).queue s hstream
  have hhistory : c₁.history p.arg1 = c.history p.arg1 ++
      [.accepted (.payload []), .sent ⟨OKAY, p.arg1, p.arg0, []⟩] := by
    have hhandled := wp_of_ok (@handle_spec io c p) hrun
    exact hhandled.early_history hcommand hdata hstream
  intro hwritten
  change AcknowledgedWritten (c₁.history p.arg1) at hwritten
  rw [hhistory] at hwritten
  have hbytes := hwritten (c.history p.arg1 ++ [.accepted (.payload [])])
    (.sent ⟨OKAY, p.arg1, p.arg0, []⟩) [] (by simp) ⟨_, rfl, rfl⟩
    (hopened.append _)
  simp only [written_append, received_append, written_accepted, written_nil,
    received_payload, received_nil, List.append_nil] at hbytes
  change written (c.history p.arg1) ++ s.unwritten = received (c.history p.arg1) at hbalance
  rw [← hbytes, List.append_right_eq_self, hqueue.unwritten_eq_nil] at hbalance
  exact hpending hbalance

/-- The host writes twice before the service takes a byte. -/
def queuedTurns (data : Bytes) : List Turn :=
  [.packet 1 OPEN 7 0 [115, 121, 110, 99, 58, 0],
    .packet 2 WRTE 7 1 [1, 2, 3], .packet 3 WRTE 7 1 data]

theorem empty_payload_acknowledged_early :
    ¬∀ c, Reachable c → ∀ id, AcknowledgedWritten (c.history id) := by
  intro hall
  have hruns : ∃ c ∈ run (fun _ => True) fresh (queuedTurns []),
      c.history 1 = [.sent ⟨OKAY, 1, 7, []⟩, .accepted (.payload [1, 2, 3]),
        .accepted (.payload []), .sent ⟨OKAY, 1, 7, []⟩] := by
    decide +kernel
  obtain ⟨c, hrun, hhistory⟩ := hruns
  have hwritten := hall c (run_reachable hrun) 1
  rw [hhistory] at hwritten
  have hbytes := hwritten [.sent ⟨OKAY, 1, 7, []⟩, .accepted (.payload [1, 2, 3]),
    .accepted (.payload [])] _ [] rfl ⟨_, rfl, rfl⟩
    ⟨⟨OKAY, 1, 7, []⟩, by simp, by decide⟩
  exact absurd hbytes (by decide)

theorem acknowledged_when_written_twice :
    ∃ c c', ReachableWithin (fun o => o ≠ .early) c' ∧
      run (fun o => o ≠ .early) fresh (queuedTurns [4]) = some c ∧
      run (fun o => o ≠ .early) c
        [.services 4 [.wrote 3, .wrote 1] .wouldBlock] = some c' ∧
      AcknowledgedWritten (c'.history 1) ∧ okays (c.history 1) = 0 ∧
      okays (c'.history 1) = 1 ∧ okays (c'.history 1) ≤ payloads (c'.history 1) := by
  have hruns : ∃ c ∈ run (fun o => o ≠ .early) fresh (queuedTurns [4]),
      ∃ c' ∈ run (fun o => o ≠ .early) c
        [.services 4 [.wrote 3, .wrote 1] .wouldBlock],
      okays (c.history 1) = 0 ∧ okays (c'.history 1) = 1 := by
    decide +kernel
  obtain ⟨c, hrun, c', hlast, hbefore, hafter⟩ := hruns
  have hreach : ReachableWithin (fun o => o ≠ .early) c' :=
    (run_reachable hrun).run (run_step hlast)
  have hwritten := acknowledged_when_written hreach 1
  exact ⟨c, c', hreach, hrun, hlast, hwritten.1, hbefore, hafter, hwritten.2.1⟩

end Connection

end Altdb
