import Altdb.StreamQueue

/-!
# Delivery of the payloads of the host

The payloads that a stream accepts from the host reach its service in order and
without loss or repetition.  A stream that the host closed is drained before its
`CLSE` is answered, unless the service is too slow or fails.
-/

namespace Altdb

open Fallible

/-- What is known of the bytes and the closing of one stream. -/
structure DeliveryInvariant (time : Instant) (v : StreamView) : Prop where
  queue : ∀ s, v.stream = some s →
    s.Queue ∧ written v.history ++ s.unwritten = received v.history
  unopened : ∀ s, v.stream = some s → s.opening.isSome → s.pending = []
  delivered : written v.history <+: received v.history
  closed : ∀ t₀, .accepted (.closed t₀) ∈ v.history → t₀ ≤ time ∧
    ∀ s, v.stream = some s → ∃ t, s.closing = some t ∧ t₀ ≤ t

namespace DeliveryInvariant

variable {time : Instant} {v : StreamView}

/-- A stream that is opened under an id without history. -/
theorem opened {h : List StreamEvent} {s : Stream} {p : Packet}
    (hwf : (⟨none, h, false⟩ : StreamView).WellFormed) (hpending : s.pending = [])
    (hoffset : s.offset = 0) :
    DeliveryInvariant time ⟨some s, h ++ [.sent p], true⟩ := by
  have hbytes : written h = [] ∧ received h = [] := by
    simp only [written, received, List.flatMap_eq_nil_iff]
    refine ⟨fun e he => ?_, fun e he => ?_⟩ <;>
      obtain ⟨q, rfl, -⟩ := hwf.refused rfl e he <;> rfl
  refine ⟨?_, ?_, ?_, ?_⟩
  · rintro _ ⟨rfl⟩
    refine ⟨⟨by simp [hpending], by simp [hpending, hoffset]⟩, ?_⟩
    simp [hbytes, Stream.unwritten, hpending]
  · rintro _ ⟨rfl⟩ -
    exact hpending
  · simp [hbytes]
  · intro t₀ hclosed
    rcases List.mem_append.mp hclosed with hclosed | hclosed
    · exact absurd hclosed (hwf.unaccepted rfl _)
    · cases List.mem_singleton.mp hclosed

/-- A change that keeps the balance of bytes and adds no closing. -/
theorem kept {h h' : List StreamEvent} {s s' : Stream} {a : Bool}
    (hinv : DeliveryInvariant time ⟨some s, h, a⟩)
    (hqueue : s'.Queue)
    (hbytes : written h' ++ s'.unwritten = s.unwritten ++ received h')
    (hopening : s'.opening.isSome → s'.pending = [])
    (hclosing : s'.closing = s.closing)
    (hnone : ∀ t, .accepted (.closed t) ∉ h') :
    DeliveryInvariant time ⟨some s', h ++ h', a⟩ := by
  have hbalance : written (h ++ h') ++ s'.unwritten = received (h ++ h') := by
    rw [written_append, received_append, List.append_assoc, hbytes,
      ← List.append_assoc, (hinv.queue s rfl).2]
  refine ⟨?_, ?_, ⟨_, hbalance⟩, ?_⟩
  · rintro _ ⟨rfl⟩
    exact ⟨hqueue, hbalance⟩
  · rintro _ ⟨rfl⟩
    exact hopening
  · intro t₀ hclosed
    rcases List.mem_append.mp hclosed with hclosed | hclosed
    · obtain ⟨htime, hstream⟩ := hinv.closed t₀ hclosed
      refine ⟨htime, ?_⟩
      rintro _ ⟨rfl⟩
      rw [hclosing]
      exact hstream s rfl
    · exact absurd hclosed (hnone t₀)

/-- The stream is gone, or there was none. -/
theorem gone {o : Option Stream} {h h' : List StreamEvent} {a : Bool}
    (hinv : DeliveryInvariant time ⟨o, h, a⟩)
    (hdelivered : written (h ++ h') <+: received (h ++ h'))
    (hnone : ∀ t, .accepted (.closed t) ∉ h') :
    DeliveryInvariant time ⟨none, h ++ h', a⟩ where
  queue s hs := by cases hs
  unopened s hs := by cases hs
  delivered := hdelivered
  closed t₀ hclosed := by
    rcases List.mem_append.mp hclosed with hclosed | hclosed
    · exact ⟨(hinv.closed t₀ hclosed).1, fun s hs => by cases hs⟩
    · exact absurd hclosed (hnone t₀)

theorem initial (time : Instant) :
    DeliveryInvariant time ⟨none, [], false⟩ where
  queue s hs := by cases hs
  unopened s hs := by cases hs
  delivered := List.nil_prefix
  closed t₀ h := by cases h

theorem later {time' : Instant} (htime : time ≤ time')
    (h : DeliveryInvariant time v) : DeliveryInvariant time' v where
  queue := h.queue
  unopened := h.unopened
  delivered := h.delivered
  closed t₀ hclosed :=
    ⟨(h.closed t₀ hclosed).1.trans htime, (h.closed t₀ hclosed).2⟩

/-- Every change of a stream keeps the invariant. -/
theorem step {odd : Connection.Oddity → Prop} {io : Io} {max : ℕ} {id : UInt32}
    {v' : StreamView} (hwf : v.WellFormed) (hinv : DeliveryInvariant io.now v)
    (hstep : StreamStep odd io max id v v') : DeliveryInvariant io.now v' := by
  cases hstep with
  | openHost => exact opened hwf rfl rfl
  | openReverse => exact opened hwf rfl rfl
  | ackOpen s h a remote hopening =>
      have hqueue := (hinv.queue s rfl).1
      exact hinv.kept ⟨hqueue.nonempty, hqueue.offset⟩
        (by simp [Stream.unwritten]) (fun hsome => by cases hsome) rfl (by simp)
  | ackData s h a hopening hwaiting =>
      have hqueue := (hinv.queue s rfl).1
      exact hinv.kept ⟨hqueue.nonempty, hqueue.offset⟩
        (by simp [Stream.unwritten]) (hinv.unopened s rfl) rfl (by simp)
  | write s h a data hopening hclosing hdata hlimit =>
      have hqueue := (hinv.queue s rfl).1
      refine hinv.kept (hqueue.append hdata) ?_ ?_ rfl (by simp)
      · simpa using hqueue.unwritten_append data
      · simp [hopening]
  | writeEmpty s h a hopening =>
      exact hinv.kept (hinv.queue s rfl).1 (by simp) (hinv.unopened s rfl) rfl
        (by simp)
  | close s h a =>
      obtain ⟨hqueue, hbalance⟩ := hinv.queue s rfl
      refine ⟨?_, ?_, ?_, ?_⟩
      · rintro _ ⟨rfl⟩
        exact ⟨⟨hqueue.nonempty, hqueue.offset⟩,
          by simpa [Stream.unwritten] using hbalance⟩
      · rintro _ ⟨rfl⟩
        exact hinv.unopened s rfl
      · simpa using hinv.delivered
      · intro t₀ hclosed
        have hle : t₀ ≤ io.now := by
          rcases List.mem_append.mp hclosed with hclosed | hclosed
          · exact (hinv.closed t₀ hclosed).1
          · cases List.mem_singleton.mp hclosed
            exact le_rfl
        refine ⟨hle, ?_⟩
        rintro _ ⟨rfl⟩
        exact ⟨io.now, rfl, hle⟩
  | keep s h a queued hkept =>
      obtain ⟨hqueue, hwritten, hreceived⟩ :=
        (hinv.queue s rfl).1.service_queue io queued max id
      obtain ⟨-, hopening, hclosing⟩ := s.service_frame io queued max id
      refine hinv.kept hqueue (by rw [hwritten, hreceived, List.append_nil]) ?_
        hclosing fun t ht =>
          Connection.service_log_not_accepted io queued max id s ht _ rfl
      intro hsome
      rw [hopening] at hsome
      rw [← hqueue.unwritten_eq_nil]
      have hnil := (hinv.queue s rfl).1.unwritten_eq_nil.mpr (hinv.unopened s rfl hsome)
      rw [hnil] at hwritten
      exact (List.append_eq_nil_iff.mp hwritten).2
  | remove s h a queued hclosed =>
      obtain ⟨hqueue, hwritten, hreceived⟩ :=
        (hinv.queue s rfl).1.service_queue io queued max id
      rw [List.append_assoc]
      refine hinv.gone ⟨(s.service io queued max id).stream.unwritten, ?_⟩ ?_
      · simp [hreceived, hwritten, (hinv.queue s rfl).2]
      · intro t ht
        rcases List.mem_append.mp ht with ht | ht
        · exact Connection.service_log_not_accepted io queued max id s ht _ rfl
        · cases List.mem_singleton.mp ht
  | stray h a remote => exact hinv.gone (by simpa using hinv.delivered) (by simp)

end DeliveryInvariant

namespace Connection

variable {io : Io} {c c' : Connection}

theorem ReachableWithin.delivery {allowed : Oddity → Prop}
    (h : ReachableWithin allowed c) (id : UInt32) :
    DeliveryInvariant c.clock (c.view id) :=
  h.view_invariant (fun _ time _ v => DeliveryInvariant time v)
    (fun _ time _ => .initial time) (fun _ _ _ _ _ htime hinv => hinv.later htime)
    (fun _ _ _ _ _ hwf hinv hstep => hinv.step hwf hstep) id

/-! ## Failing steps -/

/-- Packets and empty payloads are no bytes of the service. -/
theorem Quiet.bytes (h : Quiet c c') (id : UInt32) :
    ∃ rest, c'.history id = c.history id ++ rest ∧ written rest = [] ∧
      received rest = [] := by
  obtain ⟨rest, htranscript, hrest⟩ := h
  refine ⟨rest.filterMap (·.about id), by simp [Connection.history, htranscript], ?_⟩
  simp only [written, received, List.flatMap_eq_nil_iff]
  have hevent : ∀ e ∈ rest.filterMap (·.about id),
      (∃ p, e = .sent p) ∨ e = .accepted (.payload []) := by
    intro e he
    obtain ⟨o, ho, habout⟩ := List.mem_filterMap.mp he
    rcases hrest o ho with ⟨p, rfl⟩ | ⟨r, rfl⟩ | ⟨other, rfl⟩
    · simp only [Observation.about, Option.ite_none_right_eq_some,
        Option.some.injEq] at habout
      exact .inl ⟨p, habout.2.symm⟩
    · cases habout
    · simp only [Observation.about, Option.ite_none_right_eq_some,
        Option.some.injEq] at habout
      exact .inr habout.2.symm
  refine ⟨fun e he => ?_, fun e he => ?_⟩ <;>
    rcases hevent e he with ⟨p, rfl⟩ | rfl <;> rfl

/-- The loop of a pass keeps the balance of bytes of a stream. -/
theorem ReachableWithin.looped_balance {allowed : Oddity → Prop}
    (h : ReachableWithin allowed c) {id : UInt32} {s : Stream}
    (hstream : c.streams[id]? = some s) :
    (passed io c id s).stream.Queue ∧
      written ((looped io c).history id) ++ (passed io c id s).stream.unwritten =
        received ((looped io c).history id) := by
  obtain ⟨hqueue, hbalance⟩ := (h.delivery id).queue s hstream
  obtain ⟨hqueue', hwritten, hreceived⟩ :=
    hqueue.service_queue io c.tls.queued c.max id
  change written ((passed io c id s).log id) ++ _ = _ at hwritten
  change received ((passed io c id s).log id) = [] at hreceived
  simp only [Stream.Serviced.log, written_append, received_append,
    written_map_sent, received_map_sent, List.append_nil] at hwritten hreceived
  refine ⟨hqueue', ?_⟩
  rw [history_looped, hstream, Option.map_some, Option.getD_some, written_append,
    received_append, hreceived, List.append_nil, List.append_assoc]
  change written (c.history id) ++ s.unwritten = received (c.history id) at hbalance
  rw [← hbalance, ← hwritten]
  rfl

/-- A step that fails has delivered no more than it received. -/
theorem ReachableWithin.delivered_of_abort {allowed : Oddity → Prop}
    {event : Event} (h : ReachableWithin allowed c)
    (habort : AbortOf io event c c') (id : UInt32) :
    written (c'.history id) <+: received (c'.history id) := by
  obtain ⟨-, error, c₁, hrun, rfl⟩ := habort
  have hquiet := wp_of_error (perform_spec event) hrun
  change written (c₁.history id) <+: received (c₁.history id)
  rcases hquiet with hquiet | hquiet
  · obtain ⟨rest, heq, hwritten, hreceived⟩ := hquiet.bytes id
    simpa [heq, hwritten, hreceived] using (h.delivery id).delivered
  · obtain ⟨rest, heq, hwritten, hreceived⟩ := hquiet.quiet.bytes id
    rw [heq, written_append, received_append, hwritten, hreceived,
      List.append_nil, List.append_nil]
    cases hstream : c.streams[id]? with
    | none =>
        rw [history_looped, hstream]
        simpa using (h.delivery id).delivered
    | some s => exact ⟨_, (h.looped_balance hstream).2⟩

/-! ## Draining before the `CLSE` -/

/-- A pass whose writes succeed removes a stream that the host closed within
the last second only after its queue was drained. -/
theorem ReachableWithin.drained_of_ended {allowed : Oddity → Prop}
    {id : UInt32} {s : Stream} {t₀ : Instant} {work : Bool}
    (h : ReachableWithin allowed c) (hstream : c.streams[id]? = some s)
    (hended : (passed io c id s).closed = true)
    (hclose : .accepted (.closed t₀) ∈ c.history id)
    (hsecond : io.clock id - t₀ ≤ secs 1)
    (hflushed : (s.flushPending false (io.write id)).result = .ok work) :
    (passed io c id s).stream.pending = [] := by
  have hinv := h.delivery id
  obtain ⟨t, hclosing, ht⟩ := (hinv.closed t₀ hclose).2 s hstream
  obtain ⟨pending, offset, hframe⟩ := s.flushPending_frame false (io.write id)
  have hpass := s.service_pass io c.tls.queued c.max id
  change Stream.Pass io c.max id s _ (passed io c id s) at hpass
  generalize passed io c id s = r at hpass hended ⊢
  cases hpass with
  | timeout t' hopening =>
      exact hinv.unopened s hstream (by simp [hopening])
  | writeFailed error hresult => simp [hflushed] at hresult
  | closing t' work' hresult hclosing' =>
      obtain rfl : t = t' := by simpa [hframe, hclosing] using hclosing'
      have hnot : ¬secs 1 < io.clock id - t :=
        not_lt.mpr ((Nat.sub_le_sub_left ht _).trans hsecond)
      simpa [hnot] using hended
  | ended work' hresult hnone | idle work' hresult hnone
  | read source data work' hresult hnone =>
      simp [hframe, hclosing] at hnone

/-- A pass ends with the loop and what follows it. -/
theorem fewer_of_services
    (h : StepOf io .services c c' ∨ AbortOf io .services c c') :
    Fewer (ended io c) (looped io c) c' := by
  rcases h with h | ⟨-, error, c₁, hrun, rfl⟩
  · obtain ⟨c₁, hperformed, rfl⟩ := h.performed
    cases hperformed with
    | services _ _ _ _ hfewer => exact ⟨hfewer.quiet, hfewer.streams⟩
  · have hspec : wp (perform io .services) (fun _ _ => True)
        (fun _ => Fewer (ended io c) (looped io c)) c := by
      simp only [perform, wp_bind]
      exact wp_mono services_spec (fun _ _ _ => trivial) (fun _ _ h => h)
    have hfewer := wp_of_error hspec hrun
    exact ⟨hfewer.quiet, hfewer.streams⟩

/-- In every run and for every stream, the bytes written to the service are a
prefix of the payloads accepted from the host.  When a pass without a write
error removes the stream within a second of a `CLSE` of the host, all of them
are written before any packet of the stream is sent. -/
theorem stream_delivery (h : Reachable c) (id : UInt32) :
    written (c.history id) <+: received (c.history id) ∧
      (∀ io event c', AbortOf io event c c' →
        written (c'.history id) <+: received (c'.history id)) ∧
      ∀ io c' s t₀ work,
        (StepOf io .services c c' ∨ AbortOf io .services c c') →
        c.streams[id]? = some s → c'.streams[id]? = none →
        .accepted (.closed t₀) ∈ c.history id →
        io.clock id - t₀ ≤ secs 1 →
        (s.flushPending false (io.write id)).result = .ok work →
        ∀ before p after, c'.history id = before ++ .sent p :: after →
          c.history id <+: before → written before = received before := by
  refine ⟨(h.delivery id).delivered, fun io event c' habort =>
    h.delivered_of_abort habort id, ?_⟩
  intro io c' s t₀ work hstep hstream hgone hclose hsecond hflushed before p
    after heq hprefix
  have hfewer := fewer_of_services hstep
  have hended : (passed io c id s).closed = true := by
    by_contra hopen
    have hkept := hfewer.streams id (by simp [mem_ended, hstream, hopen])
    simp [hgone, looped_streams, hstream] at hkept
  have hpending := h.drained_of_ended hstream hended hclose hsecond hflushed
  obtain ⟨hqueue, hbalance⟩ := @ReachableWithin.looped_balance io c _ h id s hstream
  rw [hqueue.unwritten_eq_nil.mpr hpending, List.append_nil] at hbalance
  -- All writes precede the first packet of the pass.
  obtain ⟨rest, hrest, hwritten, hreceived⟩ := hfewer.quiet.bytes id
  have hsplit : ∃ start, before = (looped io c).history id ++ start ∧
      rest = start ++ .sent p :: after := by
    rcases History.append_eq_append_cons (hrest.symm.trans heq) with
      ⟨tail, htail, -⟩ | hsplit
    · exfalso
      rw [history_looped, hstream, Option.map_some, Option.getD_some] at htail
      obtain ⟨middle, rfl⟩ := hprefix
      rw [List.append_assoc, List.append_cancel_left_eq] at htail
      have hmem : StreamEvent.sent p ∈
          (passed io c id s).observations.filterMap (·.about id) := by
        simp [htail]
      obtain ⟨o, ho, habout⟩ := List.mem_filterMap.mp hmem
      rcases (service_log_about io _ _ id s).1 o ho with ⟨data, rfl⟩ | ⟨data, rfl⟩ <;>
        simp [Observation.about] at habout
    · exact hsplit
  obtain ⟨start, rfl, rfl⟩ := hsplit
  rw [written_append] at hwritten
  rw [received_append] at hreceived
  rw [written_append, received_append, (List.append_eq_nil_iff.mp hwritten).1,
    (List.append_eq_nil_iff.mp hreceived).1, List.append_nil, List.append_nil,
    hbalance]

/-- The host opens a stream, writes twice and closes it.  The service takes
the bytes in two passes. -/
def drainedTurns : List Turn :=
  [.packet 1 OPEN 7 0 [115, 121, 110, 99, 58, 0],
    .packet 2 WRTE 7 1 [1, 2, 3], .services 3 [.wrote 2] .wouldBlock,
    .packet 4 WRTE 7 1 [4, 5], .packet 5 CLSE 7 1 []]

def lastTurn : Turn := .services 6 [.wrote 1, .wrote 2] .wouldBlock

theorem stream_delivery_drained :
    ∃ c c', Reachable c ∧ StepOf lastTurn.answers .services c c' ∧
      written (c.history 1) <+: received (c.history 1) ∧
      ∃ before p, c'.history 1 = before ++ [.sent p] ∧ p.command = CLSE ∧
        written before = [1, 2, 3, 4, 5] ∧ written before = received before := by
  have hruns : ∃ c ∈ run (fun _ => True) fresh drainedTurns,
      ∃ c' ∈ run (fun _ => True) c [lastTurn], ∃ s ∈ c.streams[(1 : UInt32)]?,
        (s.flushPending false (lastTurn.answers.write 1)).result.toOption = some true ∧
        c'.streams[(1 : UInt32)]? = none ∧
        .accepted (.closed 5) ∈ c.history 1 ∧
        c.history 1 <+: (c'.history 1).dropLast ∧
        c'.history 1 = (c'.history 1).dropLast ++ [.sent ⟨CLSE, 1, 7, []⟩] ∧
        written (c'.history 1).dropLast = [1, 2, 3, 4, 5] := by
    decide +kernel
  obtain ⟨c, hrun, c', hlast, s, hstream, hresult, hgone, hclose, hprefix, heq,
    hbytes⟩ := hruns
  have hstep := stepOf_of_run hlast
  have hdelivery := stream_delivery (run_reachable hrun) 1
  have hflushed : (s.flushPending false (lastTurn.answers.write 1)).result =
      .ok true := by
    cases hresult' : (s.flushPending false (lastTurn.answers.write 1)).result with
    | error e => simp [hresult', Except.toOption] at hresult
    | ok work => simpa [hresult', Except.toOption] using hresult
  refine ⟨c, c', run_reachable hrun, hstep, hdelivery.1, _, _, heq, rfl, hbytes, ?_⟩
  exact hdelivery.2.2 _ c' s 5 true (.inl hstep) hstream hgone hclose (by decide)
    hflushed _ _ [] heq hprefix

end Connection

end Altdb
