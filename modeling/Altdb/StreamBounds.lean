import Altdb.StreamQueue
import Altdb.Totals
import Altdb.RequestLimits

/-!
# What a connection holds

The representation invariant of an open connection.  Whatever the host sends,
the streams, their queues and the payloads of the packets stay within their
limits, and the identifiers of the streams are in order.
-/

namespace Altdb

open Fallible Relation

/-! ## One stream -/

namespace Stream

/-- The queue of a stream and its place in the opening handshake. -/
structure Sound (s : Stream) : Prop where
  queue : s.Queue
  length_le : s.pending.length ≤ 64
  remote_eq_zero : s.remote = 0 ↔ s.opening.isSome
  unopened : s.opening.isSome → s.pending = []

/-- A flush takes payloads from the front. -/
theorem flushPending_suffix (s : Stream) (work : Bool)
    (script : List WriteOutcome) :
    (s.flushPending work script).stream.pending <:+ s.pending := by
  induction script generalizing s work with
  | nil =>
      unfold flushPending
      repeat' split
      all_goals exact List.suffix_rfl
  | cons outcome script ih =>
      unfold flushPending
      split
      · exact List.suffix_rfl
      · next data rest hpending =>
        split
        · exact List.suffix_rfl
        · dsimp only
          split
          · have hrest := ih { s with pending := rest, offset := 0 } true
            rw [hpending]
            exact hrest.trans (List.suffix_cons data rest)
          · exact ih { s with offset := _ } true
        · exact List.suffix_rfl
        · exact List.suffix_rfl

theorem service_suffix (io : Io) (queued max : ℕ) (id : UInt32) (s : Stream) :
    (s.service io queued max id).stream.pending <:+ s.pending := by
  have hsuffix := s.flushPending_suffix false (io.write id)
  have hpass := s.service_pass io queued max id
  generalize s.service io queued max id = r at hpass ⊢
  cases hpass with
  | timeout => exact List.suffix_rfl
  | writeFailed | closing | ended | idle | read => exact hsuffix

/-- A pass keeps the invariant. -/
theorem Sound.service {s : Stream} (h : s.Sound) (io : Io) (queued max : ℕ)
    (id : UInt32) : (s.service io queued max id).stream.Sound := by
  obtain ⟨hremote, hopening, -⟩ := s.service_frame io queued max id
  have hsuffix := s.service_suffix io queued max id
  refine ⟨(h.queue.service_queue io queued max id).1,
    hsuffix.length_le.trans h.length_le, ?_, fun hsome => ?_⟩
  · rw [hremote, hopening]
    exact h.remote_eq_zero
  · rw [hopening] at hsome
    rw [h.unopened hsome] at hsuffix
    exact List.suffix_nil.mp hsuffix

/-- The offset lies in the first payload, if there is one. -/
theorem Queue.head_lt {s : Stream} (h : s.Queue) :
    ∀ data ∈ s.pending.head?, s.offset < data.length := by
  intro data hdata
  have hoffset := h.offset
  rw [List.headD_eq_head?_getD, Option.mem_def.mp hdata] at hoffset
  exact hoffset

theorem Queue.offset_eq_zero {s : Stream} (h : s.Queue)
    (hpending : s.pending = []) : s.offset = 0 := by
  have hoffset := h.offset
  rw [hpending] at hoffset
  exact Nat.lt_one_iff.mp hoffset

end Stream

/-- The invariant of the stream behind a view. -/
def StreamView.Sound (v : StreamView) : Prop := ∀ s, v.stream = some s → s.Sound

theorem StreamStep.sound {odd : Connection.Oddity → Prop} {io : Io} {max : ℕ}
    {id : UInt32} {v v' : StreamView} (h : v.Sound)
    (hstep : StreamStep odd io max id v v') : v'.Sound := by
  intro s' hs'
  cases hstep with
  | openHost remote source history hid hremote =>
      obtain rfl := Option.some_inj.mp hs'
      refine ⟨⟨by simp [Connection.hostStream], Nat.zero_lt_one⟩,
        Nat.zero_le _, ?_, fun _ => rfl⟩
      simpa [Connection.hostStream] using hremote
  | openReverse fd target history hid =>
      obtain rfl := Option.some_inj.mp hs'
      exact ⟨⟨by simp [Connection.reverseStream], Nat.zero_lt_one⟩,
        Nat.zero_le _, by simp [Connection.reverseStream], fun _ => rfl⟩
  | ackOpen s history a remote hopening hunbound hremote =>
      obtain rfl := Option.some_inj.mp hs'
      have hold := h s rfl
      exact ⟨⟨hold.queue.nonempty, hold.queue.offset⟩, hold.length_le,
        by simpa using hremote, fun hsome => by cases hsome⟩
  | ackData s history a hopening hwaiting =>
      obtain rfl := Option.some_inj.mp hs'
      have hold := h s rfl
      exact ⟨⟨hold.queue.nonempty, hold.queue.offset⟩, hold.length_le,
        hold.remote_eq_zero, hold.unopened⟩
  | write s history a data hopening hclosing hdata hlimit =>
      obtain rfl := Option.some_inj.mp hs'
      have hold := h s rfl
      refine ⟨hold.queue.append hdata, by simpa using hlimit,
        hold.remote_eq_zero, fun hsome => ?_⟩
      simp [hopening] at hsome
  | writeEmpty s history a =>
      obtain rfl := Option.some_inj.mp hs'
      exact h s rfl
  | close s history a =>
      obtain rfl := Option.some_inj.mp hs'
      have hold := h s rfl
      exact ⟨⟨hold.queue.nonempty, hold.queue.offset⟩, hold.length_le,
        hold.remote_eq_zero, hold.unopened⟩
  | keep s history a queued =>
      obtain rfl := Option.some_inj.mp hs'
      exact (h s rfl).service io queued max id
  | remove | stray => cases hs'

namespace Connection

variable {io : Io} {c c' : Connection} {max : ℕ}

theorem ReachableWithin.sound {allowed : Oddity → Prop}
    (h : ReachableWithin allowed c) {id : UInt32} {s : Stream}
    (hstream : c.streams[id]? = some s) : s.Sound :=
  h.view_invariant (fun _ _ _ v => v.Sound) (fun _ _ _ _ hs => by cases hs)
    (fun _ _ _ _ _ _ hv => hv) (fun _ _ _ _ _ _ hv hstep => hstep.sound hv)
    id s hstream

/-- A stream has an id that was given out. -/
theorem WellFormed.id_lt (h : c.WellFormed) {id : UInt32} {s : Stream}
    (hstream : c.streams[id]? = some s) :
    0 < id.toNat ∧ id.toNat < c.next.toNat := by
  have hallocated : c.allocated id = true :=
    (h.view id).allocated (by simp [hstream])
  simpa [Connection.allocated] using hallocated

/-! ## Streams and their input -/

theorem queuedInput_eq (c : Connection) :
    c.queuedInput = Totals.total held c.streams := rfl

/-- The limits on the streams together. -/
structure Contained (c : Connection) : Prop where
  streams : c.streams.size ≤ maxStreams
  input : c.queuedInput ≤ 8 * 1024 * 1024

theorem Contained.congr (h : c.Contained) (hstreams : c'.streams = c.streams) :
    c'.Contained where
  streams := hstreams ▸ h.streams
  input := by
    rw [queuedInput_eq, hstreams]
    exact h.input

/-- A stream that takes the place of another one. -/
theorem size_replace {streams : Streams} {id : UInt32} {s : Stream}
    (hstream : streams[id]? = some s) (s' : Stream) :
    (streams.insert id s').size = streams.size := by
  rw [Std.TreeMap.size_insert, Std.TreeMap.contains_eq_isSome_getElem?, hstream]
  rfl

/-- A stream that holds what the one that it replaces held. -/
theorem Contained.updated {id : UInt32} {s s' : Stream} {what : Acceptance}
    (h : c.Contained) (hstream : c.streams[id]? = some s)
    (hpending : s'.pending = s.pending) : (c.updated id s' what).Contained := by
  refine ⟨(size_replace hstream s').trans_le h.streams, ?_⟩
  have htotal := @Totals.total_insert _ _ _ _ _ held c.streams id s'
  have hsame : held s' = held s := by rw [held, hpending, held]
  rw [hstream, Option.elim_some, hsame] at htotal
  have hinput := h.input
  rw [queuedInput_eq] at hinput ⊢
  show Totals.total held (c.streams.insert id s') ≤ _
  omega

/-- A fresh stream holds nothing. -/
theorem Contained.opened {s : Stream} {tls : Tls} {p : Packet}
    (h : c.Contained) (hallocate : c.CanAllocate) (hpending : s.pending = []) :
    (c.opened c.next s tls p).Contained := by
  refine ⟨?_, ?_⟩
  · show (c.streams.insert c.next s).size ≤ maxStreams
    have hsize := Std.TreeMap.size_insert_le (t := c.streams) (k := c.next) (v := s)
    exact hsize.trans hallocate.slot
  · have htotal := @Totals.total_insert _ _ _ _ _ held c.streams c.next s
    have hnone : held s = 0 := by rw [held, hpending]; rfl
    have hinput := h.input
    rw [queuedInput_eq] at hinput ⊢
    show Totals.total held (c.streams.insert c.next s) ≤ _
    omega

theorem Handled.contained {p : Packet} (h : c.Contained)
    (hhandled : Handled io p c c') : c'.Contained := by
  cases hhandled with
  | openHost source c₁ tls hcommand hremote hfresh htalks hallocate =>
      obtain ⟨reverse, calls, rfl⟩ := htalks
      exact Contained.opened (h.congr rfl) ⟨hallocate.slot, hallocate.id⟩ rfl
  | refuseOpen c₁ tls hcommand hremote htalks =>
      exact h.congr htalks.streams_eq
  | ackOpen s hcommand hstream hremote hopening hunbound =>
      exact h.updated hstream rfl
  | ackData s hcommand hstream hopening hremote hwaiting =>
      exact h.updated hstream rfl
  | write s hcommand hstream hremote hopening hclosing hdata hlimit hqueue =>
      have htotal := @Totals.total_insert _ _ _ _ _ held c.streams p.arg1
        { s with pending := s.pending ++ [p.data] }
      have hmore : held { s with pending := s.pending ++ [p.data] } =
          held s + p.data.length := by
        simp [held]
      rw [hstream, Option.elim_some, hmore] at htotal
      rw [queuedInput_eq] at hqueue
      refine ⟨(size_replace hstream _).trans_le h.streams, ?_⟩
      rw [queuedInput_eq]
      show Totals.total held (c.streams.insert p.arg1 _) ≤ _
      omega
  | writeEmpty => exact h.congr rfl
  | writeStray => exact h.congr rfl
  | close s hcommand hstream hid => exact h.updated hstream rfl
  | stray => exact h

theorem held_suffix {s s' : Stream} (h : s'.pending <:+ s.pending) :
    held s' ≤ held s := by
  have hsublist := h.sublist.map List.length
  exact hsublist.sum_le_sum fun _ _ => Nat.zero_le _

/-- A pass writes the queues out and removes streams. -/
theorem Contained.passed (h : c.Contained) (hpassed : ∀ id, PassedView io c c' id) :
    c'.Contained := by
  have hold : ∀ (id : UInt32) (s' : Stream), c'.streams[id]? = some s' →
      ∃ s, c.streams[id]? = some s ∧ held s' ≤ held s := by
    intro id s' hs'
    obtain ⟨s, hs, rfl⟩ := (hpassed id).kept hs'
    exact ⟨s, hs, held_suffix (s.service_suffix io _ _ id)⟩
  refine ⟨?_, (Totals.total_le hold).trans h.input⟩
  exact (Totals.size_le fun id s' hs' => (hold id s' hs').imp fun _ hs => hs.1).trans
    h.streams

theorem Contained.offers (h : c.Contained)
    (hoffers : ReflTransGen (Offers io) c c') : c'.Contained := by
  refine Transition.stable ?_ h hoffers
  rintro c₁ c₂ h₁ ⟨fd, target, tls, hallocate, rfl⟩
  exact h₁.opened hallocate rfl

theorem Performed.contained {event : Event} (h : c.Contained)
    (hperformed : Performed io c event c') : c'.Contained := by
  cases hperformed with
  | packet p _ hhandled => exact hhandled.contained h
  | services _ _ _ hpassed => exact h.passed hpassed
  | reverseAccept _ hoffers => exact h.offers hoffers
  | flush tls => exact h.congr rfl

theorem ReachableWithin.contained {allowed : Oddity → Prop}
    (h : ReachableWithin allowed c) : c.Contained := by
  refine h.invariant ?_ ?_
  · rintro c ⟨tls, transport, max, now, -, -, rfl⟩
    exact ⟨Nat.zero_le _, Nat.zero_le _⟩
  · rintro c c' - hc ⟨io, event, -, hstep⟩
    obtain ⟨c₁, hperformed, rfl⟩ := hstep.performed
    exact (hperformed.contained hc).congr rfl

/-! ## Packets of the device -/

/-- The targets that a connection offers streams for are valid, and what it has
sent fits into packets of the negotiated size. -/
structure Bounded (max : ℕ) (c : Connection) : Prop where
  max_eq : c.max = max
  targets : ∀ (spec : String) (r : Reverse), c.reverse[spec]? = some r →
    validateEndpoint r.target false = .ok ()
  sent : ∀ p, .sent p ∈ c.transcript → p.data.length ≤ max

theorem Bounded.self (h : c.Bounded max) : c.Bounded c.max :=
  ⟨rfl, h.targets, h.max_eq ▸ h.sent⟩

theorem payloadLimit_le (hmax : 4096 ≤ max) (command : UInt32) :
    payloadLimit max command ≤ max := by
  unfold payloadLimit
  split
  · omega
  · exact min_le_left _ _

theorem bounded_steady (hmax : 4096 ≤ max) : Steady io (fun _ => True) (Bounded max) where
  bytes _ := trivial
  accepted _ := trivial
  spawned _ _ _ := trivial
  sources _ _ := trivial
  aimed h := h.targets
  congr h _ hsame hreverse htranscript _ :=
    ⟨hsame.trans h.max_eq, hreverse ▸ h.targets, htranscript ▸ h.sent⟩
  log h hregular := by
    refine { h with sent := fun p hp => ?_ }
    rcases List.mem_append.mp hp with hold | hnew
    · exact h.sent p hold
    · have hlimit := hregular _ hnew
      rw [Regular, h.max_eq] at hlimit
      exact hlimit.trans (payloadLimit_le hmax p.command)
  remove h _ := by
    refine ⟨h.max_eq, Aimed.erase h.targets _ _, fun p hp => ?_⟩
    rcases List.mem_append.mp hp with hold | hnew
    · exact h.sent p hold
    · cases List.mem_singleton.mp hnew
  insert h _ _ hremote _ := { h with targets := Aimed.insert h.targets hremote _ _ }

theorem ReachableWithin.bounded {allowed : Oddity → Prop}
    (h : ReachableWithin allowed c) : 4096 ≤ c.max ∧ c.Bounded c.max := by
  refine @Transition.Reachable.invariant _ _ _
    (fun c : Connection => 4096 ≤ c.max ∧ c.Bounded c.max) ?_ ?_ c h
  · rintro c ⟨tls, transport, max, now, hmax, -, rfl⟩
    exact ⟨hmax, rfl, fun spec r hr => by simp [initial] at hr,
      fun p hp => by cases hp⟩
  · rintro c c' - ⟨hmax, hc⟩ ⟨io, event, -, -, c₁, hrun, rfl⟩
    have hbounded := wp_of_ok (perform_steady (bounded_steady hmax) event c hc) hrun
    have hclock : Bounded c.max { c₁ with clock := io.now } :=
      (@bounded_steady io c.max hmax).same hbounded rfl rfl rfl rfl rfl
    exact ⟨hclock.max_eq.ge.trans' hmax, hclock.self⟩

/-! ## Every run -/

/-- What an open connection holds and what it has sent, in every run. -/
theorem resources_bounded {c : Connection} (h : Reachable c) :
    c.streams.size ≤ 64 ∧ c.queuedInput ≤ 8 * 1024 * 1024 ∧
    (∀ (id : UInt32) (s : Stream), c.streams[id]? = some s →
      (1 ≤ id ∧ id < c.next) ∧
      s.pending.length ≤ 64 ∧ (∀ data ∈ s.pending, data ≠ []) ∧
      (∀ data ∈ s.pending.head?, s.offset < data.length) ∧
      (s.pending = [] → s.offset = 0) ∧
      (∀ work script, ∀ data ∈ (s.flushPending work script).stream.pending.head?,
        (s.flushPending work script).stream.offset < data.length ∧
        data.drop (s.flushPending work script).stream.offset ≠ []) ∧
      (s.remote = 0 ↔ s.opening.isSome) ∧ (s.opening.isSome → s.pending = [])) ∧
    ∀ p, .sent p ∈ c.transcript → p.data.length ≤ c.max := by
  have hcontained := ReachableWithin.contained h
  refine ⟨hcontained.streams, hcontained.input, fun id s hstream => ?_,
    (ReachableWithin.bounded h).2.sent⟩
  have hsound := ReachableWithin.sound h hstream
  obtain ⟨hpos, hlt⟩ := (ReachableWithin.wellFormed h).id_lt hstream
  refine ⟨⟨hpos, hlt⟩, hsound.length_le, hsound.queue.nonempty,
    hsound.queue.head_lt, hsound.queue.offset_eq_zero,
    fun work script data hdata => ?_, hsound.remote_eq_zero, hsound.unopened⟩
  have hflushed := (Stream.flushPending_spec hsound.queue work script).1
  have hoffset := hflushed.head_lt data hdata
  exact ⟨hoffset, by simpa using hoffset⟩

/-- The host writes two bytes, of which the service takes one. -/
def partialTurns : List Turn :=
  [.packet 1 OPEN 7 0 (utf8 "shell:\x00"), .packet 2 WRTE 7 1 [1, 2],
    .services 3 [.wrote 1] .wouldBlock]

theorem resources_bounded_partial :
    ∃ c, Reachable c ∧ c.streams.size ≤ 64 ∧
      ∃ s, c.streams[(1 : UInt32)]? = some s ∧ s.pending = [[1, 2]] ∧
        ∀ data ∈ s.pending.head?, s.offset < data.length := by
  have hruns : ∃ c ∈ run (fun _ => True) fresh partialTurns,
      (c.streams[(1 : UInt32)]?.map fun s => s.pending) = some [[1, 2]] := by
    decide +kernel
  obtain ⟨c, hrun, hpending⟩ := hruns
  have hreach : Reachable c := run_reachable hrun
  obtain ⟨s, hstream, hpending⟩ := Option.map_eq_some_iff.mp hpending
  obtain ⟨hsize, -, hstreams, -⟩ := resources_bounded hreach
  exact ⟨c, hreach, hsize, s, hstream, hpending, (hstreams 1 s hstream).2.2.2.1⟩

end Connection

end Altdb
