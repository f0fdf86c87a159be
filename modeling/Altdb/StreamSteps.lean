import Altdb.ServicePass
import Altdb.Transition

/-!
# The steps of one stream

What a connection does for one stream id is a small transition system of its
own.  `StreamStep` lists the ways in which a view can change, and
`Performed.moves` shows that every step of the connection is, for each id, a
sequence of such changes.  A property of one stream is proved on `StreamStep`
alone and carried to all runs by `Reachable.view_invariant`.
-/

namespace Altdb

open Fallible Relation

/-- The ways in which the view of the stream `id` changes, with the given
oddities. -/
inductive StreamStep (odd : Connection.Oddity → Prop) (io : Io) (max : ℕ) (id : UInt32) :
    StreamView → StreamView → Prop
  | openHost (remote : UInt32) (source : Source) (h : List StreamEvent)
      (hid : id ≠ 0) (hremote : remote ≠ 0) :
      StreamStep odd io max id ⟨none, h, false⟩
        ⟨some (Connection.hostStream remote source),
          h ++ [.sent ⟨OKAY, id, remote, []⟩], true⟩
  | openReverse (fd : Fd) (target : Bytes) (h : List StreamEvent)
      (hid : id ≠ 0) :
      StreamStep odd io max id ⟨none, h, false⟩
        ⟨some (Connection.reverseStream fd io.now),
          h ++ [.sent ⟨OPEN, id, 0, target⟩], true⟩
  | ackOpen (s : Stream) (h : List StreamEvent) (a : Bool) (remote : UInt32)
      (hopening : s.opening.isSome) (hunbound : s.remote = 0)
      (hremote : remote ≠ 0) :
      StreamStep odd io max id ⟨some s, h, a⟩
        ⟨some { s with opening := none, remote := remote },
          h ++ [.accepted .opened], a⟩
  | ackData (s : Stream) (h : List StreamEvent) (a : Bool)
      (hopening : s.opening = none) (hwaiting : s.waiting = true) :
      StreamStep odd io max id ⟨some s, h, a⟩
        ⟨some { s with waiting := false }, h ++ [.accepted .acknowledged], a⟩
  | write (s : Stream) (h : List StreamEvent) (a : Bool) (data : Bytes)
      (hopening : s.opening = none) (hclosing : s.closing = none)
      (hdata : data ≠ []) (hlimit : s.pending.length < 64) :
      StreamStep odd io max id ⟨some s, h, a⟩
        ⟨some { s with pending := s.pending ++ [data] },
          h ++ [.accepted (.payload data)], a⟩
  | writeEmpty (s : Stream) (h : List StreamEvent) (a : Bool)
      (hopening : s.opening = none) (hclosing : s.closing = none)
      (hearly : s.pending = [] ∨ odd .early) :
      StreamStep odd io max id ⟨some s, h, a⟩
        ⟨some s, h ++ [.accepted (.payload []),
          .sent ⟨OKAY, id, s.remote, []⟩], a⟩
  | close (s : Stream) (h : List StreamEvent) (a : Bool) :
      StreamStep odd io max id ⟨some s, h, a⟩
        ⟨some { s with closing := some io.now },
          h ++ [.accepted (.closed io.now)], a⟩
  | keep (s : Stream) (h : List StreamEvent) (a : Bool) (queued : ℕ)
      (hkept : (s.service io queued max id).closed = false) :
      StreamStep odd io max id ⟨some s, h, a⟩
        ⟨some (s.service io queued max id).stream,
          h ++ (s.service io queued max id).log id, a⟩
  | remove (s : Stream) (h : List StreamEvent) (a : Bool) (queued : ℕ)
      (hclosed : (s.service io queued max id).closed = true) :
      StreamStep odd io max id ⟨some s, h, a⟩
        ⟨none, h ++ (s.service io queued max id).log id ++
          [.sent ⟨CLSE, id, (s.service io queued max id).stream.remote, []⟩],
          a⟩
  | stray (h : List StreamEvent) (a : Bool) (remote : UInt32)
      (hnamed : id = 0 ∨ a = true ∨ odd .unallocated) :
      StreamStep odd io max id ⟨none, h, a⟩
        ⟨none, h ++ [.sent ⟨CLSE, id, remote, []⟩], a⟩

/-- Only an allocated id has a stream.  For any other id the connection has at
most refused the packets that named it. -/
structure StreamView.WellFormed (v : StreamView) : Prop where
  allocated : v.stream.isSome → v.allocated = true
  refused : v.allocated = false → ∀ e ∈ v.history,
    ∃ p, e = .sent p ∧ p.command = CLSE

theorem StreamStep.wellFormed {odd : Connection.Oddity → Prop} {io : Io}
    {max : ℕ} {id : UInt32} {v v' : StreamView} (h : v.WellFormed)
    (hstep : StreamStep odd io max id v v') : v'.WellFormed := by
  have hkept : ∀ (s : Stream) (history : List StreamEvent) (a : Bool),
      v = ⟨some s, history, a⟩ → a = true := by
    rintro s history a rfl
    exact h.allocated rfl
  cases hstep with
  | openHost | openReverse => exact ⟨fun _ => rfl, fun hfalse => by cases hfalse⟩
  | ackOpen s | ackData s | write s | writeEmpty s | close s | keep s | remove s =>
      obtain rfl := hkept s _ _ rfl
      exact ⟨fun _ => rfl, fun hfalse => by cases hfalse⟩
  | stray history a remote =>
      refine ⟨fun hsome => (nomatch hsome), fun hfalse e he => ?_⟩
      rcases List.mem_append.mp he with he | he
      · exact h.refused hfalse e he
      · exact ⟨_, List.mem_singleton.mp he, rfl⟩

theorem StreamView.WellFormed.packets_refused {v : StreamView} (h : v.WellFormed)
    (hallocated : v.allocated = false) :
    ∀ p ∈ packets v.history, p.command = CLSE := by
  intro p hp
  obtain ⟨q, heq, hcommand⟩ := h.refused hallocated _ (mem_packets.mp hp)
  cases heq
  exact hcommand

theorem StreamView.WellFormed.unaccepted {v : StreamView} (h : v.WellFormed)
    (hallocated : v.allocated = false) (what : Acceptance) :
    .accepted what ∉ v.history := by
  intro hmem
  obtain ⟨p, hp, -⟩ := h.refused hallocated _ hmem
  cases hp

namespace Connection

variable {odd : Oddity → Prop} {io : Io} {c c' : Connection}

structure WellFormed (c : Connection) : Prop where
  next_pos : 0 < c.next.toNat
  view : ∀ id, (c.view id).WellFormed

/-- For each id a sequence of changes of its view. -/
structure Moves (odd : Oddity → Prop) (io : Io) (c c' : Connection) : Prop where
  max_eq : c'.max = c.max
  next_le : c.next.toNat ≤ c'.next.toNat
  view : ∀ id, ReflTransGen (StreamStep odd io c.max id) (c.view id) (c'.view id)

theorem Moves.refl (c : Connection) : Moves odd io c c :=
  ⟨rfl, le_rfl, fun _ => .refl⟩

theorem Moves.trans {c₁ c₂ c₃ : Connection} (h : Moves odd io c₁ c₂)
    (h' : Moves odd io c₂ c₃) : Moves odd io c₁ c₃ :=
  ⟨h'.max_eq.trans h.max_eq, h.next_le.trans h'.next_le,
    fun id => (h.view id).trans (h.max_eq ▸ h'.view id)⟩

theorem WellFormed.moves (h : c.WellFormed) (hmoves : Moves odd io c c') :
    c'.WellFormed where
  next_pos := h.next_pos.trans_le hmoves.next_le
  view id := Transition.stable (fun _ _ hv hstep => hstep.wellFormed hv)
    (h.view id) (hmoves.view id)

theorem Talks.moves (h : Talks c c') : Moves odd io c c' := by
  have hview := h.view
  obtain ⟨reverse, calls, rfl⟩ := h
  refine ⟨rfl, le_rfl, fun id => ?_⟩
  rw [hview]

/-- The new id was not allocated and its stream not there. -/
theorem WellFormed.view_next (h : c.WellFormed) :
    c.view c.next = ⟨none, c.history c.next, false⟩ := by
  have hfree : c.allocated c.next = false := by
    simp [Connection.allocated]
  have hnone : c.streams[c.next]? = none := by
    by_contra hsome
    have := (h.view c.next).allocated (Option.isSome_iff_ne_none.mpr hsome)
    simp [Connection.view, hfree] at this
  simp [Connection.view, hnone, hfree]

/-- A stream that is opened under the next id. -/
theorem WellFormed.moves_opened (h : c.WellFormed) (s : Stream) (tls : Tls)
    (p : Packet) (hp : p.arg0 = c.next) (hallocate : c.CanAllocate)
    (hstep : StreamStep odd io c.max c.next ⟨none, c.history c.next, false⟩
      ⟨some s, c.history c.next ++ [.sent p], true⟩) :
    Moves odd io c (c.opened c.next s tls p) := by
  refine ⟨rfl, ?_, fun id => ?_⟩
  · show c.next.toNat ≤ (c.next + 1).toNat
    rw [next_succ hallocate.id]
    exact Nat.le_succ _
  · by_cases hid : c.next = id
    · subst hid
      rw [view_opened_self c s tls p hp h.next_pos hallocate.id, h.view_next]
      exact .single hstep
    · rw [view_opened_ne c s tls p hp hid hallocate.id]

/-- A change of one stream. -/
theorem moves_updated {id : UInt32} {s s' : Stream} {what : Acceptance}
    (hstream : c.streams[id]? = some s)
    (hstep : StreamStep odd io c.max id
      ⟨some s, c.history id, c.allocated id⟩
      ⟨some s', c.history id ++ [.accepted what], c.allocated id⟩) :
    Moves odd io c (c.updated id s' what) := by
  refine ⟨rfl, le_rfl, fun other => ?_⟩
  by_cases hid : id = other
  · subst hid
    rw [view_updated_self, view_of_stream hstream]
    exact .single hstep
  · rw [view_updated_ne c s' what hid]

/-- A packet that closes an id without a stream. -/
theorem moves_stray (c : Connection) (tls : Tls) (id remote : UInt32)
    (hstream : c.streams[id]? = none)
    (hnamed : id = 0 ∨ c.allocated id = true ∨ odd .unallocated) :
    Moves odd io c (c.withSent tls [⟨CLSE, id, remote, []⟩]) := by
  refine ⟨rfl, le_rfl, fun other => ?_⟩
  by_cases hid : id = other
  · subst hid
    rw [view_sent_self c tls ⟨CLSE, id, remote, []⟩, view_of_none hstream]
    dsimp only
    rw [hstream]
    exact .single (.stray _ _ remote hnamed)
  · rw [view_sent_ne c tls ⟨CLSE, id, remote, []⟩ hid]

/-- The id 0 is never allocated. -/
theorem WellFormed.zero (h : c.WellFormed) : c.streams[(0 : UInt32)]? = none := by
  by_contra hsome
  have := (h.view 0).allocated (Option.isSome_iff_ne_none.mpr hsome)
  simp [Connection.view, Connection.allocated] at this

theorem WellFormed.next_ne_zero (h : c.WellFormed) : c.next ≠ 0 := by
  intro hzero
  have := h.next_pos
  simp [hzero] at this

theorem Handled.moves {p : Packet} (hwf : c.WellFormed)
    (hodd : ∀ o, (Event.packet p).Odd c o → odd o)
    (h : Handled io p c c') : Moves odd io c c' := by
  cases h with
  | openHost source c₁ tls hcommand hremote hfresh htalks hallocate =>
      obtain ⟨reverse, calls, rfl⟩ := id htalks
      have hwf₁ := @WellFormed.moves odd io _ _ hwf htalks.moves
      refine htalks.moves.trans (hwf₁.moves_opened _ tls _ rfl ?_ ?_)
      · exact ⟨hallocate.slot, hallocate.id⟩
      · exact .openHost p.arg0 source _ hwf.next_ne_zero hremote
  | refuseOpen c₁ tls hcommand hremote htalks =>
      obtain ⟨reverse, calls, rfl⟩ := id htalks
      exact htalks.moves.trans (moves_stray _ tls 0 p.arg0 hwf.zero (.inl rfl))
  | ackOpen s hcommand hstream hremote hopening hunbound =>
      exact moves_updated hstream (.ackOpen s _ _ p.arg0 hopening hunbound hremote)
  | ackData s hcommand hstream hopening hremote hwaiting =>
      exact moves_updated hstream (.ackData s _ _ hopening hwaiting)
  | write s hcommand hstream hremote hopening hclosing hdata hlimit =>
      exact moves_updated hstream
        (.write s _ _ p.data hopening hclosing hdata hlimit)
  | writeEmpty s tls hcommand hstream hremote hopening hclosing hdata =>
      have hearly : s.pending = [] ∨ odd .early := by
        by_cases hpending : s.pending = []
        · exact .inl hpending
        · exact .inr (hodd .early ⟨hcommand, hdata, s, hstream, hremote,
            hopening, hclosing, hpending⟩)
      refine ⟨rfl, le_rfl, fun other => ?_⟩
      by_cases hid : p.arg1 = other
      · subst hid
        rw [view_acknowledged_self, view_of_stream hstream, ← hremote, hstream]
        exact .single (.writeEmpty s _ _ hopening hclosing hearly)
      · rw [view_acknowledged_ne c tls p.arg0 hid]
  | writeStray tls hcommand hstream =>
      refine moves_stray _ tls _ _ hstream (.inr ?_)
      cases hallocated : c.allocated p.arg1 with
      | true => exact .inl rfl
      | false => exact .inr (hodd .unallocated ⟨hcommand, hallocated⟩)
  | close s hcommand hstream hid =>
      exact moves_updated hstream (.close s _ _)
  | stray => exact .refl c

/-! ## Every step -/

theorem Moves.of_passed (hnext : c'.next = c.next) (hmax : c'.max = c.max)
    (h : ∀ id, PassedView io c c' id) : Moves odd io c c' := by
  refine ⟨hmax, (congrArg UInt32.toNat hnext).ge, fun id => ?_⟩
  have hallocated : c'.allocated id = c.allocated id := by
    simp [Connection.allocated, hnext]
  obtain ⟨hstream, hhistory⟩ := h id
  cases hs : c.streams[id]? with
  | none =>
      rw [hs] at hstream hhistory
      rw [show c'.view id = c.view id from
        StreamView.ext (by simpa [view, hs] using hstream)
          (by simpa using hhistory) hallocated]
  | some s =>
      rw [hs] at hstream hhistory
      simp only [Option.bind_some, Option.map_some, Option.getD_some] at hstream hhistory
      rw [view_of_stream hs]
      refine .single ?_
      cases hclosed : (passed io c id s).closed with
      | false =>
          rw [hclosed] at hstream hhistory
          rw [show c'.view id = ⟨some (passed io c id s).stream,
            c.history id ++ (passed io c id s).log id, c.allocated id⟩ from
              StreamView.ext (by simpa using hstream) (by simpa using hhistory)
                hallocated]
          exact .keep s _ _ _ hclosed
      | true =>
          rw [hclosed] at hstream hhistory
          rw [show c'.view id = ⟨none, c.history id ++ (passed io c id s).log id ++
            [.sent ⟨CLSE, id, (passed io c id s).stream.remote, []⟩],
            c.allocated id⟩ from
              StreamView.ext (by simpa using hstream) (by simpa using hhistory)
                hallocated]
          exact .remove s _ _ _ hclosed

/-- A reverse connection is offered to the host. -/
def Offers (io : Io) (c c' : Connection) : Prop :=
  ∃ fd target tls, c.CanAllocate ∧
    c' = c.opened c.next (reverseStream fd io.now) tls ⟨OPEN, c.next, 0, target⟩

theorem Offers.quiet (h : Offers io c c') : Quiet c c' := by
  obtain ⟨fd, target, tls, -, rfl⟩ := h
  exact ⟨_, rfl, by simp⟩

theorem Offers.moves (hwf : c.WellFormed) (h : Offers io c c') :
    Moves odd io c c' := by
  obtain ⟨fd, target, tls, hallocate, rfl⟩ := h
  exact hwf.moves_opened _ tls _ rfl hallocate
    (.openReverse fd target _ hwf.next_ne_zero)

theorem moves_of_offers (hwf : c.WellFormed)
    (h : ReflTransGen (Offers io) c c') : Moves odd io c c' := by
  induction h with
  | refl => exact .refl c
  | tail _ hlast ih => exact ih.trans (hlast.moves (hwf.moves ih))

theorem acceptSockets_spec (sockets : List (Fd × String)) :
    wp (acceptSockets io sockets) (fun _ => ReflTransGen (Offers io) c)
      (fun _ c' => Quiet c c') c := by
  induction sockets generalizing c with
  | nil => exact .refl
  | cons socket rest ih =>
      obtain ⟨fd, target⟩ := socket
      simp only [acceptSockets, wp_bind, wp_get, wp_ite]
      refine ⟨fun _ => .refl, fun _ => ?_⟩
      refine wp_mono allocate_spec ?_ ?_
      · rintro _ _ ⟨hallocate, rfl, rfl⟩
        simp only [putStream, wp_bind, wp_modify]
        refine wp_mono (send_spec _) ?_ ?_
        · rintro _ c₁ ⟨tls, -, hc₁⟩
          have hoffers : Offers io c c₁ := ⟨fd, _, tls, hallocate, hc₁⟩
          refine wp_mono ih ?_ ?_
          · exact fun _ _ h => .head hoffers h
          · exact fun _ _ h => hoffers.quiet.trans h
        · rintro error _ ⟨rfl, -⟩
          exact ⟨[], by simp⟩
      · rintro error _ ⟨rfl, -⟩
        exact .refl _

theorem reverseAccept_spec :
    wp (reverseAccept io) (fun _ => ReflTransGen (Offers io) c)
      (fun _ c' => Quiet c c') c := by
  simp only [reverseAccept, wp_bind, wp_get, wp_ite]
  refine ⟨fun _ => .refl, fun _ => ?_⟩
  exact wp_mono (acceptSockets_spec _) (fun _ _ h => h) (fun _ _ h => h)

/-- What an accepted step does. -/
inductive Performed (io : Io) (c : Connection) : Event → Connection → Prop
  | packet (p : Packet) (c' : Connection) (hhandled : Handled io p c c') :
      Performed io c (.packet p) c'
  | services (c' : Connection) (hnext : c'.next = c.next) (hmax : c'.max = c.max)
      (hpassed : ∀ id, PassedView io c c' id)
      (hfewer : Fewer (ended io c) (looped io c) c') : Performed io c .services c'
  | reverseAccept (c' : Connection) (hoffers : ReflTransGen (Offers io) c c') :
      Performed io c .reverseAccept c'
  | flush (tls : Tls) : Performed io c .flush { c with tls := tls }

/-- A failing step writes to the services only in the loop of `services`. -/
theorem perform_spec (event : Event) :
    wp (perform io event) (fun _ => Performed io c event)
      (fun _ c' => Quiet c c' ∨ Fewer (ended io c) (looped io c) c') c := by
  cases event with
  | packet p =>
      exact wp_mono (handle_spec p) (fun _ _ h => .packet p _ h) (fun _ _ h => .inl h.2)
  | services =>
      simp only [perform, wp_bind]
      refine wp_mono services_spec ?_ (fun _ _ h => .inr h)
      rintro _ c' ⟨hnext, hmax, hpassed, hfewer⟩
      exact .services c' hnext hmax hpassed hfewer
  | reverseAccept =>
      simp only [perform, wp_bind]
      exact wp_mono reverseAccept_spec (fun _ _ h => .reverseAccept _ h)
        (fun _ _ h => .inl h)
  | flush =>
      simp only [perform, flush, wp_bind, wp_get, wp_lift, wp_modify]
      exact ⟨fun tls _ => .flush tls, fun _ _ => .inl (.refl c)⟩

theorem StepOf.performed {event : Event} (h : StepOf io event c c') :
    ∃ c₁, Performed io c event c₁ ∧ c' = { c₁ with clock := io.now } := by
  obtain ⟨-, c₁, hrun, rfl⟩ := h
  have hperformed := wp_of_ok (perform_spec event) hrun
  exact ⟨c₁, hperformed, rfl⟩

/-- A step changes the views. -/
theorem Performed.moves {event : Event} (hwf : c.WellFormed)
    (hodd : ∀ o, event.Odd c o → odd o) (h : Performed io c event c') :
    Moves odd io c c' := by
  cases h with
  | packet p _ hhandled => exact hhandled.moves hwf hodd
  | services _ hnext hmax hpassed => exact .of_passed hnext hmax hpassed
  | reverseAccept _ hoffers => exact moves_of_offers hwf hoffers
  | flush tls => exact ⟨rfl, le_rfl, fun _ => .refl⟩

/-- Nothing is known of a stream before the first step. -/
theorem initial_view (tls : Tls) (transport max : ℕ) (now : Instant)
    (id : UInt32) :
    (initial tls transport max now).view id = ⟨none, [], false⟩ := by
  refine StreamView.ext (by simp [initial]) rfl ?_
  simp only [view, Connection.allocated, initial, UInt32.reduceToNat]
  simp
  omega

theorem initial_wellFormed (tls : Tls) (transport max : ℕ) (now : Instant) :
    (initial tls transport max now).WellFormed where
  next_pos := by simp [initial]
  view id := by
    rw [initial_view]
    exact ⟨fun hsome => (nomatch hsome), fun _ e he => by cases he⟩

theorem StepOf.moves {event : Event} (hwf : c.WellFormed)
    (hodd : ∀ o, event.Odd c o → odd o) (h : StepOf io event c c') :
    Moves odd io c c' := by
  obtain ⟨c₁, hperformed, rfl⟩ := h.performed
  have hmoves := hperformed.moves hwf hodd
  exact ⟨hmoves.max_eq, hmoves.next_le, hmoves.view⟩

/-- The states of the runs without other oddities than those allowed. -/
abbrev ReachableWithin (allowed : Oddity → Prop) : Connection → Prop :=
  Transition.Reachable Initial (Step allowed)

/-- The states of all runs of a connection. -/
abbrev Reachable : Connection → Prop := ReachableWithin fun _ => True

theorem ReachableWithin.wellFormed {allowed : Oddity → Prop}
    (h : ReachableWithin allowed c) : c.WellFormed := by
  refine h.invariant ?_ ?_
  · rintro c ⟨tls, transport, max, now, -, -, rfl⟩
    exact initial_wellFormed tls transport max now
  · rintro c c' - hwf ⟨io, event, hodd, hstep⟩
    exact hwf.moves (hstep.moves hwf hodd)

/-- The invariant rule of the streams: what holds of a fresh view, is kept by
every change of a view and does not get lost with time holds for every id in
every reachable state. -/
theorem ReachableWithin.view_invariant {allowed : Oddity → Prop}
    (inv : ℕ → Instant → UInt32 → StreamView → Prop)
    (hinit : ∀ max time id, inv max time id ⟨none, [], false⟩)
    (hmono : ∀ max time time' id v, time ≤ time' → inv max time id v →
      inv max time' id v)
    (hstep : ∀ io max id v v', v.WellFormed → inv max io.now id v →
      StreamStep allowed io max id v v' → inv max io.now id v')
    (h : ReachableWithin allowed c) (id : UInt32) :
    inv c.max c.clock id (c.view id) := by
  refine @Transition.Reachable.invariant _ _ _
    (fun c : Connection => ∀ id, inv c.max c.clock id (c.view id))
    ?_ ?_ c h id
  · rintro c ⟨tls, transport, max, now, -, -, rfl⟩ id
    rw [initial_view]
    exact hinit max now id
  · rintro c c' hreach hinv ⟨io, event, hodd, hstepOf⟩ id
    have hwf := ReachableWithin.wellFormed hreach
    have hmoves := hstepOf.moves hwf hodd
    have hclock : c'.clock = io.now := by
      obtain ⟨-, c₁, -, rfl⟩ := hstepOf
      rfl
    rw [hmoves.max_eq, hclock]
    refine (@Transition.stable _ _
      (fun v => v.WellFormed ∧ inv c.max io.now id v) ?_ _ _ ?_
      (hmoves.view id)).2
    · exact fun v v' hv hs => ⟨hs.wellFormed hv.1, hstep _ _ _ v v' hv.1 hv.2 hs⟩
    · exact ⟨hwf.view id, hmono _ _ _ _ _ hstepOf.1.now (hinv id)⟩

/-! ## Runs without failures -/

/-- An event, the time and what the sockets answer meanwhile. -/
structure Turn where
  now : Instant
  event : Event
  write : List WriteOutcome
  read : ReadOutcome
  accept : Option Fd

/-- TLS and the supervisor answer every call. -/
def Turn.answers (turn : Turn) : Io where
  now := turn.now
  clock _ := turn.now
  tlsWrite _ tls _ := .ok tls
  tlsFlush := .ok
  broker _ := .ok ("5", [7])
  nonblocking _ := .ok ()
  write _ := turn.write
  read _ := turn.read
  accept _ := turn.accept

/-- A packet of the host while no socket is ready. -/
def Turn.packet (now : Instant) (command arg0 arg1 : UInt32) (data : Bytes) :
    Turn :=
  ⟨now, .packet ⟨command, arg0, arg1, data⟩, [], .wouldBlock, none⟩

/-- A pass over the services. -/
def Turn.services (now : Instant) (write : List WriteOutcome)
    (read : ReadOutcome) : Turn :=
  ⟨now, .services, write, read, none⟩

/-- The events one after the other, as long as each is allowed and succeeds. -/
def run (allowed : Oddity → Prop) [DecidablePred allowed] (c : Connection) :
    List Turn → Option Connection
  | [] => some c
  | turn :: rest =>
      if c.clock ≤ turn.now ∧
          ∀ o ∈ [Oddity.unallocated, .early], turn.event.Odd c o → allowed o then
        match perform turn.answers turn.event c with
        | .ok _ c₁ => run allowed { c₁ with clock := turn.now } rest
        | .error _ _ => none
      else none

theorem run_cons {allowed : Oddity → Prop} [DecidablePred allowed] {turn : Turn}
    {rest : List Turn} (h : run allowed c (turn :: rest) = some c') :
    ∃ c₁, (∀ o, turn.event.Odd c o → allowed o) ∧
      StepOf turn.answers turn.event c c₁ ∧ run allowed c₁ rest = some c' := by
  unfold run at h
  split at h
  · next hguard =>
    obtain ⟨htime, hodd⟩ := hguard
    split at h
    · next c₁ hperform =>
      have hfollows : turn.answers.Follows c.clock :=
        ⟨fun _ => ⟨htime, le_rfl⟩, htime⟩
      exact ⟨_, fun o => hodd o (by cases o <;> simp),
        ⟨hfollows, c₁, hperform, rfl⟩, h⟩
    · cases h
  · cases h

theorem run_step {allowed : Oddity → Prop} [DecidablePred allowed]
    {turns : List Turn} (h : run allowed c turns = some c') :
    ReflTransGen (Step allowed) c c' := by
  induction turns generalizing c with
  | nil =>
      obtain rfl := Option.some.inj h
      exact .refl
  | cons turn rest ih =>
      obtain ⟨c₁, hodd, hstep, hrest⟩ := run_cons h
      exact .head ⟨turn.answers, turn.event, hodd, hstep⟩ (ih hrest)

/-- A run of one event is a step. -/
theorem stepOf_of_run {allowed : Oddity → Prop} [DecidablePred allowed]
    {turn : Turn} (h : run allowed c [turn] = some c') :
    StepOf turn.answers turn.event c c' := by
  obtain ⟨c₁, -, hstep, hrest⟩ := run_cons h
  obtain rfl := Option.some.inj hrest
  exact hstep

/-- A fresh connection. -/
def fresh : Connection := initial ⟨[], 0⟩ 5 65536 0

theorem run_reachable {allowed : Oddity → Prop} [DecidablePred allowed]
    {turns : List Turn} (h : run allowed fresh turns = some c) :
    ReachableWithin allowed c :=
  ⟨fresh, ⟨_, _, _, _, by decide, by decide, rfl⟩, run_step h⟩

end Connection

end Altdb
