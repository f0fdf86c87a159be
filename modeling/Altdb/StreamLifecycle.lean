import Altdb.StreamDelivery

/-!
# The packets of one stream

The packets that a connection sends for an id open the stream, then carry
acknowledgements and data to the id of the host, and end with `CLSE`.  An id is
used once: what the connection sends for it after the stream is gone is `CLSE`.
A host that writes to ids before they are allocated is not considered here,
since each such write is answered by a `CLSE` before the opening.
-/

namespace Altdb

open Fallible Relation

/-- The packets of a stream whose id on the host is `remote`. -/
structure PacketOrder (ps : List Packet) (opening : Packet)
    (middle closes : List Packet) (remote : UInt32) : Prop where
  eq : ps = opening :: (middle ++ closes)
  opening : opening.command = OPEN ∧ opening.arg1 = 0 ∨
    opening.command = OKAY ∧ opening.arg1 = remote ∧ remote ≠ 0
  middle : ∀ p ∈ middle, (p.command = OKAY ∨ p.command = WRTE) ∧
    p.arg1 = remote ∧ remote ≠ 0
  closes : ∀ p ∈ closes, p.command = CLSE

namespace PacketOrder

variable {ps qs middle closes : List Packet} {opening : Packet} {remote : UInt32}

/-- More packets of an open stream. -/
theorem append (h : PacketOrder ps opening middle [] remote)
    (hmiddle : ∀ p ∈ qs, (p.command = OKAY ∨ p.command = WRTE) ∧
      p.arg1 = remote ∧ remote ≠ 0) :
    PacketOrder (ps ++ qs) opening (middle ++ qs) [] remote where
  eq := by simp [h.eq]
  opening := h.opening
  middle p hp := (List.mem_append.mp hp).elim (h.middle p) (hmiddle p)
  closes := h.closes

theorem close (h : PacketOrder ps opening middle closes remote)
    (hcloses : ∀ p ∈ qs, p.command = CLSE) :
    PacketOrder (ps ++ qs) opening middle (closes ++ qs) remote where
  eq := by simp [h.eq]
  opening := h.opening
  middle := h.middle
  closes p hp := (List.mem_append.mp hp).elim (h.closes p) (hcloses p)

/-- Before the host answers a reverse stream only `OPEN` has been sent. -/
theorem bind (h : PacketOrder ps opening middle closes 0) (remote : UInt32) :
    PacketOrder ps opening middle closes remote where
  eq := h.eq
  opening := by
    rcases h.opening with hopen | ⟨-, -, hzero⟩
    · exact .inl hopen
    · exact absurd rfl hzero
  middle p hp := absurd rfl (h.middle p hp).2.2
  closes := h.closes

end PacketOrder

/-- What a pass sends for a stream, apart from a `CLSE`. -/
theorem Stream.service_packets {s : Stream}
    (hunopened : s.opening.isSome → s.pending = []) (io : Io)
    (queued max : ℕ) (id : UInt32) :
    ∀ p ∈ packets ((s.service io queued max id).log id),
      (p.command = OKAY ∨ p.command = WRTE) ∧ p.arg1 = s.remote ∧
        s.opening = none := by
  obtain ⟨pending, offset, hframe⟩ := s.flushPending_frame false (io.write id)
  have hpass := s.service_pass io queued max id
  generalize s.service io queued max id = r at hpass ⊢
  generalize s.flushPending false (io.write id) = f at hpass hframe
  have hdrained : ∀ p ∈ s.drained f.stream id,
      (p.command = OKAY ∨ p.command = WRTE) ∧ p.arg1 = s.remote ∧
        s.opening = none := by
    intro p hp
    have heq := mem_drained hp
    unfold drained at hp
    split at hp
    · next hdrain =>
      subst heq
      refine ⟨.inl rfl, by simp [hframe], ?_⟩
      by_contra hopening
      exact hdrain.1 (hunopened (Option.isSome_iff_ne_none.mpr hopening))
    · cases hp
  cases hpass with
  | timeout | writeFailed | closing =>
      simp [Serviced.log, Observation.about]
  | ended | idle => simpa [Serviced.log, Observation.about] using hdrained
  | read source data work hresult hclosing hopening =>
      intro p hp
      simp only [Serviced.log, packets_append, packets_map_sent,
        List.mem_append, List.mem_singleton] at hp
      rcases hp with hp | hp | rfl
      · simp [Observation.about] at hp
      · exact hdrained p hp
      · rw [hframe] at hopening
        exact ⟨.inr rfl, by simp [hframe], hopening⟩

/-- A pass sends nothing for a stream that is still opening. -/
theorem Stream.service_silent {s : Stream}
    (hunopened : s.opening.isSome → s.pending = [])
    (hopening : s.opening.isSome) (io : Io) (queued max : ℕ) (id : UInt32) :
    packets ((s.service io queued max id).log id) = [] := by
  apply List.eq_nil_iff_forall_not_mem.mpr
  intro p hp
  have hnone := (Stream.service_packets hunopened io queued max id p hp).2.2
  simp [hnone] at hopening

/-! ## The invariant -/

/-- What is known of the packets of the id. -/
structure LifecycleInvariant (id : UInt32) (v : StreamView) : Prop where
  unused : id ≠ 0 → v.allocated = false → packets v.history = []
  bound : ∀ s, v.stream = some s → s.opening = none → s.remote ≠ 0
  present : ∀ s, v.stream = some s → ∃ opening middle,
    PacketOrder (packets v.history) opening middle [] s.remote
  gone : v.stream = none → v.allocated = true → ∃ opening middle closes remote,
    closes ≠ [] ∧ PacketOrder (packets v.history) opening middle closes remote

namespace LifecycleInvariant

variable {id : UInt32} {v : StreamView}

theorem initial (id : UInt32) : LifecycleInvariant id ⟨none, [], false⟩ where
  unused _ _ := rfl
  bound s hs := by cases hs
  present s hs := by cases hs
  gone _ h := by cases h

/-- A stream that is opened under an unused id. -/
theorem fresh {h : List StreamEvent} {s : Stream} {p : Packet}
    (hinv : LifecycleInvariant id ⟨none, h, false⟩) (hid : id ≠ 0)
    (hbound : s.opening = none → s.remote ≠ 0)
    (hp : p.command = OPEN ∧ p.arg1 = 0 ∨
      p.command = OKAY ∧ p.arg1 = s.remote ∧ s.remote ≠ 0) :
    LifecycleInvariant id ⟨some s, h ++ [.sent p], true⟩ where
  unused _ h := by cases h
  bound := by
    rintro _ ⟨rfl⟩
    exact hbound
  present := by
    rintro _ ⟨rfl⟩
    refine ⟨p, [], ?_, hp, by simp, by simp⟩
    have hnil : packets h = [] := hinv.unused hid rfl
    simp [hnil]
  gone h := by cases h

/-- A change of an open stream with further packets. -/
theorem kept {h h' : List StreamEvent} {s s' : Stream}
    (hinv : LifecycleInvariant id ⟨some s, h, true⟩)
    (hremote : s'.remote = s.remote)
    (hopening : s'.opening = none → s.opening = none)
    (hmiddle : ∀ p ∈ packets h', (p.command = OKAY ∨ p.command = WRTE) ∧
      p.arg1 = s.remote ∧ s.opening = none) :
    LifecycleInvariant id ⟨some s', h ++ h', true⟩ where
  unused _ h := by cases h
  bound := by
    rintro _ ⟨rfl⟩ hnone
    rw [hremote]
    exact hinv.bound s rfl (hopening hnone)
  present := by
    rintro _ ⟨rfl⟩
    obtain ⟨opening, middle, horder⟩ := hinv.present s rfl
    refine ⟨opening, middle ++ packets h', ?_⟩
    rw [hremote, packets_append]
    exact horder.append fun p hp =>
      ⟨(hmiddle p hp).1, (hmiddle p hp).2.1, hinv.bound s rfl (hmiddle p hp).2.2⟩
  gone h := by cases h

/-- A stream ends with a `CLSE`. -/
theorem ended {h h' : List StreamEvent} {s : Stream} {p : Packet}
    (hinv : LifecycleInvariant id ⟨some s, h, true⟩)
    (hmiddle : ∀ p ∈ packets h', (p.command = OKAY ∨ p.command = WRTE) ∧
      p.arg1 = s.remote ∧ s.opening = none)
    (hp : p.command = CLSE) :
    LifecycleInvariant id ⟨none, h ++ h' ++ [.sent p], true⟩ where
  unused _ h := by cases h
  bound s hs := by cases hs
  present s hs := by cases hs
  gone _ _ := by
    obtain ⟨opening, middle, horder⟩ :=
      (hinv.kept rfl (fun hnone => hnone) hmiddle).present s rfl
    refine ⟨opening, middle, [p], s.remote, by simp, ?_⟩
    rw [packets_append, packets_sent, packets_nil]
    refine horder.close fun q hq => ?_
    rw [List.mem_singleton.mp hq]
    exact hp

/-- Every change of a stream keeps the invariant. -/
theorem step {odd : Connection.Oddity → Prop} {io : Io} {max : ℕ}
    {v' : StreamView} (hnamed : ¬odd .unallocated) (hwf : v.WellFormed)
    (hdelivery : DeliveryInvariant io.now v) (hinv : LifecycleInvariant id v)
    (hstep : StreamStep odd io max id v v') : LifecycleInvariant id v' := by
  have hallocated : ∀ (s : Stream) (history : List StreamEvent) (a : Bool),
      v = ⟨some s, history, a⟩ → a = true := by
    rintro s history a rfl
    exact hwf.allocated rfl
  cases hstep with
  | openHost remote source h hid hremote =>
      exact hinv.fresh hid (fun _ => hremote) (.inr ⟨rfl, rfl, hremote⟩)
  | openReverse fd target h hid =>
      refine hinv.fresh hid (fun hnone => ?_) (.inl ⟨rfl, rfl⟩)
      simp [Connection.reverseStream] at hnone
  | ackOpen s h a remote hopening hunbound hremote =>
      obtain rfl := hallocated s h a rfl
      refine ⟨fun _ h => (by cases h), ?_, ?_, fun h => by cases h⟩
      · rintro _ ⟨rfl⟩ -
        exact hremote
      · rintro _ ⟨rfl⟩
        obtain ⟨opening, middle, horder⟩ := hinv.present s rfl
        rw [hunbound] at horder
        refine ⟨opening, middle, ?_⟩
        simpa using horder.bind remote
  | ackData s h a hopening hwaiting =>
      obtain rfl := hallocated s h a rfl
      exact hinv.kept rfl (fun h => h) (by simp)
  | write s h a data hopening =>
      obtain rfl := hallocated s h a rfl
      exact hinv.kept rfl (fun h => h) (by simp)
  | writeEmpty s h a hopening =>
      obtain rfl := hallocated s h a rfl
      exact hinv.kept rfl (fun h => h) (by simp [hopening])
  | close s h a =>
      obtain rfl := hallocated s h a rfl
      exact hinv.kept rfl (fun h => h) (by simp)
  | keep s h a queued =>
      obtain rfl := hallocated s h a rfl
      obtain ⟨hremote, hopening, -⟩ := s.service_frame io queued max id
      exact hinv.kept hremote (fun hnone => hopening ▸ hnone)
        (Stream.service_packets (hdelivery.unopened s rfl) io queued max id)
  | remove s h a queued =>
      obtain rfl := hallocated s h a rfl
      exact hinv.ended
        (Stream.service_packets (hdelivery.unopened s rfl) io queued max id) rfl
  | stray h a remote hknown =>
      refine ⟨fun hid hfalse => ?_, fun s hs => (by cases hs),
        fun s hs => (by cases hs), fun _ htrue => ?_⟩
      · rcases hknown with hzero | htrue | hodd
        · exact absurd hzero hid
        · exact absurd (htrue.symm.trans hfalse) (by decide)
        · exact absurd hodd hnamed
      · obtain ⟨opening, middle, closes, r, hcloses, horder⟩ := hinv.gone rfl htrue
        refine ⟨opening, middle, closes ++ [⟨CLSE, id, remote, []⟩], r, by simp, ?_⟩
        rw [packets_append, packets_sent, packets_nil]
        exact horder.close (by simp)

end LifecycleInvariant

namespace Connection

variable {io : Io} {c c' : Connection}

/-- The runs of a host that writes only to allocated ids. -/
abbrev Known (o : Oddity) : Prop := o ≠ .unallocated

theorem ReachableWithin.lifecycle (h : ReachableWithin Known c) (id : UInt32) :
    LifecycleInvariant id (c.view id) :=
  (h.view_invariant
    (fun _ time id v => DeliveryInvariant time v ∧ LifecycleInvariant id v)
    (fun _ time id => ⟨.initial time, .initial id⟩)
    (fun _ _ _ _ _ htime hinv => ⟨hinv.1.later htime, hinv.2⟩)
    (fun _ _ _ _ _ hwf hinv hstep => ⟨hinv.1.step hwf hstep,
      hinv.2.step (fun hodd => hodd rfl) hwf hinv.1 hstep⟩) id).2

/-! ## After the end of a stream -/

/-- The stream of an allocated id is gone, and since the history was `h` only
`CLSE` was sent for the id. -/
structure Over (h : List StreamEvent) (v : StreamView) : Prop where
  allocated : v.allocated = true
  stream : v.stream = none
  closes : ∃ rest, v.history = h ++ rest ∧ ∀ p ∈ packets rest, p.command = CLSE

theorem Over.step {odd : Oddity → Prop} {max : ℕ} {id : UInt32}
    {h : List StreamEvent} {v v' : StreamView} (hover : Over h v)
    (hstep : StreamStep odd io max id v v') : Over h v' := by
  obtain ⟨hallocated, hstream, rest, hrest, hcloses⟩ := hover
  cases hstep with
  | openHost | openReverse => cases hallocated
  | ackOpen | ackData | write | writeEmpty | close | keep | remove =>
      cases hstream
  | stray history a remote =>
      refine ⟨hallocated, rfl, rest ++ [.sent ⟨CLSE, id, remote, []⟩], ?_, ?_⟩
      · change history = h ++ rest at hrest
        simp [hrest]
      · intro p hp
        rcases List.mem_append.mp (packets_append _ _ ▸ hp) with hp | hp
        · exact hcloses p hp
        · rw [List.mem_singleton.mp hp]

/-- A stream that is gone never comes back. -/
theorem ReachableWithin.over {allowed : Oddity → Prop} {id : UInt32}
    (h : ReachableWithin allowed c) (hallocated : c.allocated id = true)
    (hnone : c.streams[id]? = none) (hrun : ReflTransGen (Step allowed) c c') :
    Over (c.history id) (c'.view id) := by
  induction hrun with
  | refl => exact ⟨hallocated, hnone, [], by simp, by simp⟩
  | tail hbefore hlast ih =>
      obtain ⟨io, event, hodd, hstep⟩ := hlast
      have hreach : ReachableWithin allowed _ := Transition.Reachable.run h hbefore
      have hmoves := hstep.moves hreach.wellFormed hodd
      exact Transition.stable (fun _ _ hover hs => hover.step hs) ih
        (hmoves.view id)

/-- A packet for an id without a stream changes no other view. -/
theorem handle_stray_spec {p : Packet} (hid : p.arg1 ≠ 0)
    (hnone : c.streams[p.arg1]? = none) :
    wp (handle io p) (fun _ c' => ∀ id, id ≠ p.arg1 → c'.view id = c.view id)
      (fun _ c' => ∀ id, id ≠ p.arg1 → c'.view id = c.view id) c := by
  simp only [handle, wp_ite, wp_throw]
  refine ⟨fun _ => ?_, fun _ => ⟨fun _ => ?_, fun _ => ⟨fun _ => ?_, fun _ =>
    ⟨fun _ => ?_, fun _ _ _ => trivial⟩⟩⟩⟩
  · simp only [handleOpen, wp_bind, wp_ensure]
    exact ⟨fun hids => absurd hids.2 hid, fun _ _ _ => trivial⟩
  · simp only [handleOkay, wp_bind, wp_get, hnone]
    exact fun _ _ => rfl
  · simp only [handleWrte, wp_bind, wp_get, wp_ensure, hnone]
    refine ⟨fun _ => wp_mono (send_spec _) ?_ ?_, fun _ _ _ => trivial⟩
    · rintro _ _ ⟨tls, -, rfl⟩ id hne
      exact view_sent_ne c tls ⟨CLSE, p.arg1, p.arg0, []⟩ (Ne.symm hne)
    · rintro error _ ⟨rfl, -⟩ id -
      rfl
  · simp only [handleClse, wp_bind, wp_get, hnone]
    exact fun _ _ => rfl

/-- While the host writes only to allocated ids, the packets for an allocated
id open the stream, then acknowledge and carry data to the current id of the
host and end with `CLSE`; a stream that is gone never comes back and only
`CLSE` is sent for its id; and a packet for it changes no other stream. -/
theorem stream_lifecycle (h : ReachableWithin Known c) :
    (∀ id, c.allocated id = true → ∃ opening middle closes remote,
      PacketOrder (packets (c.history id)) opening middle closes remote ∧
        (∀ s, c.streams[id]? = some s → closes = [] ∧ s.remote = remote) ∧
        (c.streams[id]? = none → closes ≠ [])) ∧
      (∀ id, c.allocated id = true → c.streams[id]? = none →
        ∀ c', ReflTransGen (Step Known) c c' → Over (c.history id) (c'.view id)) ∧
      ∀ io p c', c.allocated p.arg1 = true → c.streams[p.arg1]? = none →
        (StepOf io (.packet p) c c' ∨ AbortOf io (.packet p) c c') →
        ∀ id, id ≠ p.arg1 → c'.view id = c.view id := by
  refine ⟨fun id hallocated => ?_, fun id hallocated hnone c' hrun =>
    h.over hallocated hnone hrun, ?_⟩
  · have hinv := h.lifecycle id
    cases hstream : c.streams[id]? with
    | none =>
        obtain ⟨opening, middle, closes, remote, hcloses, horder⟩ :=
          hinv.gone hstream hallocated
        exact ⟨opening, middle, closes, remote, horder,
          fun s hs => (by cases hs), fun _ => hcloses⟩
    | some s =>
        obtain ⟨opening, middle, horder⟩ := hinv.present s hstream
        refine ⟨opening, middle, [], s.remote, horder, ?_, fun hnone => by cases hnone⟩
        rintro _ ⟨rfl⟩
        exact ⟨rfl, rfl⟩
  · intro io p c' hallocated hnone hstep
    have hid : p.arg1 ≠ 0 := by
      intro hzero
      simp [hzero, Connection.allocated] at hallocated
    rcases hstep with ⟨-, c₁, hrun, rfl⟩ | ⟨-, error, c₁, hrun, rfl⟩
    · have hviews := wp_of_ok (@handle_stray_spec io c p hid hnone) hrun
      exact hviews
    · have hviews := wp_of_error (@handle_stray_spec io c p hid hnone) hrun
      exact hviews

/-- The host forwards a port, accepts the offered connection, writes to it and
closes it. -/
def offeredTurns : List Turn :=
  [.packet 1 OPEN 7 0 (utf8 "reverse:forward:tcp:0;tcp:80\x00"),
    ⟨2, .reverseAccept, [], .wouldBlock, some 9⟩,
    .packet 3 OKAY 8 2 [], .packet 4 WRTE 8 2 [1, 2],
    .services 5 [.wrote 2] .wouldBlock, .packet 6 CLSE 8 2 [],
    .services 7 [] .wouldBlock]

theorem stream_lifecycle_offered :
    ∃ c, ReachableWithin Known c ∧
      packets (c.history 2) = [⟨OPEN, 2, 0, utf8 "tcp:80\x00"⟩,
        ⟨OKAY, 2, 8, []⟩, ⟨CLSE, 2, 8, []⟩] ∧
      (∃ opening middle closes remote,
        PacketOrder (packets (c.history 2)) opening middle closes remote ∧
          closes ≠ []) ∧
      Over (c.history 2) (c.view 2) := by
  have hruns : ∃ c ∈ run Known fresh offeredTurns,
      c.allocated 2 = true ∧ c.streams[(2 : UInt32)]? = none ∧
      packets (c.history 2) = [⟨OPEN, 2, 0, utf8 "tcp:80\x00"⟩,
        ⟨OKAY, 2, 8, []⟩, ⟨CLSE, 2, 8, []⟩] := by
    decide +kernel
  obtain ⟨c, hrun, hallocated, hnone, hpackets⟩ := hruns
  have hreach : ReachableWithin Known c := run_reachable hrun
  have hlifecycle := stream_lifecycle hreach
  obtain ⟨opening, middle, closes, remote, horder, -, hcloses⟩ :=
    hlifecycle.1 2 hallocated
  exact ⟨c, hreach, hpackets, ⟨opening, middle, closes, remote, horder, hcloses hnone⟩,
    hlifecycle.2.1 2 hallocated hnone c .refl⟩

end Connection

end Altdb
