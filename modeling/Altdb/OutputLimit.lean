import Altdb.TlsOutput
import Altdb.StreamBounds
import Altdb.PacketFormat

/-!
# The output of one pass

A pass over the services reads from them while less than 4 MiB wait for the TLS
socket, and writes its packets afterwards.  While the socket takes nothing, all
of them are added to the queue.  `worst` is what one stream can add at most,
and the pass stays within the limit of the queue, whatever is ready, exactly
when the queue and the worst of all streams do.
-/

namespace Altdb

open Fallible

/-! ## A blocked socket -/

/-- The text of a failure. -/
def IoError.message : IoError → String
  | .wouldBlock => "would block"
  | .other message => message

namespace Wire

/-- What a write does to the queue when the engine takes the whole buffer and
the socket takes nothing. -/
def blocked (chunks : List Bytes) (tls : Tls) (buffer : Bytes) : Except String Tls :=
  match write buffer buffer.length chunks [] [] ⟨tls, [], []⟩ with
  | .ok _ w => .ok w.tls
  | .error e _ => .error e.message

/-- Reads from the write BIO that return the whole of `bytes`. -/
structure Chunks (bytes : Bytes) (chunks : List Bytes) : Prop where
  flatten : chunks.flatten = bytes
  size : ∀ chunk ∈ chunks, chunk ≠ [] ∧ chunk.length ≤ 65536

theorem drainChunks_spec {chunks : List Bytes}
    (hsize : ∀ chunk ∈ chunks, chunk ≠ [] ∧ chunk.length ≤ 65536) {w : Wire}
    (hoffset : w.tls.offset = 0) :
    wp (drainChunks chunks)
      (fun _ w' => w'.tls = ⟨w.tls.outgoing ++ chunks.flatten, 0⟩ ∧
        (chunks ≠ [] → w.tls.outgoing.length + chunks.flatten.length ≤ tlsOutputLimit))
      (fun e _ => e = queueLimit ∧
        tlsOutputLimit < w.tls.outgoing.length + chunks.flatten.length) w := by
  induction chunks generalizing w with
  | nil =>
      refine ⟨?_, fun h => absurd rfl h⟩
      rw [← hoffset, List.flatten_nil, List.append_nil]
  | cons chunk rest ih =>
      obtain ⟨⟨hchunk, hlength⟩, hrest⟩ := List.forall_mem_cons.mp hsize
      have htake : chunk.take 65536 = chunk := List.take_of_length_le hlength
      simp only [drainChunks, htake, if_neg hchunk, wp_bind, wp_modify, wp_get, wp_ensure]
      refine ⟨fun hqueued => ?_, fun hqueued => ⟨trivial, ?_⟩⟩
      · refine wp_mono (ih hrest hoffset) ?_ ?_
        · rintro _ w' ⟨htls, hfits⟩
          refine ⟨by simpa using htls, fun _ => ?_⟩
          by_cases hnil : rest = []
          · simpa [Tls.queued, hoffset, hnil] using hqueued
          · simpa [Nat.add_assoc] using hfits hnil
        · rintro e w' ⟨rfl, hover⟩
          exact ⟨rfl, by simpa [Nat.add_assoc] using hover⟩
      · simp only [Tls.queued, hoffset, List.length_append] at hqueued
        simp only [List.flatten_cons, List.length_append]
        omega

theorem drain_spec {chunks : List Bytes}
    (hsize : ∀ chunk ∈ chunks, chunk ≠ [] ∧ chunk.length ≤ 65536) {w : Wire} :
    wp (drain chunks)
      (fun _ w' => w'.tls = ⟨w.tls.outgoing.drop w.tls.offset ++ chunks.flatten, 0⟩ ∧
        (chunks ≠ [] → w.tls.queued + chunks.flatten.length ≤ tlsOutputLimit))
      (fun e _ => e = queueLimit ∧ tlsOutputLimit < w.tls.queued + chunks.flatten.length)
      w := by
  simp only [drain, wp_bind, wp_get, wp_ite, wp_modify]
  refine ⟨fun _ => ?_, fun hzero => ?_⟩
  · have hloop := @drainChunks_spec chunks hsize
      { w with tls := ⟨w.tls.outgoing.drop w.tls.offset, 0⟩ } rfl
    simpa only [List.length_drop, Tls.queued] using hloop
  · have hoffset := Nat.eq_zero_of_not_pos hzero
    have hloop := @drainChunks_spec chunks hsize w hoffset
    simpa only [Tls.queued, hoffset, List.drop_zero, Nat.sub_zero] using hloop

/-- The blocked socket leaves what waits for it where it is. -/
theorem flush_blocked {w : Wire} (hoffset : w.tls.offset = 0) (hsome : w.tls.outgoing ≠ []) :
    flush [] [] w = .error .wouldBlock w := by
  refine eq_error_of_wp ?_
  have hpos : w.tls.offset < w.tls.outgoing.length := by
    rw [hoffset]
    exact List.length_pos_of_ne_nil hsome
  simp only [flush, drain, drainChunks, flushLoop, wp_bind, wp_get, wp_ite, wp_throw, wp_pure]
  exact ⟨fun h => absurd h (by omega), fun _ => ⟨fun _ => ⟨trivial, trivial⟩,
    fun h => absurd hpos h⟩⟩

theorem blocked_eq {chunks : List Bytes} {bytes : Bytes} (h : Chunks bytes chunks)
    (hbytes : bytes ≠ []) (tls : Tls) :
    blocked chunks tls bytes =
      if tls.queued + bytes.length ≤ tlsOutputLimit then
        .ok ⟨tls.outgoing.drop tls.offset ++ bytes, 0⟩
      else .error "TLS output queue limit" := by
  have hsome : chunks ≠ [] := by
    rintro rfl
    exact hbytes h.flatten.symm
  have hwrite : wp (write bytes bytes.length chunks [] [])
      (fun _ w => w.tls = ⟨tls.outgoing.drop tls.offset ++ bytes, 0⟩ ∧
        tls.queued + bytes.length ≤ tlsOutputLimit)
      (fun e _ => e = queueLimit ∧ tlsOutputLimit < tls.queued + bytes.length)
      ⟨tls, [], []⟩ := by
    simp only [write, if_neg hbytes, wp_bind, wp_ensure]
    refine ⟨fun _ => ?_, fun hzero => absurd (List.length_pos_of_ne_nil hbytes) hzero⟩
    have hdrain := @drain_spec chunks h.size ⟨tls, [], []⟩
    rw [h.flatten] at hdrain
    refine wp_mono hdrain ?_ fun e w hfailed => hfailed
    rintro _ w ⟨htls, hfits⟩
    have hblocked : flush [] [] w = .error .wouldBlock w := by
      refine flush_blocked (by rw [htls]) ?_
      rw [htls]
      exact List.append_ne_nil_of_right_ne_nil _ hbytes
    simp only [wp_bind, wp_attempt]
    rw [wp, hblocked]
    exact ⟨htls, hfits hsome⟩
  unfold blocked
  cases hrun : write bytes bytes.length chunks [] [] ⟨tls, [], []⟩ with
  | ok n w =>
      obtain ⟨htls, hfits⟩ := wp_of_ok hwrite hrun
      rw [if_pos hfits, ← htls]
  | error e w =>
      obtain ⟨rfl, hover⟩ := wp_of_error hwrite hrun
      rw [if_neg (not_le.mpr hover)]
      rfl

/-- What a memory BIO returns to reads of 64 KiB. -/
def pieces : ℕ → Bytes → List Bytes
  | 0, _ => []
  | fuel + 1, bytes =>
      if bytes = [] then [] else bytes.take 65536 :: pieces fuel (bytes.drop 65536)

theorem pieces_chunks {fuel : ℕ} {bytes : Bytes} (h : bytes.length ≤ fuel) :
    Chunks bytes (pieces fuel bytes) := by
  induction fuel generalizing bytes with
  | zero =>
      obtain rfl := List.length_eq_zero_iff.mp (Nat.le_zero.mp h)
      exact ⟨rfl, fun chunk hchunk => by cases hchunk⟩
  | succ fuel ih =>
      unfold pieces
      split
      · next hnil =>
        exact ⟨hnil.symm, fun chunk hchunk => by cases hchunk⟩
      · next hsome =>
        have hpos := List.length_pos_of_ne_nil hsome
        have hrest := @ih (bytes.drop 65536) (by rw [List.length_drop]; omega)
        refine ⟨by rw [List.flatten_cons, hrest.flatten, List.take_append_drop], ?_⟩
        refine List.forall_mem_cons.mpr ⟨⟨?_, by rw [List.length_take]; omega⟩, hrest.size⟩
        apply List.ne_nil_of_length_pos
        rw [List.length_take]
        omega

end Wire

/-- Every write goes to an engine that adds no bytes and a socket that takes
none. -/
def Io.Blocked (io : Io) : Prop :=
  ∀ (n : ℕ) (tls : Tls) (bytes : Bytes), ∃ chunks, Wire.Chunks bytes chunks ∧
    io.tlsWrite n tls bytes = Wire.blocked chunks tls bytes

namespace Connection

variable {io : Io} {c c' : Connection}

/-! ## Packets into the queue -/

/-- The bytes of a packet on the wire. -/
def wireLength (p : Packet) : ℕ := 24 + p.data.length

theorem length_encode (p : Packet) : (p.encode false).length = wireLength p := by
  rw [Packet.encode_eq, List.length_append, Packet.length_header, wireLength]

theorem write_blocked (hblocked : io.Blocked) {p : Packet} (hp : p.data.length ≤ maxPayload)
    (n : ℕ) (tls : Tls) :
    p.write (io.tlsWrite n tls) false =
      if tls.queued + wireLength p ≤ tlsOutputLimit then
        .ok ⟨tls.outgoing.drop tls.offset ++ p.encode false, 0⟩
      else .error "TLS output queue limit" := by
  obtain ⟨chunks, hchunks, hwrite⟩ := hblocked n tls (p.encode false)
  have hsome : p.encode false ≠ [] := by
    apply List.ne_nil_of_length_pos
    rw [length_encode, wireLength]
    omega
  rw [Packet.write, if_neg (not_lt.mpr hp), hwrite, Wire.blocked_eq hchunks hsome,
    length_encode]

/-- The queue has grown by `bytes` and is within its limit. -/
structure Grown (bytes : ℕ) (c c' : Connection) : Prop where
  queued : c'.tls.queued = c.tls.queued + bytes
  fits : c'.tls.queued ≤ tlsOutputLimit
  streams : c'.streams = c.streams

/-- There is no room for `bytes` more. -/
def Overflows (bytes : ℕ) (c : Connection) (error : String) : Prop :=
  error = "TLS output queue limit" ∧ tlsOutputLimit < c.tls.queued + bytes

theorem Overflows.mono {bytes more : ℕ} {error : String} (h : c.Overflows bytes error)
    (hle : bytes ≤ more) : c.Overflows more error :=
  ⟨h.1, h.2.trans_le (Nat.add_le_add_left hle _)⟩

/-- What does not fit after the queue has grown did not fit before. -/
theorem Grown.overflows {bytes more : ℕ} {error : String} (h : Grown bytes c c')
    (hmore : c'.Overflows more error) : c.Overflows (bytes + more) error := by
  refine ⟨hmore.1, ?_⟩
  have hover := hmore.2
  rw [h.queued] at hover
  omega

theorem send_grown (hblocked : io.Blocked) {p : Packet} (hp : p.data.length ≤ maxPayload) :
    wp (send io p) (fun _ c' => Grown (wireLength p) c c')
      (fun e _ => c.Overflows (wireLength p) e) c := by
  refine wp_mono (send_spec p) ?_ ?_
  · rintro _ _ ⟨tls, hwrite, rfl⟩
    rw [write_blocked hblocked hp] at hwrite
    split at hwrite
    · next hfits =>
      obtain rfl := Except.ok.inj hwrite
      have hqueued : Tls.queued ⟨c.tls.outgoing.drop c.tls.offset ++ p.encode false, 0⟩ =
          c.tls.queued + wireLength p := by
        rw [Tls.queued, Nat.sub_zero, List.length_append, List.length_drop, length_encode]
        rfl
      exact ⟨hqueued, hqueued.trans_le hfits, rfl⟩
    · cases hwrite
  · rintro e _ ⟨rfl, hwrite⟩
    rw [write_blocked hblocked hp] at hwrite
    split at hwrite
    · cases hwrite
    · next hover =>
      exact ⟨(Except.error.inj hwrite).symm, not_le.mp hover⟩

theorem forM_send_grown (hblocked : io.Blocked) {packets : List Packet}
    (hpackets : ∀ p ∈ packets, p.data.length ≤ maxPayload) (hfits : c.tls.queued ≤ tlsOutputLimit) :
    wp (packets.forM (send io)) (fun _ c' => Grown (packets.map wireLength).sum c c')
      (fun e _ => c.Overflows (packets.map wireLength).sum e) c := by
  induction packets generalizing c with
  | nil => exact ⟨rfl, hfits, rfl⟩
  | cons p rest ih =>
      obtain ⟨hp, hrest⟩ := List.forall_mem_cons.mp hpackets
      show wp (send io p >>= fun _ => rest.forM (send io)) _ _ c
      rw [wp_bind, List.map_cons, List.sum_cons]
      refine wp_mono (send_grown hblocked hp) ?_ fun e _ hover =>
        hover.mono (Nat.le_add_right _ _)
      intro _ c₁ hgrown
      refine wp_mono (ih hrest hgrown.fits) (fun _ c₂ hrest => ⟨?_, hrest.fits, ?_⟩)
        fun e _ hover => hgrown.overflows hover
      · rw [hrest.queued, hgrown.queued, Nat.add_assoc]
      · exact hrest.streams.trans hgrown.streams

/-- A stream that is removed costs a `CLSE`. -/
theorem closeStream_grown (hblocked : io.Blocked) {id : UInt32} (hid : id ∈ c.streams) :
    wp (closeStream io id)
      (fun _ c' => c'.tls.queued = c.tls.queued + 24 ∧ c'.tls.queued ≤ tlsOutputLimit ∧
        c'.streams = c.streams.erase id)
      (fun e _ => c.Overflows 24 e) c := by
  simp only [closeStream, wp_bind, wp_get]
  cases hstream : c.streams[id]? with
  | none =>
      rw [Std.TreeMap.mem_iff_isSome_getElem?, hstream] at hid
      cases hid
  | some s =>
      simp only [wp_bind, wp_modify, wp_attempt]
      refine wp_mono (send_grown hblocked (Nat.zero_le _)) ?_ ?_
      · intro _ c₁ hgrown
        simp only [wp_bind]
        refine wp_mono (dropSource_talks s.source) ?_ fun _ _ h => h.elim
        rintro _ c₂ ⟨reverse, calls, rfl⟩
        exact ⟨hgrown.queued, hgrown.fits, hgrown.streams⟩
      · intro e c₁ hover
        simp only [wp_bind]
        exact wp_mono (dropSource_talks s.source) (fun _ _ _ => hover) fun _ _ h => h.elim

theorem forM_closeStream_grown (hblocked : io.Blocked) {ids : List UInt32} (hnodup : ids.Nodup)
    (hids : ∀ id ∈ ids, id ∈ c.streams) (hfits : c.tls.queued ≤ tlsOutputLimit) :
    wp (ids.forM (closeStream io))
      (fun _ c' => c'.tls.queued = c.tls.queued + 24 * ids.length ∧
        c'.tls.queued ≤ tlsOutputLimit)
      (fun e _ => c.Overflows (24 * ids.length) e) c := by
  induction ids generalizing c with
  | nil => exact ⟨rfl, hfits⟩
  | cons id rest ih =>
      obtain ⟨hid, hrest⟩ := List.forall_mem_cons.mp hids
      obtain ⟨hnew, hnodup⟩ := List.nodup_cons.mp hnodup
      show wp (closeStream io id >>= fun _ => rest.forM (closeStream io)) _ _ c
      rw [wp_bind]
      refine wp_mono (closeStream_grown hblocked hid) ?_ fun e _ hover =>
        hover.mono (by simp)
      rintro _ c₁ ⟨hqueued, hfits₁, hstreams⟩
      have hpresent : ∀ other ∈ rest, other ∈ c₁.streams := by
        intro other hother
        rw [hstreams, Std.TreeMap.mem_erase]
        refine ⟨fun heq => hnew ?_, hrest other hother⟩
        rwa [Std.LawfulEqCmp.eq_of_compare heq]
      refine wp_mono (ih hnodup hpresent hfits₁) ?_ ?_
      · rintro _ c₂ ⟨hqueued₂, hfits₂⟩
        refine ⟨?_, hfits₂⟩
        rw [hqueued₂, hqueued, List.length_cons]
        omega
      · rintro e _ ⟨rfl, hover⟩
        refine ⟨rfl, ?_⟩
        rw [hqueued] at hover
        rw [List.length_cons]
        omega

/-! ## The pass -/

/-- The bytes that the pass writes for one stream. -/
def cost (r : Stream.Serviced) : ℕ :=
  (r.events.map wireLength).sum + if r.closed then 24 else 0

theorem sum_cost (results : List (UInt32 × Stream.Serviced)) :
    (results.map fun r => cost r.2).sum =
      ((results.flatMap fun r => r.2.events).map wireLength).sum +
        24 * (results.filter fun r => r.2.closed).length := by
  induction results with
  | nil => rfl
  | cons r rest ih =>
      rw [List.map_cons, List.sum_cons, ih, List.flatMap_cons, List.map_append,
        List.sum_append, List.filter_cons, cost]
      split
      · rw [List.length_cons]
        omega
      · omega

/-- The queue after the pass, or the failure that there is no room for it. -/
theorem services_grown (hblocked : io.Blocked) (hfits : c.tls.queued ≤ tlsOutputLimit) :
    wp (services io)
      (fun _ c' => c'.tls.queued =
          c.tls.queued + Totals.total cost (c.streams.map (passed io c)) ∧
        c'.tls.queued ≤ tlsOutputLimit)
      (fun e _ => c.Overflows (Totals.total cost (c.streams.map (passed io c))) e) c := by
  have htotal : Totals.total cost (c.streams.map (passed io c)) =
      (((results io c).flatMap fun r => r.2.events).map wireLength).sum +
        24 * (ended io c).length := by
    rw [ended, List.length_map]
    exact sum_cost (results io c)
  have hevents : ∀ p ∈ (results io c).flatMap fun r => r.2.events,
      p.data.length ≤ maxPayload := by
    intro p hp
    obtain ⟨⟨id, result⟩, hresult, hp⟩ := List.mem_flatMap.mp hp
    obtain ⟨s, -, rfl⟩ := mem_results.mp hresult
    exact (events_bounded p hp).2.trans ((min_le_right _ _).trans (by decide))
  rw [htotal]
  simp only [services, wp_bind, wp_get, wp_modify]
  change wp _ _ _ (looped io c)
  refine wp_mono (forM_send_grown hblocked hevents hfits) ?_ fun e _ hover =>
    hover.mono (Nat.le_add_right _ _)
  intro _ c₁ hgrown
  simp only [wp_bind]
  change wp ((ended io c).forM (closeStream io)) _ _ _
  have hpresent : ∀ id ∈ ended io c, id ∈ c₁.streams := by
    intro id hid
    obtain ⟨s, hs, -⟩ := mem_ended.mp hid
    rw [hgrown.streams, Std.TreeMap.mem_iff_isSome_getElem?, looped_streams, hs]
    rfl
  refine wp_mono (forM_closeStream_grown hblocked ended_nodup hpresent hgrown.fits) ?_ ?_
  · rintro _ c₂ ⟨hqueued, hfits₂⟩
    refine ⟨?_, hfits₂⟩
    rw [hqueued, hgrown.queued, Nat.add_assoc]
    rfl
  · exact fun e _ hover => hgrown.overflows hover

/-! ## The worst pass -/

/-- The most that a pass can write for the stream. -/
def worst (max : ℕ) (s : Stream) : ℕ :=
  if s.opening.isSome ∨ s.closing.isSome then 24
  else if s.waiting then
    if s.pending = [] then 0 else 24
  else
    match s.source with
    | .socket _ => (if s.pending = [] then 0 else 24) + 24 + min max chunkSize
    | .bytes rest =>
        if s.pending = [] then 24 + min (min max chunkSize) rest.length else 24

theorem sum_drained (s after : Stream) (id : UInt32) :
    ((s.drained after id).map wireLength).sum =
      if s.pending ≠ [] ∧ after.pending = [] ∧ after.closing = none then 24 else 0 := by
  unfold Stream.drained
  split
  · simp [wireLength]
  · rfl

/-- A reply that is read from memory takes no input. -/
theorem flushPending_bytes {s : Stream} {rest : Bytes} (hsource : s.source = .bytes rest)
    (hpending : s.pending ≠ []) (work : Bool) (script : List WriteOutcome) :
    ∃ error, (s.flushPending work script).result = .error error := by
  obtain ⟨data, others, hdata⟩ := List.exists_cons_of_ne_nil hpending
  cases script with
  | nil => exact ⟨"read-only service", by simp [Stream.flushPending, hdata, hsource, Source.write]⟩
  | cons outcome script =>
      exact ⟨"write failed", by simp [Stream.flushPending, hdata, hsource, Source.write]⟩

theorem flushPending_nil {s : Stream} (hpending : s.pending = []) (work : Bool)
    (script : List WriteOutcome) : s.flushPending work script = ⟨s, [], .ok work⟩ := by
  cases script <;> simp [Stream.flushPending, hpending]

/-- The most that one read returns. -/
def readable (max : ℕ) : Source → ℕ
  | .socket _ => min max chunkSize
  | .bytes rest => min (min max chunkSize) rest.length

theorem length_read {source source' : Source} {outcome : ReadOutcome} {max : ℕ}
    {data : Bytes} (h : source.read outcome (min max chunkSize) = (.data data, source')) :
    data.length ≤ readable max source := by
  have hsize := Stream.read_length h
  cases source with
  | socket socket => exact hsize
  | bytes rest =>
      obtain ⟨h, -⟩ := Prod.mk.inj h
      obtain rfl := ReadOutcome.data.inj h
      exact le_min hsize (by simp)

/-- A read adds its data to the packets, or the end of the stream. -/
theorem cost_serviceRead (queued max : ℕ) (id : UInt32) (s : Stream)
    (observations : List Observation) (events : List Packet) (work : Bool) :
    cost (s.serviceRead io queued max id observations events work) ≤
      (events.map wireLength).sum +
        if s.opening = none ∧ s.waiting = false then 24 + readable max s.source else 0 := by
  unfold Stream.serviceRead
  split
  · next hready =>
    rw [if_pos ⟨hready.1, hready.2.1⟩]
    split
    · simp only [cost, if_true]
      omega
    · next data source hdata hread =>
      have hlength := length_read hread
      simp only [cost, List.map_append, List.sum_append, List.map_singleton,
        List.sum_singleton, wireLength, Bool.false_eq_true, if_false]
      omega
    · simp only [cost, Bool.false_eq_true, if_false]
      omega
    · simp only [cost, if_true]
      omega
  · simp only [cost, Bool.false_eq_true, if_false]
    omega

theorem worst_of_pending {s : Stream} (hpending : s.pending ≠ []) (max : ℕ) :
    24 ≤ worst max s := by
  simp only [worst, if_neg hpending]
  split
  · exact le_rfl
  · split
    · exact le_rfl
    · split
      · omega
      · exact le_rfl

/-- What is left when the queue of the stream could be flushed. -/
theorem cost_flushed {s : Stream} (hopen : s.closing = none) (max : ℕ)
    (hmemory : ∀ rest, s.source = .bytes rest → s.pending = []) :
    (if s.pending = [] then 0 else 24) +
      (if s.opening = none ∧ s.waiting = false then 24 + readable max s.source else 0) ≤
      worst max s ∨ s.opening.isSome := by
  cases hopening : s.opening with
  | some t => exact .inr rfl
  | none =>
      left
      have hnot : ¬(s.opening.isSome ∨ s.closing.isSome) := by simp [hopening, hopen]
      rw [worst, if_neg hnot]
      cases hwaiting : s.waiting with
      | true => simp
      | false =>
          cases hsource : s.source with
          | socket socket => simp [readable, Nat.add_assoc]
          | bytes rest => simp [readable, hmemory rest hsource]

/-- No pass writes more for the stream. -/
theorem cost_le_worst (queued max : ℕ) (id : UInt32) (s : Stream) :
    cost (s.service io queued max id) ≤ worst max s := by
  obtain ⟨pending, offset, hframe⟩ := s.flushPending_frame false (io.write id)
  have hbytes := fun rest hsource hpending =>
    @flushPending_bytes s rest hsource hpending false (io.write id)
  have hnil := fun hpending => @flushPending_nil s hpending false (io.write id)
  unfold Stream.service
  split
  · next htimeout =>
    have hopening : s.opening.isSome := by
      cases hopening : s.opening with
      | none => simp [hopening] at htimeout
      | some t => rfl
    rw [worst, if_pos (.inl hopening)]
    rfl
  · dsimp only
    have hdrained := sum_drained s (s.flushPending false (io.write id)).stream id
    generalize s.flushPending false (io.write id) = f at hframe hbytes hnil hdrained ⊢
    cases hresult : f.result with
    | error error =>
        -- Only a queue that is not empty can fail to be written.
        refine worst_of_pending (fun hpending => ?_) max
        rw [hnil hpending] at hresult
        cases hresult
    | ok work =>
        have hclosing : f.stream.closing = s.closing := by rw [hframe]
        have hmemory : ∀ rest, s.source = .bytes rest → s.pending = [] := by
          intro rest hsource
          by_contra hpending
          obtain ⟨error, herror⟩ := hbytes rest hsource hpending
          cases hresult.symm.trans herror
        dsimp only
        cases hsome : f.stream.closing with
        | some t =>
            have hnone : ¬(s.pending ≠ [] ∧ f.stream.pending = [] ∧
                f.stream.closing = none) := fun h => by cases hsome.symm.trans h.2.2
            rw [if_neg hnone] at hdrained
            have hworst : worst max s = 24 := if_pos (.inr (by rw [← hclosing, hsome]; rfl))
            rw [hworst]
            simp only [cost, hdrained]
            split <;> omega
        | none =>
            have hread := @cost_serviceRead io queued max id f.stream
              [.wrote id f.written] (s.drained f.stream id) work
            have hsame : f.stream.opening = s.opening ∧ f.stream.waiting = s.waiting ∧
                f.stream.source = s.source := by simp [hframe]
            rw [hsame.1, hsame.2.1, hsame.2.2] at hread
            have hle : ((s.drained f.stream id).map wireLength).sum ≤
                if s.pending = [] then 0 else 24 := by
              rw [hdrained]
              by_cases hpending : s.pending = []
              · simp [hpending]
              · rw [if_neg hpending]
                split <;> omega
            rcases cost_flushed (hclosing ▸ hsome) max hmemory with hworst | hopening
            · exact hread.trans ((Nat.add_le_add_right hle _).trans hworst)
            · have hworst : worst max s = 24 := if_pos (.inl hopening)
              rw [if_neg fun h => by simp [h.1] at hopening] at hread
              rw [hworst]
              refine hread.trans ?_
              split at hle <;> omega

/-! ## A pass with everything ready -/

/-- A later time at which every deadline has passed. -/
def late (c : Connection) : Instant :=
  c.clock + secs 11 +
    Totals.total (fun s : Stream => s.opening.getD 0 + s.closing.getD 0) c.streams

/-- Every service takes its input and has output, and the TLS socket is
blocked. -/
def greedy (c : Connection) : Io where
  now := late c
  clock _ := late c
  tlsWrite _ tls bytes := Wire.blocked (Wire.pieces bytes.length bytes) tls bytes
  tlsFlush := .ok
  broker _ := .error "not connected"
  nonblocking _ := .ok ()
  write id := (c.streams[id]?.map fun s => s.pending.map fun data =>
    WriteOutcome.wrote data.length).getD []
  read _ := .data (List.replicate chunkSize 0)
  accept _ := none

theorem greedy_blocked (c : Connection) : (greedy c).Blocked :=
  fun _ _ _ => ⟨_, Wire.pieces_chunks le_rfl, rfl⟩

theorem greedy_follows (c : Connection) : (greedy c).Follows c.clock := by
  have hlate : c.clock ≤ late c :=
    (Nat.le_add_right c.clock (secs 11)).trans (Nat.le_add_right _ _)
  exact ⟨fun _ => ⟨hlate, le_rfl⟩, hlate⟩

theorem flushPending_all {s : Stream} (h : s.Queue) {socket : ServiceSocket}
    (hsource : s.source = .socket socket) (work : Bool) :
    ∃ done, (s.flushPending work (s.pending.map fun data =>
        .wrote data.length)).result = .ok done ∧
      (s.flushPending work (s.pending.map fun data =>
        .wrote data.length)).stream.pending = [] := by
  generalize hpending : s.pending = pending
  induction pending generalizing s work with
  | nil => exact ⟨work, by simp [Stream.flushPending, hpending]⟩
  | cons data rest ih =>
      have hoffset := h.offset
      rw [hpending, List.headD_cons] at hoffset
      have hwrite : s.source.write (.wrote data.length) (data.drop s.offset) =
          .wrote (data.length - s.offset) := by
        rw [hsource, Source.write, List.length_drop, min_eq_right (Nat.sub_le _ _)]
      have hnext : Stream.Queue { s with pending := rest, offset := 0 } := by
        have hnonempty : ∀ d ∈ rest, d ≠ [] := fun d hd =>
          h.nonempty d (hpending ▸ List.mem_cons_of_mem _ hd)
        refine ⟨hnonempty, ?_⟩
        cases rest with
        | nil => exact Nat.zero_lt_one
        | cons first others => exact List.length_pos_of_ne_nil (hnonempty first List.mem_cons_self)
      obtain ⟨done, hresult, hempty⟩ := @ih { s with pending := rest, offset := 0 } hnext
        hsource true rfl
      obtain ⟨n, hn⟩ : ∃ n, data.length - s.offset = n + 1 :=
        ⟨data.length - s.offset - 1, by omega⟩
      have hend : s.offset + (n + 1) = data.length := by omega
      rw [List.map_cons]
      unfold Stream.flushPending
      rw [hpending]
      simp only [hwrite, hn, if_pos hend]
      exact ⟨done, hresult, hempty⟩

theorem late_elapsed {id : UInt32} {s : Stream} (hstream : c.streams[id]? = some s) :
    (∀ t ∈ s.opening, secs 10 < late c - t) ∧ ∀ t ∈ s.closing, secs 1 < late c - t := by
  have hweight : secs 11 + (s.opening.getD 0 + s.closing.getD 0) ≤ late c := by
    have hle := @Totals.le_total _ _ _ _ _ (fun s : Stream =>
      s.opening.getD 0 + s.closing.getD 0) c.streams id s hstream
    refine (Nat.add_le_add_left hle _).trans ?_
    rw [late, Nat.add_assoc]
    exact Nat.le_add_left _ _
  generalize late c = time at hweight ⊢
  have hsecs : secs 10 < secs 11 ∧ secs 1 < secs 11 := by decide
  refine ⟨fun t ht => ?_, fun t ht => ?_⟩
  · rw [Option.mem_def.mp ht, Option.getD_some] at hweight
    have hsum : secs 11 + t ≤ time := by omega
    omega
  · rw [Option.mem_def.mp ht, Option.getD_some] at hweight
    have hsum : secs 11 + t ≤ time := by omega
    omega

/-- Everything is ready for the stream: its service takes all input and has
output, and its deadlines have passed. -/
structure Ready (io : Io) (id : UInt32) (s : Stream) : Prop where
  write : io.write id = s.pending.map fun data => .wrote data.length
  read : ∃ reply, io.read id = .data reply ∧ reply.length = chunkSize
  opening : ∀ t ∈ s.opening, secs 10 < io.clock id - t
  closing : ∀ t ∈ s.closing, secs 1 < io.clock id - t

theorem greedy_ready {id : UInt32} {s : Stream} (hstream : c.streams[id]? = some s) :
    Ready (greedy c) id s where
  write := by simp only [greedy, hstream, Option.map_some, Option.getD_some]
  read := ⟨List.replicate chunkSize 0, rfl, List.length_replicate⟩
  opening := (late_elapsed hstream).1
  closing := (late_elapsed hstream).2

/-- A read that is ready returns as much as it can. -/
theorem cost_read {queued max : ℕ} (hpause : queued < 4 * 1024 * 1024) {id : UInt32}
    {s : Stream} {reply : Bytes} (hread : io.read id = .data reply)
    (hlength : reply.length = chunkSize) (hopening : s.opening = none)
    (hwaiting : s.waiting = false) (observations : List Observation) (events : List Packet)
    (work : Bool) :
    (events.map wireLength).sum + (24 + readable max s.source) ≤
      cost (s.serviceRead io queued max id observations events work) := by
  have hsource : ∃ data source, s.source.read (.data reply) (min max chunkSize) =
      (.data data, source) ∧ data.length = readable max s.source := by
    cases s.source with
    | bytes rest => exact ⟨rest.take (min max chunkSize), _, rfl, by simp [readable]⟩
    | socket socket =>
        exact ⟨reply.take (min max chunkSize), _, rfl, by simp [readable, hlength]⟩
  obtain ⟨data, source, hsource, hdata⟩ := hsource
  unfold Stream.serviceRead
  rw [if_pos ⟨hopening, hwaiting, hpause⟩, hread, hsource, ← hdata]
  cases data with
  | nil => simp [cost]
  | cons first rest => simp [cost, wireLength]

/-- A read does not take packets back. -/
theorem le_cost_read (queued max : ℕ) (id : UInt32) (s : Stream)
    (observations : List Observation) (events : List Packet) (work : Bool) :
    (events.map wireLength).sum ≤
      cost (s.serviceRead io queued max id observations events work) := by
  unfold Stream.serviceRead
  split
  · split
    · exact Nat.le_add_right _ _
    · simp [cost]
    · exact Nat.le_add_right _ _
    · exact Nat.le_add_right _ _
  · exact Nat.le_add_right _ _

/-- A pass with everything ready writes the most that it can. -/
theorem worst_le_cost {queued max : ℕ} {id : UInt32} {s : Stream} (hready : Ready io id s)
    (hqueue : s.Queue) (hpause : queued < 4 * 1024 * 1024) :
    worst max s ≤ cost (s.service io queued max id) := by
  obtain ⟨pending, offset, hframe⟩ := s.flushPending_frame false (io.write id)
  have hdrained := sum_drained s (s.flushPending false (io.write id)).stream id
  have hsocket : ∀ socket, s.source = .socket socket → _ := fun socket hsource =>
    hready.write ▸ flushPending_all hqueue hsource false
  have hbytes := fun rest hsource hpending =>
    @flushPending_bytes s rest hsource hpending false (io.write id)
  have hnil := fun hpending => @flushPending_nil s hpending false (io.write id)
  have hopening' : (s.flushPending false (io.write id)).stream.opening = s.opening := by
    rw [hframe]
  have hclosing' : (s.flushPending false (io.write id)).stream.closing = s.closing := by
    rw [hframe]
  have hwaiting' : (s.flushPending false (io.write id)).stream.waiting = s.waiting := by
    rw [hframe]
  have hsource' : (s.flushPending false (io.write id)).stream.source = s.source := by
    rw [hframe]
  unfold Stream.service
  generalize s.flushPending false (io.write id) = f at *
  cases hopening : s.opening with
  | some t =>
      have hworst : worst max s = 24 := if_pos (.inl (by rw [hopening]; rfl))
      have hlate : (some t).any (fun t => secs 10 < io.clock id - t) = true :=
        decide_eq_true (hready.opening t hopening)
      rw [hworst, if_pos hlate]
      exact Nat.le_add_left 24 _
  | none =>
      have hno : ¬(none : Option Instant).any (fun t => secs 10 < io.clock id - t) = true :=
        fun h => by cases h
      rw [if_neg hno]
      dsimp only
      cases hclosing : s.closing with
      | some t =>
          have hworst : worst max s = 24 := if_pos (.inr (by rw [hclosing]; rfl))
          have hlate : decide (secs 1 < io.clock id - t) = true :=
            decide_eq_true (hready.closing t hclosing)
          rw [hworst]
          cases hresult : f.result with
          | error error => exact Nat.le_add_left 24 _
          | ok work =>
              simp only [hclosing', hclosing, cost, hlate, Bool.or_true, if_true]
              exact Nat.le_add_left 24 _
      | none =>
          have hnot : ¬(s.opening.isSome ∨ s.closing.isSome) := by simp [hopening, hclosing]
          have hopen : f.stream.closing = none := hclosing'.trans hclosing
          rw [worst, if_neg hnot]
          cases hresult : f.result with
          | error error =>
              -- Only a reply from memory fails to take the input.
              have hcost : cost ⟨f.stream, [.wrote id f.written], [], true, false⟩ = 24 := rfl
              simp only [hcost]
              have hpending : s.pending ≠ [] := fun hpending => by
                cases hresult.symm.trans (congrArg Stream.Flushed.result (hnil hpending))
              cases hsource : s.source with
              | bytes rest => simp [hpending]
              | socket socket =>
                  obtain ⟨done, hdone, -⟩ := hsocket socket hsource
                  cases hresult.symm.trans hdone
          | ok work =>
              have hempty : f.stream.pending = [] := by
                by_cases hpending : s.pending = []
                · rw [hnil hpending]
                  exact hpending
                · cases hsource : s.source with
                  | bytes rest =>
                      obtain ⟨error, herror⟩ := hbytes rest hsource hpending
                      cases hresult.symm.trans herror
                  | socket socket => exact (hsocket socket hsource).choose_spec.2
              have hsent : ((s.drained f.stream id).map wireLength).sum =
                  if s.pending = [] then 0 else 24 := by
                rw [hdrained]
                by_cases hpending : s.pending = []
                · simp [hpending]
                · simp [hpending, hempty, hopen]
              simp only [hopen]
              cases hwaiting : s.waiting with
              | true =>
                  have hkept := @le_cost_read io queued max id f.stream
                    [.wrote id f.written] (s.drained f.stream id) work
                  rw [hsent] at hkept
                  exact hkept
              | false =>
                  obtain ⟨reply, hreply, hlength⟩ := hready.read
                  have hread := @cost_read io queued max hpause id f.stream reply hreply hlength
                    (hopening'.trans hopening) (hwaiting'.trans hwaiting)
                    [.wrote id f.written] (s.drained f.stream id) work
                  rw [hsent, hsource'] at hread
                  refine le_trans ?_ hread
                  cases hsource : s.source with
                  | socket socket => simp [readable, Nat.add_assoc]
                  | bytes rest =>
                      by_cases hpending : s.pending = []
                      · simp [readable, hpending]
                      · obtain ⟨error, herror⟩ := hbytes rest hsource hpending
                        cases hresult.symm.trans herror

theorem total_worst_le
    (hqueue : ∀ (id : UInt32) (s : Stream), c.streams[id]? = some s → s.Queue)
    (hpause : c.tls.queued < 4 * 1024 * 1024) :
    Totals.total (worst c.max) c.streams ≤
      Totals.total cost (c.streams.map (passed (greedy c) c)) := by
  refine Totals.total_le fun id s hs => ⟨passed (greedy c) c id s, ?_, ?_⟩
  · rw [Std.TreeMap.getElem?_map, hs]
    rfl
  · exact worst_le_cost (greedy_ready hs) (hqueue id s hs) hpause

/-! ## Every state -/

/-- The pass stays within the limit of the queue, whatever is ready, exactly
when there is room for the worst of all streams. -/
theorem output_fits (c : Connection)
    (hqueue : ∀ (id : UInt32) (s : Stream), c.streams[id]? = some s → s.Queue)
    (hpause : c.tls.queued < 4 * 1024 * 1024) :
    (∀ io : Io, io.Blocked → io.Follows c.clock →
      ∃ work c', services io c = .ok work c' ∧ c'.tls.queued ≤ 8 * 1024 * 1024) ↔
      c.tls.queued + Totals.total (worst c.max) c.streams ≤ 8 * 1024 * 1024 := by
  have hfits : c.tls.queued ≤ tlsOutputLimit := hpause.le.trans (by decide)
  constructor
  · intro hall
    obtain ⟨work, c', hrun, hqueued⟩ := hall (greedy c) (greedy_blocked c) (greedy_follows c)
    have hgrown := wp_of_ok (services_grown (greedy_blocked c) hfits) hrun
    rw [hgrown.1] at hqueued
    exact (Nat.add_le_add_left (total_worst_le hqueue hpause) _).trans hqueued
  · intro hroom io hblocked _
    have hle : Totals.total cost (c.streams.map (passed io c)) ≤
        Totals.total (worst c.max) c.streams := by
      refine Totals.total_le fun id r hr => ?_
      rw [Std.TreeMap.getElem?_map] at hr
      obtain ⟨s, hs, rfl⟩ := Option.map_eq_some_iff.mp hr
      exact ⟨s, hs, cost_le_worst _ _ _ s⟩
    have hgrown := @services_grown io c hblocked hfits
    cases hrun : services io c with
    | ok work c' => exact ⟨work, c', rfl, (wp_of_ok hgrown hrun).2⟩
    | error e c' =>
        obtain ⟨-, hover⟩ := wp_of_error hgrown hrun
        have hlimit : tlsOutputLimit = 8 * 1024 * 1024 := rfl
        omega

/-! ## Sixty-four services -/

/-- A connection with `n` services, none of which waits for the host, and
`queued` bytes for the TLS socket. -/
def serving (n queued : ℕ) : Connection :=
  { fresh with
    tls := ⟨List.replicate queued 0, 0⟩
    streams := (List.range n).foldl (fun streams i =>
      streams.insert (UInt32.ofNat (i + 1))
        (hostStream (UInt32.ofNat (i + 1)) (.socket ⟨i + 10, none⟩))) ∅ }

theorem serving_queue {n queued : ℕ}
    (h : (serving n queued).streams.toList.all fun entry =>
      decide (entry.2.pending = [] ∧ entry.2.offset = 0)) (id : UInt32) (s : Stream)
    (hstream : (serving n queued).streams[id]? = some s) : s.Queue := by
  have hmem := Std.TreeMap.mem_toList_iff_getElem?_eq_some.mpr hstream
  obtain ⟨hpending, hoffset⟩ := of_decide_eq_true (List.all_eq_true.mp h _ hmem)
  refine ⟨fun data hdata => ?_, ?_⟩
  · rw [hpending] at hdata
    cases hdata
  · rw [hpending, hoffset]
    exact Nat.zero_lt_one

theorem serving_queued (n queued : ℕ) : (serving n queued).tls.queued = queued := by
  simp [serving, Tls.queued]

/-- With 64 full reads the headers alone are too much. -/
theorem output_fits_fails :
    (serving 64 (4 * 1024 * 1024 - 1)).tls.queued < 4 * 1024 * 1024 ∧
      (serving 64 (4 * 1024 * 1024 - 1)).streams.size = 64 ∧
      (greedy (serving 64 (4 * 1024 * 1024 - 1))).Blocked ∧
      ∃ c', services (greedy (serving 64 (4 * 1024 * 1024 - 1)))
        (serving 64 (4 * 1024 * 1024 - 1)) = .error "TLS output queue limit" c' := by
  have hqueue := @serving_queue 64 (4 * 1024 * 1024 - 1) (by decide +kernel)
  have hworst : Totals.total (worst (serving 64 (4 * 1024 * 1024 - 1)).max)
      (serving 64 (4 * 1024 * 1024 - 1)).streams = 64 * (24 + 65536) := by
    decide +kernel
  have hsize : (serving 64 (4 * 1024 * 1024 - 1)).streams.size = 64 := by decide +kernel
  have hqueued := serving_queued 64 (4 * 1024 * 1024 - 1)
  generalize serving 64 (4 * 1024 * 1024 - 1) = c at *
  have hpause : c.tls.queued < 4 * 1024 * 1024 := by omega
  have hfits : c.tls.queued ≤ tlsOutputLimit := hpause.le.trans (by decide)
  refine ⟨hpause, hsize, greedy_blocked c, ?_⟩
  have hgrown := @services_grown (greedy c) c (greedy_blocked c) hfits
  cases hrun : services (greedy c) c with
  | ok work c' =>
      obtain ⟨hend, hlimit⟩ := wp_of_ok hgrown hrun
      have hle := total_worst_le hqueue hpause
      have hvalue : tlsOutputLimit = 8 * 1024 * 1024 := rfl
      omega
  | error e c' =>
      obtain ⟨rfl, -⟩ := wp_of_error hgrown hrun
      exact ⟨c', rfl⟩

theorem output_fits_sixty :
    (serving 60 4000000).tls.queued +
        Totals.total (worst (serving 60 4000000).max) (serving 60 4000000).streams ≤
          8 * 1024 * 1024 ∧
      ∀ io : Io, io.Blocked → io.Follows (serving 60 4000000).clock →
        ∃ work c', services io (serving 60 4000000) = .ok work c' ∧
          c'.tls.queued ≤ 8 * 1024 * 1024 := by
  have hqueued := serving_queued 60 4000000
  have hworst : Totals.total (worst (serving 60 4000000).max)
      (serving 60 4000000).streams = 60 * (24 + 65536) := by
    decide +kernel
  have hroom : (serving 60 4000000).tls.queued +
      Totals.total (worst (serving 60 4000000).max) (serving 60 4000000).streams ≤
        8 * 1024 * 1024 := by
    rw [hqueued, hworst]
    decide
  refine ⟨hroom, (output_fits (serving 60 4000000) (serving_queue (by decide +kernel)) ?_).mpr
    hroom⟩
  rw [hqueued]
  decide

end Connection

end Altdb
