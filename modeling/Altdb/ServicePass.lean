import Altdb.StreamHistory

/-!
# A pass over the services

One pass of `services` serves every stream in its loop, writes the collected
packets and then removes the ended streams.  `Pass` lists what the loop body
can do to a stream, and `services_spec` is the effect of the whole pass on each
stream id.
-/

namespace Altdb

open Fallible

/-! ## One pass over a stream -/

namespace Stream

/-- `flush_pending` changes only the queue. -/
theorem flushPending_frame (s : Stream) (work : Bool)
    (script : List WriteOutcome) :
    ∃ pending offset, (s.flushPending work script).stream =
      { s with pending := pending, offset := offset } := by
  induction script generalizing s work with
  | nil =>
      unfold flushPending
      repeat' split
      all_goals exact ⟨s.pending, s.offset, rfl⟩
  | cons outcome script ih =>
      unfold flushPending
      split
      · exact ⟨s.pending, s.offset, rfl⟩
      · split
        · exact ⟨s.pending, s.offset, rfl⟩
        · dsimp only
          split
          · exact ih { s with pending := _, offset := 0 } true
          · exact ih { s with offset := _ } true
        · exact ⟨s.pending, s.offset, rfl⟩
        · exact ⟨s.pending, s.offset, rfl⟩

theorem mem_drained {s after : Stream} {id : UInt32} {p : Packet}
    (h : p ∈ s.drained after id) : p = ⟨OKAY, id, after.remote, []⟩ := by
  unfold drained at h
  split at h
  · exact List.mem_singleton.mp h
  · cases h

/-- What a pass of `services` does to a stream.  `f` is the outcome of its
`flush_pending`. -/
inductive Pass (io : Io) (max : ℕ) (id : UInt32) (s : Stream) (f : Flushed) :
    Serviced → Prop
  | timeout (t : Instant) (hopening : s.opening = some t)
      (helapsed : secs 10 < io.clock id - t) :
      Pass io max id s f ⟨s, [], [], true, false⟩
  | writeFailed (error : String) (hresult : f.result = .error error) :
      Pass io max id s f ⟨f.stream, [.wrote id f.written], [], true, false⟩
  | closing (t : Instant) (work : Bool) (hresult : f.result = .ok work)
      (hclosing : f.stream.closing = some t) :
      Pass io max id s f ⟨f.stream, [.wrote id f.written], [],
        f.stream.pending = [] || secs 1 < io.clock id - t, work⟩
  | ended (work : Bool) (hresult : f.result = .ok work)
      (hclosing : f.stream.closing = none) :
      Pass io max id s f
        ⟨f.stream, [.wrote id f.written], s.drained f.stream id, true, work⟩
  | idle (work : Bool) (hresult : f.result = .ok work)
      (hclosing : f.stream.closing = none) :
      Pass io max id s f
        ⟨f.stream, [.wrote id f.written], s.drained f.stream id, false, work⟩
  | read (source : Source) (data : Bytes) (work : Bool)
      (hresult : f.result = .ok work) (hclosing : f.stream.closing = none)
      (hopening : f.stream.opening = none) (hwaiting : f.stream.waiting = false)
      (hdata : data ≠ []) (hlength : data.length ≤ min max chunkSize) :
      Pass io max id s f
        ⟨{ f.stream with source := source, waiting := true },
          [.wrote id f.written, .read id data],
          s.drained f.stream id ++ [⟨WRTE, id, f.stream.remote, data⟩], false,
          true⟩

theorem read_length {source source' : Source} {outcome : ReadOutcome}
    {size : ℕ} {data : Bytes}
    (h : source.read outcome size = (.data data, source')) :
    data.length ≤ size := by
  cases source with
  | bytes rest =>
      obtain ⟨h, -⟩ := Prod.mk.inj h
      obtain rfl := ReadOutcome.data.inj h
      exact List.length_take_le _ _
  | socket socket =>
      cases outcome with
      | data received =>
          obtain ⟨h, -⟩ := Prod.mk.inj h
          obtain rfl := ReadOutcome.data.inj h
          exact List.length_take_le _ _
      | wouldBlock => cases h
      | failed => cases h

theorem service_pass (io : Io) (queued max : ℕ) (id : UInt32) (s : Stream) :
    Pass io max id s (s.flushPending false (io.write id))
      (s.service io queued max id) := by
  unfold service
  split
  · next htimeout =>
    cases hopening : s.opening with
    | none => simp [hopening] at htimeout
    | some t =>
        rw [hopening] at htimeout
        exact .timeout t hopening (by simpa using htimeout)
  · dsimp only
    split
    · next error hresult => exact .writeFailed error hresult
    · next work hresult =>
      split
      · next t hclosing =>
        have hnot : s.drained (s.flushPending false (io.write id)).stream id = [] := by
          simp [drained, hclosing]
        rw [hnot]
        exact .closing t work hresult hclosing
      · next hclosing =>
        unfold serviceRead
        split
        · next hready =>
          obtain ⟨hopening, hwaiting, -⟩ := hready
          split
          · exact .ended work hresult hclosing
          · next data source hdata hread =>
            exact .read source data work hresult hclosing hopening hwaiting hdata
              (read_length hread)
          · exact .idle work hresult hclosing
          · exact .ended work hresult hclosing
        · exact .idle work hresult hclosing

/-- A pass keeps who the stream belongs to and whether it is opening or
closing. -/
theorem service_frame (io : Io) (queued max : ℕ) (id : UInt32) (s : Stream) :
    (s.service io queued max id).stream.remote = s.remote ∧
      (s.service io queued max id).stream.opening = s.opening ∧
      (s.service io queued max id).stream.closing = s.closing := by
  obtain ⟨pending, offset, hflushed⟩ := s.flushPending_frame false (io.write id)
  have hpass := s.service_pass io queued max id
  generalize s.service io queued max id = r at hpass ⊢
  cases hpass with
  | timeout => exact ⟨rfl, rfl, rfl⟩
  | writeFailed | closing | ended | idle | read => simp [hflushed]

end Stream

/-- What a pass of `services` logs for the stream. -/
def Stream.Serviced.log (r : Stream.Serviced) (id : UInt32) :
    List StreamEvent :=
  r.observations.filterMap (·.about id) ++ r.events.map .sent

namespace Connection

variable {io : Io} {c c' : Connection}

/-! ## A pass of `services` -/

theorem service_log_about (io : Io) (queued max : ℕ) (id : UInt32)
    (s : Stream) :
    (∀ o ∈ (s.service io queued max id).observations,
      (∃ data, o = .wrote id data) ∨ ∃ data, o = .read id data) ∧
      ∀ p ∈ (s.service io queued max id).events, p.arg0 = id := by
  have hdrained (after : Stream) : ∀ p ∈ s.drained after id, p.arg0 = id :=
    fun p hp => by rw [Stream.mem_drained hp]
  have hpass := s.service_pass io queued max id
  generalize s.service io queued max id = r at hpass ⊢
  cases hpass with
  | timeout | writeFailed | closing => simp
  | ended | idle => exact ⟨by simp, hdrained _⟩
  | read =>
      refine ⟨by simp, fun p hp => ?_⟩
      rcases List.mem_append.mp hp with hp | hp
      · exact hdrained _ p hp
      · obtain rfl := List.mem_singleton.mp hp
        rfl

/-- A pass accepts nothing from the host. -/
theorem service_log_not_accepted (io : Io) (queued max : ℕ) (id : UInt32)
    (s : Stream) {e : StreamEvent} (he : e ∈ (s.service io queued max id).log id)
    (what : Acceptance) : e ≠ .accepted what := by
  rintro rfl
  rcases List.mem_append.mp he with he | he
  · obtain ⟨o, ho, habout⟩ := List.mem_filterMap.mp he
    rcases (service_log_about io queued max id s).1 o ho with ⟨data, rfl⟩ | ⟨data, rfl⟩ <;>
      simp [Observation.about] at habout
  · obtain ⟨p, -, hp⟩ := List.mem_map.mp he
    cases hp

/-- In a list over distinct ids, only the entry of an id contributes to what is
about the id. -/
theorem filterMap_flatMap_about {β : Type} (id : UInt32)
    (f : UInt32 × β → List Observation) (entries : List (UInt32 × β))
    (hdistinct : entries.Pairwise fun a b => a.1 ≠ b.1)
    (hother : ∀ e ∈ entries, e.1 ≠ id → (f e).filterMap (·.about id) = []) :
    (∀ v, (id, v) ∈ entries → (entries.flatMap f).filterMap (·.about id) =
      (f (id, v)).filterMap (·.about id)) ∧
    ((∀ v, (id, v) ∉ entries) →
      (entries.flatMap f).filterMap (·.about id) = []) := by
  have hnone : ∀ rest : List (UInt32 × β), (∀ e ∈ rest, e ∈ entries) →
      (∀ v, (id, v) ∉ rest) → (rest.flatMap f).filterMap (·.about id) = [] := by
    intro rest hsub hnot
    rw [List.filterMap_flatMap, List.flatMap_eq_nil_iff]
    intro e he
    refine hother e (hsub e he) fun heq => hnot e.2 ?_
    rwa [← heq]
  refine ⟨?_, hnone entries fun e he => he⟩
  induction entries with
  | nil => intro v hv; cases hv
  | cons e rest ih =>
      intro v hv
      obtain ⟨hhead, hrest⟩ := List.pairwise_cons.mp hdistinct
      rw [List.flatMap_cons, List.filterMap_append]
      rcases List.mem_cons.mp hv with rfl | hv
      · rw [hnone rest (fun e he => List.mem_cons_of_mem _ he), List.append_nil]
        exact fun w hw => hhead _ hw rfl
      · rw [hother e List.mem_cons_self (hhead _ hv), List.nil_append]
        exact ih hrest (fun e he => hother e (List.mem_cons_of_mem _ he))
          (fun rest hsub => hnone rest fun e he => List.mem_cons_of_mem _ (hsub e he))
          v hv

theorem Quiet.trans {c₁ c₂ c₃ : Connection} (h : Quiet c₁ c₂)
    (h' : Quiet c₂ c₃) : Quiet c₁ c₃ := by
  obtain ⟨rest, heq, hrest⟩ := h
  obtain ⟨rest', heq', hrest'⟩ := h'
  refine ⟨rest ++ rest', by rw [heq', heq, List.append_assoc], fun o ho => ?_⟩
  rcases List.mem_append.mp ho with ho | ho
  · exact hrest o ho
  · exact hrest' o ho

theorem Quiet.of_sent (c : Connection) (tls : Tls) (packets : List Packet) :
    Quiet c (c.withSent tls packets) := by
  refine ⟨packets.map .sent, rfl, fun o ho => .inl ?_⟩
  obtain ⟨p, -, rfl⟩ := List.mem_map.mp ho
  exact ⟨p, rfl⟩

/-- The streams of the list are removed, each with a `CLSE`. -/
structure Removed (ids : List UInt32) (c c' : Connection) : Prop where
  next_eq : c'.next = c.next
  max_eq : c'.max = c.max
  streams : ∀ id : UInt32, c'.streams[id]? =
    if id ∈ ids then none else c.streams[id]?
  history : ∀ id, c'.history id = c.history id ++
    if id ∈ ids then
      (c.streams[id]?.map fun s =>
        StreamEvent.sent ⟨CLSE, id, s.remote, []⟩).toList
    else []

theorem Removed.talks {ids : List UInt32} {c₁ : Connection}
    (h : Removed ids c c₁) (htalks : Talks c₁ c') : Removed ids c c' where
  next_eq := htalks.next_eq.trans h.next_eq
  max_eq := htalks.max_eq.trans h.max_eq
  streams id := by rw [htalks.streams_eq, h.streams]
  history id := by
    rw [← h.history]
    exact congrArg StreamView.history (htalks.view id)

/-- The connection after a stream was removed and its `CLSE` written. -/
def closed (c : Connection) (id : UInt32) (tls : Tls) (remote : UInt32) :
    Connection :=
  { c with
    streams := c.streams.erase id
    tls := tls
    transcript := c.transcript ++ [.sent ⟨CLSE, id, remote, []⟩] }

theorem removed_closed {id : UInt32} {s : Stream}
    (hstream : c.streams[id]? = some s) (tls : Tls) :
    Removed [id] c (c.closed id tls s.remote) := by
  refine ⟨rfl, rfl, fun other => ?_, fun other => ?_⟩
  · simp only [closed, Std.TreeMap.getElem?_erase,
      Std.LawfulEqCmp.compare_eq_iff_eq, List.mem_singleton, @eq_comm _ other id]
  · by_cases hid : other = id
    · subst hid
      simp [Connection.history, closed, Observation.about, hstream]
    · simp [Connection.history, closed, Observation.about, hid, Ne.symm hid]

/-- At most the streams of the list are gone. -/
structure Fewer (ids : List UInt32) (c c' : Connection) : Prop where
  quiet : Quiet c c'
  streams : ∀ id : UInt32, id ∉ ids → c'.streams[id]? = c.streams[id]?

theorem Fewer.of_quiet {ids : List UInt32} (h : Quiet c c')
    (hstreams : c'.streams = c.streams) : Fewer ids c c' :=
  ⟨h, fun id _ => by rw [hstreams]⟩

theorem Fewer.trans {ids : List UInt32} {c₁ c₂ c₃ : Connection}
    (h : Fewer ids c₁ c₂) (h' : Fewer ids c₂ c₃) : Fewer ids c₁ c₃ :=
  ⟨h.quiet.trans h'.quiet, fun id hid => (h'.streams id hid).trans (h.streams id hid)⟩

theorem Fewer.mono {ids ids' : List UInt32} (h : Fewer ids c c')
    (hsub : ids ⊆ ids') : Fewer ids' c c' :=
  ⟨h.quiet, fun id hid => h.streams id fun hmem => hid (hsub hmem)⟩

theorem closeStream_spec (id : UInt32) :
    wp (closeStream io id) (fun _ c' => Removed [id] c c' ∧ Fewer [id] c c')
      (fun _ c' => Fewer [id] c c') c := by
  simp only [closeStream, wp_bind, wp_get]
  cases hstream : c.streams[id]? with
  | none =>
      refine ⟨⟨rfl, rfl, fun other => ?_, fun other => ?_⟩, .of_quiet (.refl c) rfl⟩
      · split
        · next hmem => rw [List.mem_singleton.mp hmem, hstream]
        · rfl
      · split
        · next hmem => simp [List.mem_singleton.mp hmem, hstream]
        · simp
  | some s =>
      simp only [wp_bind, wp_modify, wp_attempt]
      have herased : Fewer [id] c { c with streams := c.streams.erase id } := by
        refine ⟨⟨[], by simp⟩, fun other hother => ?_⟩
        have hne : id ≠ other := fun heq => hother (by simp [heq])
        simp only [Std.TreeMap.getElem?_erase, Std.LawfulEqCmp.compare_eq_iff_eq,
          hne, if_false]
      refine wp_mono (send_spec _) ?_ ?_
      · rintro _ _ ⟨tls, -, rfl⟩
        simp only [wp_bind]
        refine wp_mono (dropSource_talks s.source) ?_ (fun _ _ h => h.elim)
        intro _ c' htalks
        change Talks (c.closed id tls s.remote) c' at htalks
        refine ⟨(removed_closed hstream tls).talks htalks, herased.trans ?_⟩
        refine .of_quiet ?_ htalks.streams_eq
        exact (Quiet.of_sent { c with streams := c.streams.erase id } tls
          [⟨CLSE, id, s.remote, []⟩]).trans (.of_talks htalks)
      · rintro error _ ⟨rfl, -⟩
        simp only [wp_bind]
        refine wp_mono (dropSource_talks s.source) ?_ (fun _ _ h => h.elim)
        exact fun _ c' htalks =>
          herased.trans (.of_quiet (.of_talks htalks) htalks.streams_eq)

/-- Streams are removed one after the other. -/
theorem Removed.trans {id : UInt32} {rest : List UInt32} {c₁ c₂ c₃ : Connection}
    (hnew : id ∉ rest) (h : Removed [id] c₁ c₂) (h' : Removed rest c₂ c₃) :
    Removed (id :: rest) c₁ c₃ := by
  refine ⟨h'.next_eq.trans h.next_eq, h'.max_eq.trans h.max_eq, ?_, ?_⟩
  · intro other
    rw [h'.streams, h.streams]
    by_cases hmem : other ∈ rest <;> by_cases hid : other = id <;>
      simp [hmem, hid]
  · intro other
    rw [h'.history, h.history, h.streams, List.append_assoc]
    by_cases hid : other = id
    · simp [hid, hnew]
    · simp [hid]

theorem forM_closeStream_spec (ids : List UInt32) (hnodup : ids.Nodup) :
    wp (ids.forM (closeStream io)) (fun _ c' => Removed ids c c' ∧ Fewer ids c c')
      (fun _ c' => Fewer ids c c') c := by
  induction ids generalizing c with
  | nil => exact ⟨⟨rfl, rfl, by simp, by simp⟩, .of_quiet (.refl c) rfl⟩
  | cons id rest ih =>
      obtain ⟨hnew, hrest⟩ := List.nodup_cons.mp hnodup
      show wp (closeStream io id >>= fun _ => rest.forM (closeStream io)) _ _ c
      rw [wp_bind]
      have hhead : [id] ⊆ id :: rest := by simp
      have htail : rest ⊆ id :: rest := by simp
      refine wp_mono (closeStream_spec id) ?_ (fun _ _ h => h.mono hhead)
      rintro _ c₁ ⟨hremoved, hfewer⟩
      have hfewer := hfewer.mono hhead
      refine wp_mono (ih hrest) ?_ (fun _ _ h => hfewer.trans (h.mono htail))
      rintro _ c₂ ⟨hremoved', hfewer'⟩
      exact ⟨hremoved.trans hnew hremoved', hfewer.trans (hfewer'.mono htail)⟩

/-- The outcome of a pass for the stream `id`. -/
def passed (io : Io) (c : Connection) (id : UInt32) (s : Stream) :
    Stream.Serviced :=
  s.service io c.tls.queued c.max id

/-- The results of a pass in the order of the ids. -/
def results (io : Io) (c : Connection) : List (UInt32 × Stream.Serviced) :=
  (c.streams.map (passed io c)).toList

theorem mem_results {id : UInt32} {r : Stream.Serviced} :
    (id, r) ∈ results io c ↔
      ∃ s, c.streams[id]? = some s ∧ passed io c id s = r := by
  rw [results, Std.TreeMap.mem_toList_iff_getElem?_eq_some,
    Std.TreeMap.getElem?_map, Option.map_eq_some_iff]

theorem results_distinct :
    (results io c).Pairwise fun a b => a.1 ≠ b.1 := by
  refine Std.TreeMap.distinct_keys_toList.imp fun h heq => h ?_
  rw [heq]
  exact Std.ReflCmp.compare_self

/-- The loop of a pass is over and nothing has been written to the host. -/
def looped (io : Io) (c : Connection) : Connection :=
  { c with
    streams := (c.streams.map (passed io c)).map fun _ r => r.stream
    transcript := c.transcript ++
      (results io c).flatMap fun r => r.2.observations }

theorem looped_streams (id : UInt32) :
    (looped io c).streams[id]? =
      c.streams[id]?.map fun s => (passed io c id s).stream := by
  simp [looped, Std.TreeMap.getElem?_map]
  rfl

/-- Only the observations of a stream are about it. -/
theorem results_filterMap (f : Stream.Serviced → List Observation)
    (hf : ∀ id s, ∀ o ∈ f (passed io c id s), ∀ other, id ≠ other →
      o.about other = none) (id : UInt32) :
    ((results io c).flatMap fun r => f r.2).filterMap (·.about id) =
      ((c.streams[id]?.map fun s =>
        (f (passed io c id s)).filterMap (·.about id)).getD []) := by
  obtain ⟨hpresent, habsent⟩ := filterMap_flatMap_about id (fun r => f r.2)
    (results io c) results_distinct (by
      rintro ⟨other, r⟩ hr hne
      obtain ⟨s, -, rfl⟩ := mem_results.mp hr
      rw [List.filterMap_eq_nil_iff]
      exact fun o ho => hf other s o ho id hne)
  cases hstream : c.streams[id]? with
  | none =>
      refine habsent fun r hr => ?_
      obtain ⟨s, hs, -⟩ := mem_results.mp hr
      rw [hstream] at hs
      cases hs
  | some s => exact hpresent _ (mem_results.mpr ⟨s, hstream, rfl⟩)

theorem observations_about {id other : UInt32} {s : Stream} (hne : id ≠ other) :
    ∀ o ∈ (passed io c id s).observations, o.about other = none := by
  intro o ho
  rcases (service_log_about io _ _ id s).1 o ho with ⟨data, rfl⟩ | ⟨data, rfl⟩ <;>
    exact if_neg hne

theorem events_about {id other : UInt32} {s : Stream} (hne : id ≠ other) :
    ∀ o ∈ (passed io c id s).events.map Observation.sent,
      o.about other = none := by
  intro o ho
  obtain ⟨p, hp, rfl⟩ := List.mem_map.mp ho
  have hid := (service_log_about io _ _ id s).2 p hp
  exact if_neg (hid ▸ hne)

/-- The ids of the streams that a pass ends. -/
def ended (io : Io) (c : Connection) : List UInt32 :=
  ((results io c).filter fun r => r.2.closed).map (·.1)

theorem ended_nodup : (ended io c).Nodup := by
  refine (List.Pairwise.filter _ results_distinct).map _ fun a b hab => hab

theorem mem_ended {id : UInt32} :
    id ∈ ended io c ↔
      ∃ s, c.streams[id]? = some s ∧ (passed io c id s).closed = true := by
  simp only [ended, List.mem_map, List.mem_filter]
  constructor
  · rintro ⟨⟨other, r⟩, ⟨hr, hclosed⟩, rfl⟩
    obtain ⟨s, hs, rfl⟩ := mem_results.mp hr
    exact ⟨s, hs, hclosed⟩
  · rintro ⟨s, hs, hclosed⟩
    exact ⟨(id, passed io c id s), ⟨mem_results.mpr ⟨s, hs, rfl⟩, hclosed⟩, rfl⟩

/-- What a pass does for the id, with the packets that follow the loop. -/
structure PassedView (io : Io) (c c' : Connection) (id : UInt32) : Prop where
  stream : c'.streams[id]? = c.streams[id]?.bind fun s =>
    if (passed io c id s).closed then none
    else some (passed io c id s).stream
  history : c'.history id = c.history id ++
    (c.streams[id]?.map fun s => (passed io c id s).log id ++
      if (passed io c id s).closed then
        [.sent ⟨CLSE, id, (passed io c id s).stream.remote, []⟩]
      else []).getD []

/-- A stream that a pass leaves was there before. -/
theorem PassedView.kept {id : UInt32} {s' : Stream} (h : PassedView io c c' id)
    (hs' : c'.streams[id]? = some s') :
    ∃ s, c.streams[id]? = some s ∧ s' = (passed io c id s).stream := by
  rw [h.stream] at hs'
  obtain ⟨s, hs, hkept⟩ := Option.bind_eq_some_iff.mp hs'
  split at hkept
  · cases hkept
  · exact ⟨s, hs, (Option.some_inj.mp hkept).symm⟩

/-- What the loop of a pass observes. -/
theorem history_looped (id : UInt32) :
    (looped io c).history id = c.history id ++
      ((c.streams[id]?.map fun s =>
        (passed io c id s).observations.filterMap (·.about id)).getD []) := by
  have hobservations := @results_filterMap io c (fun r => r.observations)
    (fun id s o ho other hne => observations_about hne o ho) id
  simp only [Connection.history, looped, List.filterMap_append, hobservations]

theorem looped_history (tls : Tls) (id : UInt32) :
    ((looped io c).withSent tls
      ((results io c).flatMap fun r => r.2.events)).history id =
      c.history id ++
        ((c.streams[id]?.map fun s => (passed io c id s).log id).getD []) := by
  have hevents := @results_filterMap io c (fun r => r.events.map .sent)
    (fun id s o ho other hne => events_about hne o ho) id
  have hown (s : Stream) :
      ((passed io c id s).events.map Observation.sent).filterMap (·.about id) =
        (passed io c id s).events.map .sent := by
    have hall := (service_log_about io c.tls.queued c.max id s).2
    change ∀ p ∈ (passed io c id s).events, p.arg0 = id at hall
    generalize (passed io c id s).events = events at hall ⊢
    induction events with
    | nil => rfl
    | cons p rest ih =>
        have hp := hall p List.mem_cons_self
        have habout : (Observation.sent p).about id = some (.sent p) := if_pos hp
        rw [List.map_cons, List.filterMap_cons_some habout, List.map_cons,
          ih fun q hq => hall q (List.mem_cons_of_mem _ hq)]
  have hlooped := @history_looped io c id
  simp only [Connection.history] at hlooped
  simp only [Connection.history, withSent, List.filterMap_append, hlooped,
    List.map_flatMap, hevents, List.append_assoc]
  cases c.streams[id]? with
  | none => rfl
  | some s => simp [Stream.Serviced.log, hown]

theorem services_spec :
    wp (services io)
      (fun _ c' => c'.next = c.next ∧ c'.max = c.max ∧
        (∀ id, PassedView io c c' id) ∧ Fewer (ended io c) (looped io c) c')
      (fun _ c' => Fewer (ended io c) (looped io c) c') c := by
  simp only [services, wp_bind, wp_get, wp_modify]
  change wp _ _ _ (looped io c)
  refine wp_mono (forM_send_spec _) ?_ ?_
  · rintro _ _ ⟨tls, rfl⟩
    have hsent : Fewer (ended io c) (looped io c) ((looped io c).withSent tls
        ((results io c).flatMap fun r => r.2.events)) :=
      .of_quiet (.of_sent _ tls _) rfl
    simp only [wp_bind]
    change wp ((ended io c).forM (closeStream io)) _ _ _
    refine wp_mono (forM_closeStream_spec _ ended_nodup) ?_
      (fun _ _ h => hsent.trans h)
    rintro _ c' ⟨hremoved, hfewer⟩
    change Removed (ended io c) ((looped io c).withSent tls
      ((results io c).flatMap fun r => r.2.events)) c' at hremoved
    refine ⟨hremoved.next_eq, hremoved.max_eq, fun id => ?_, hsent.trans hfewer⟩
    have hhistory := hremoved.history id
    rw [looped_history] at hhistory
    have hstreams := hremoved.streams id
    change _ = if _ then none else (looped io c).streams[id]? at hstreams
    change _ = _ ++ if _ then
      ((looped io c).streams[id]?.map _).toList else [] at hhistory
    rw [looped_streams] at hstreams hhistory
    cases hstream : c.streams[id]? with
    | none =>
        refine ⟨?_, ?_⟩
        · simp [hstreams, hstream]
        · simp [hhistory, hstream]
    | some s =>
        have hended : id ∈ ended io c ↔ (passed io c id s).closed = true := by
          simp [mem_ended, hstream]
        rw [hstream] at hstreams hhistory
        refine ⟨?_, ?_⟩
        · rw [hstreams, hstream]
          simp only [hended, Option.map_some, Option.bind_some]
        · rw [hhistory, hstream]
          simp only [hended, Option.map_some, Option.getD_some,
            List.append_assoc]
          split <;> simp
  · rintro _ _ ⟨tls, written, -, rfl⟩
    exact .of_quiet (.of_sent _ tls written) rfl

end Connection

end Altdb
