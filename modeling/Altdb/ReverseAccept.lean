import Altdb.StreamBounds

/-!
# Accepted reverse connections

`reverse_accept` takes one connection from every listener that has one and only
then looks for streams.  With a slot for each of them every connection is
offered to the host.  The connections without a slot have been taken from their
listeners and are dropped.
-/

namespace Altdb.Connection

open Fallible

variable {io : Io} {c c' : Connection} {sockets : List (Fd × String)}

/-- The sockets that are taken from the listeners, with their targets. -/
def taken (io : Io) (c : Connection) : List (Fd × String) :=
  if maxStreams ≤ c.streams.size then []
  else c.reverse.toList.filterMap fun entry =>
    (io.accept entry.2.listener).map fun fd => (fd, entry.2.target)

/-- The packet that offers the connection to the host. -/
def offer (socket : Fd × String) (id : UInt32) : Packet :=
  ⟨OPEN, id, 0, utf8 (socket.2 ++ "\x00")⟩

/-- Every socket became the source of a stream of its own, and the stream was
offered to the host. -/
def AllOffered (io : Io) (c c' : Connection) (sockets : List (Fd × String)) : Prop :=
  ∃ ids : List UInt32, ids.Nodup ∧ List.Forall₂ (fun socket id =>
    c'.streams[id]? = some (reverseStream socket.1 io.now) ∧
      .sent (offer socket id) ∈ c'.transcript.drop c.transcript.length) sockets ids

/-- The ids of the streams were given out before the next one. -/
def Numbered (c : Connection) : Prop :=
  ∀ (id : UInt32) (s : Stream), c.streams[id]? = some s → id.toNat < c.next.toNat

/-- The sockets are offered one after the other. -/
inductive Offering (io : Io) : List (Fd × String) → Connection → Connection → Prop
  | nil (c : Connection) : Offering io [] c c
  | cons (socket : Fd × String) (rest : List (Fd × String)) (c : Connection) (tls : Tls)
      (c' : Connection) (hallocate : c.CanAllocate)
      (hrest : Offering io rest (c.opened c.next (reverseStream socket.1 io.now) tls
        (offer socket c.next)) c') : Offering io (socket :: rest) c c'

/-! ## The loop -/

theorem Numbered.next_free (h : c.Numbered) : c.streams[c.next]? = none := by
  cases hstream : c.streams[c.next]? with
  | none => rfl
  | some s => exact absurd (h c.next s hstream) (lt_irrefl _)

theorem Numbered.opened (h : c.Numbered) (hallocate : c.CanAllocate) (s : Stream)
    (tls : Tls) (p : Packet) :
    (c.opened c.next s tls p).Numbered ∧
      (c.opened c.next s tls p).streams.size = c.streams.size + 1 := by
  refine ⟨fun id t ht => ?_, ?_⟩
  · show id.toNat < (c.next + 1).toNat
    rw [next_succ hallocate.id]
    change (c.streams.insert c.next s)[id]? = some t at ht
    rw [streams_insert] at ht
    split at ht
    · next hid => exact hid ▸ Nat.lt_succ_self _
    · exact (h id t ht).trans (Nat.lt_succ_self _)
  · show (c.streams.insert c.next s).size = _
    rw [Std.TreeMap.size_insert, Std.TreeMap.contains_eq_isSome_getElem?, h.next_free]
    rfl

/-- As many sockets are offered as there are slots. -/
theorem acceptSockets_offering (hnumbered : c.Numbered) (sockets : List (Fd × String)) :
    wp (acceptSockets io sockets)
      (fun _ c' => Offering io (sockets.take (maxStreams - c.streams.size)) c c')
      (fun _ _ => True) c := by
  induction sockets generalizing c with
  | nil =>
      rw [List.take_nil]
      exact .nil c
  | cons socket rest ih =>
      simp only [acceptSockets, wp_bind, wp_get, wp_ite]
      refine ⟨fun hfull => ?_, fun hslot => ?_⟩
      · rw [Nat.sub_eq_zero_of_le hfull]
        exact .nil c
      · refine wp_mono allocate_spec ?_ fun _ _ _ => trivial
        rintro _ _ ⟨hallocate, rfl, rfl⟩
        simp only [putStream, wp_bind, wp_modify]
        refine wp_mono (send_spec _) ?_ fun _ _ _ => trivial
        rintro _ c₁ ⟨tls, -, rfl⟩
        obtain ⟨hnumbered₁, hsize⟩ := hnumbered.opened hallocate
          (reverseStream socket.1 io.now) tls (offer socket c.next)
        refine wp_mono (ih hnumbered₁) ?_ fun _ _ _ => trivial
        intro _ c' hoffering
        have hoffering : Offering io
            (rest.take (maxStreams - (c.opened c.next (reverseStream socket.1 io.now) tls
              (offer socket c.next)).streams.size))
            (c.opened c.next (reverseStream socket.1 io.now) tls (offer socket c.next)) c' :=
          hoffering
        rw [hsize] at hoffering
        obtain ⟨free, hfree⟩ : ∃ free, maxStreams - c.streams.size = free + 1 :=
          ⟨maxStreams - c.streams.size - 1, by omega⟩
        rw [hfree, List.take_succ_cons]
        have hrest : maxStreams - (c.streams.size + 1) = free := by omega
        rw [hrest] at hoffering
        exact .cons socket _ c tls c' hallocate hoffering

/-- The streams and packets of the sockets that were offered. -/
theorem Offering.ids (h : Offering io sockets c c') :
    ∃ ids : List UInt32, ids.Nodup ∧ (∀ id ∈ ids, c.next.toNat ≤ id.toNat) ∧
      List.Forall₂ (fun socket id =>
        c'.streams[id]? = some (reverseStream socket.1 io.now)) sockets ids ∧
      c'.transcript = c.transcript ++
        (sockets.zip ids).map (fun e => .sent (offer e.1 e.2)) ∧
      ∀ id : UInt32, id.toNat < c.next.toNat → c'.streams[id]? = c.streams[id]? := by
  induction h with
  | nil c => exact ⟨[], List.nodup_nil, by simp, .nil, by simp, fun _ _ => rfl⟩
  | cons socket rest c tls c' hallocate hrest ih =>
      obtain ⟨ids, hnodup, hle, hstreams, htranscript, hframe⟩ := ih
      change ∀ id ∈ ids, (c.next + 1).toNat ≤ id.toNat at hle
      change ∀ id : UInt32, id.toNat < (c.next + 1).toNat →
        c'.streams[id]? = (c.streams.insert c.next _)[id]? at hframe
      rw [next_succ hallocate.id] at hle hframe
      refine ⟨c.next :: ids, List.nodup_cons.mpr ⟨fun hmem => ?_, hnodup⟩, ?_,
        .cons ?_ hstreams, ?_, fun id hid => ?_⟩
      · exact absurd (hle _ hmem) (Nat.not_succ_le_self _)
      · rintro id hid
        rcases List.mem_cons.mp hid with rfl | hid
        · exact le_rfl
        · exact (Nat.le_succ _).trans (hle id hid)
      · rw [hframe _ (Nat.lt_succ_self _), streams_insert, if_pos rfl]
      · rw [htranscript]
        show (c.transcript ++ [_]) ++ _ = _
        simp
      · rw [hframe id (hid.trans (Nat.lt_succ_self _)), streams_insert, if_neg]
        rintro rfl
        exact lt_irrefl _ hid

/-! ## All or not -/

theorem Offering.all (h : Offering io sockets c c') : AllOffered io c c' sockets := by
  obtain ⟨ids, hnodup, -, hstreams, htranscript, -⟩ := h.ids
  refine ⟨ids, hnodup, ?_⟩
  rw [htranscript, List.drop_left]
  clear h htranscript hnodup
  induction hstreams with
  | nil => exact .nil
  | cons hstream _ ih =>
      refine .cons ⟨hstream, List.mem_cons_self⟩ (ih.imp fun socket id hold => ?_)
      exact ⟨hold.1, List.mem_cons_of_mem _ hold.2⟩

/-- An offer for each socket needs as many packets. -/
theorem AllOffered.length_le (h : AllOffered io c c' sockets) :
    sockets.length ≤ (c'.transcript.drop c.transcript.length).length := by
  obtain ⟨ids, hnodup, hoffered⟩ := h
  generalize c'.transcript.drop c.transcript.length = sent at hoffered ⊢
  have hpackets : (sockets.zip ids).map (fun e => Observation.sent (offer e.1 e.2)) ⊆ sent := by
    clear hnodup
    induction hoffered with
    | nil => simp
    | cons hhead _ ih => exact List.cons_subset.mpr ⟨hhead.2, ih⟩
  have hlengths := hoffered.length_eq
  -- The packets name different streams.
  have hdistinct : ((sockets.zip ids).map fun e =>
      Observation.sent (offer e.1 e.2)).Nodup := by
    clear hpackets hlengths
    induction hoffered with
    | nil => exact List.nodup_nil
    | @cons socket id rest others hhead hrest ih =>
        obtain ⟨hnew, hnodup⟩ := List.nodup_cons.mp hnodup
        refine List.nodup_cons.mpr ⟨fun hmem => hnew ?_, ih hnodup⟩
        obtain ⟨e, hmem, heq⟩ := List.mem_map.mp hmem
        have hid : e.2 = id := congrArg Packet.arg0 (Observation.sent.inj heq)
        exact hid ▸ (List.of_mem_zip hmem).2
  have hlength := (List.subperm_of_subset hdistinct hpackets).length_le
  rwa [List.length_map, List.length_zip, ← hlengths, min_self] at hlength

/-- No accepted connection is dropped exactly when there is a slot for each,
or when there is no slot at all. -/
theorem accepted_offered (io : Io) (c c' : Connection) (work : Bool) (hnumbered : c.Numbered)
    (hrun : reverseAccept io c = .ok work c') :
    AllOffered io c c' (taken io c) ↔
      c.streams.size + (c.reverse.toList.filter fun entry =>
        (io.accept entry.2.listener).isSome).length ≤ maxStreams ∨
      maxStreams ≤ c.streams.size := by
  have hready : (c.reverse.toList.filterMap fun entry =>
      (io.accept entry.2.listener).map fun fd => (fd, entry.2.target)).length =
      (c.reverse.toList.filter fun entry => (io.accept entry.2.listener).isSome).length := by
    rw [List.length_filterMap_eq_countP, List.countP_eq_length_filter]
    simp
  by_cases hfull : maxStreams ≤ c.streams.size
  · have hnone : taken io c = [] := if_pos hfull
    rw [hnone]
    exact ⟨fun _ => .inr hfull, fun _ => ⟨[], List.nodup_nil, .nil⟩⟩
  · have htaken : taken io c = c.reverse.toList.filterMap fun entry =>
        (io.accept entry.2.listener).map fun fd => (fd, entry.2.target) := if_neg hfull
    have hoffering : Offering io ((taken io c).take (maxStreams - c.streams.size)) c c' := by
      have hspec : wp (reverseAccept io) (fun _ c' =>
          Offering io ((taken io c).take (maxStreams - c.streams.size)) c c')
          (fun _ _ => True) c := by
        simp only [reverseAccept, wp_bind, wp_get, if_neg hfull, htaken]
        exact wp_mono (acceptSockets_offering hnumbered _) (fun _ _ h => h) fun _ _ h => h
      have hall := wp_of_ok hspec hrun
      exact hall
    rw [← hready, ← htaken, or_iff_left hfull]
    constructor
    · intro hall
      obtain ⟨ids, -, -, hstreams, htranscript, -⟩ := hoffering.ids
      have hlength := hall.length_le
      rw [htranscript, List.drop_left, List.length_map, List.length_zip,
        ← hstreams.length_eq, min_self, List.length_take] at hlength
      omega
    · intro hslots
      rw [List.take_of_length_le (by omega)] at hoffering
      exact hoffering.all

/-! ## Two listeners and one slot -/

/-- A connection with `n` streams and two listeners. -/
def crowded (n : ℕ) : Connection :=
  { fresh with
    streams := (List.range n).foldl (fun streams i =>
      streams.insert (UInt32.ofNat (i + 1)) (hostStream (UInt32.ofNat (i + 1)) (.bytes []))) ∅
    reverse := ((∅ : Std.TreeMap String Reverse).insert "tcp:6000" ⟨7, "tcp:80"⟩).insert
      "tcp:6001" ⟨8, "tcp:81"⟩
    next := UInt32.ofNat (n + 1) }

/-- Both listeners have a connection. -/
def knocking : Io where
  now := 1
  clock _ := 1
  tlsWrite _ tls _ := .ok tls
  tlsFlush := .ok
  broker _ := .ok ("", [])
  nonblocking _ := .ok ()
  write _ := []
  read _ := .wouldBlock
  accept listener := some (listener + 100)

/-- The streams of the connection have the numbers below the next one. -/
theorem numbered_of_all (h : c.streams.toList.all fun entry => entry.1.toNat < c.next.toNat) :
    c.Numbered := by
  intro id s hstream
  have hmem := Std.TreeMap.mem_toList_iff_getElem?_eq_some.mpr hstream
  simpa using List.all_eq_true.mp h _ hmem

theorem accepted_offered_fails :
    (crowded 63).Numbered ∧ (crowded 63).streams.size = 63 ∧
      taken knocking (crowded 63) = [(107, "tcp:80"), (108, "tcp:81")] ∧
      ∃ c', reverseAccept knocking (crowded 63) = .ok true c' ∧
        ¬AllOffered knocking (crowded 63) c' (taken knocking (crowded 63)) := by
  have htaken : taken knocking (crowded 63) = [(107, "tcp:80"), (108, "tcp:81")] := by
    decide +kernel
  have hrun : (match reverseAccept knocking (crowded 63) with
      | .ok work c' => work && c'.transcript.length == 1
      | .error _ _ => false) = true := by
    decide +kernel
  refine ⟨numbered_of_all (by decide +kernel), by decide +kernel, htaken, ?_⟩
  split at hrun
  · next work c' heq =>
    obtain ⟨rfl, hlength⟩ := Bool.and_eq_true_iff.mp hrun
    refine ⟨c', heq, fun hall => ?_⟩
    have hle := hall.length_le
    rw [htaken, List.length_drop, beq_iff_eq.mp hlength] at hle
    exact absurd hle (by decide)
  · cases hrun

theorem accepted_offered_both :
    ∃ c', reverseAccept knocking (crowded 62) = .ok true c' ∧
      AllOffered knocking (crowded 62) c' (taken knocking (crowded 62)) := by
  have hrun : (match reverseAccept knocking (crowded 62) with
      | .ok work _ => work
      | .error _ _ => false) = true := by
    decide +kernel
  split at hrun
  · next work c' heq =>
    subst hrun
    exact ⟨c', heq, (accepted_offered knocking (crowded 62) c' true
      (numbered_of_all (by decide +kernel)) heq).mpr (.inl (by decide +kernel))⟩
  · cases hrun

end Altdb.Connection
