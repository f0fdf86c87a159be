import Altdb.StreamSteps
import Altdb.History

/-!
# The queue of a stream

A stream keeps the payloads that its service has not taken yet.  `unwritten` is
the rest of the queue as bytes; the offset is the length of the prefix of the
first payload that is written already.
-/

namespace Altdb

open Fallible

/-! ## The queue -/

namespace Stream

/-- The queued bytes that the service has not taken yet. -/
def unwritten (s : Stream) : Bytes := s.pending.flatten.drop s.offset

/-- No queued payload is empty, and the offset lies in the first. -/
structure Queue (s : Stream) : Prop where
  nonempty : ∀ data ∈ s.pending, data ≠ []
  offset : s.offset < (s.pending.headD [0]).length

theorem Queue.unwritten_eq_nil {s : Stream} (h : s.Queue) :
    s.unwritten = [] ↔ s.pending = [] := by
  have hoffset := h.offset
  cases hpending : s.pending with
  | nil => simp [unwritten, hpending]
  | cons data rest =>
      rw [hpending] at hoffset
      simp only [List.headD_cons] at hoffset
      simp only [unwritten, hpending, List.flatten_cons, reduceCtorEq, iff_false,
        List.drop_eq_nil_iff, List.length_append, not_le]
      omega

theorem Queue.append {s : Stream} (h : s.Queue) {data : Bytes}
    (hdata : data ≠ []) : Queue { s with pending := s.pending ++ [data] } where
  nonempty d hd := by
    rcases List.mem_append.mp hd with hd | hd
    · exact h.nonempty d hd
    · exact List.mem_singleton.mp hd ▸ hdata
  offset := by
    have hoffset := h.offset
    have hpos := List.length_pos_of_ne_nil hdata
    cases hpending : s.pending with
    | nil =>
        simp only [hpending, List.headD_nil, List.length_singleton] at hoffset
        simp only [List.nil_append, List.headD_cons]
        omega
    | cons first rest =>
        rw [hpending] at hoffset
        simpa using hoffset

theorem Queue.unwritten_append {s : Stream} (h : s.Queue) (data : Bytes) :
    unwritten { s with pending := s.pending ++ [data] } = s.unwritten ++ data := by
  have hoffset := h.offset
  have hle : s.offset ≤ s.pending.flatten.length := by
    cases hpending : s.pending with
    | nil =>
        simp only [hpending, List.headD_nil, List.length_singleton] at hoffset
        omega
    | cons first rest =>
        simp only [hpending, List.headD_cons] at hoffset
        simp only [List.flatten_cons, List.length_append]
        omega
  simp [unwritten, List.drop_append_of_le_length hle]

/-- A write takes a prefix of the buffer. -/
theorem write_le {source : Source} {outcome : WriteOutcome} {buffer : Bytes}
    {n : ℕ} (h : source.write outcome buffer = .wrote n) : n ≤ buffer.length := by
  cases source with
  | bytes rest => cases h
  | socket socket =>
      cases outcome with
      | wrote m =>
          obtain rfl := WriteOutcome.wrote.inj h
          exact min_le_right _ _
      | wouldBlock => cases h
      | failed => cases h

/-- The queue after `n` bytes of its first payload were written. -/
def advance (s : Stream) (data : Bytes) (rest : List Bytes) (n : ℕ) : Stream :=
  if s.offset + n = data.length then { s with pending := rest, offset := 0 }
  else { s with offset := s.offset + n }

theorem Queue.advance {s : Stream} (h : s.Queue) {data : Bytes}
    {rest : List Bytes} {n : ℕ} (hpending : s.pending = data :: rest)
    (hn : n ≤ (data.drop s.offset).length) :
    (s.advance data rest n).Queue ∧
      (data.drop s.offset).take n ++ (s.advance data rest n).unwritten =
        s.unwritten := by
  have hoffset := h.offset
  have hnonempty := h.nonempty
  simp only [hpending, List.headD_cons] at hoffset
  rw [hpending] at hnonempty
  rw [List.length_drop] at hn
  have hsplit : s.unwritten = data.drop s.offset ++ rest.flatten := by
    simp [unwritten, hpending, List.drop_append_of_le_length hoffset.le]
  unfold Stream.advance
  split
  · next hend =>
    refine ⟨⟨fun d hd => hnonempty d (List.mem_cons_of_mem _ hd), ?_⟩, ?_⟩
    · cases rest with
      | nil => exact Nat.zero_lt_one
      | cons next rest =>
          exact List.length_pos_of_ne_nil (hnonempty next (by simp))
    · rw [hsplit, List.take_of_length_le (by rw [List.length_drop]; omega)]
      simp [unwritten]
  · next hmore =>
    have hlt : s.offset + n < data.length := by omega
    refine ⟨⟨by rw [hpending]; exact hnonempty, by simpa [hpending] using hlt⟩, ?_⟩
    rw [hsplit]
    simp only [unwritten, hpending, List.flatten_cons,
      List.drop_append_of_le_length hlt.le, ← List.append_assoc,
      ← List.drop_drop, List.take_append_drop]

/-- What a flush writes is what it takes from the queue. -/
theorem flushPending_spec {s : Stream} (h : s.Queue) (work : Bool)
    (script : List WriteOutcome) :
    (s.flushPending work script).stream.Queue ∧
      (s.flushPending work script).written ++
        (s.flushPending work script).stream.unwritten = s.unwritten := by
  induction script generalizing s work with
  | nil =>
      unfold flushPending
      repeat' split
      all_goals exact ⟨h, rfl⟩
  | cons outcome script ih =>
      unfold flushPending
      split
      · exact ⟨h, rfl⟩
      · next data rest hpending =>
        split
        · exact ⟨h, rfl⟩
        · next n _ hwrote =>
          obtain ⟨hqueue, hbytes⟩ := h.advance hpending (write_le hwrote)
          obtain ⟨hqueue', hbytes'⟩ := ih hqueue true
          refine ⟨hqueue', ?_⟩
          change (data.drop s.offset).take n ++ _ ++ _ = _
          rw [List.append_assoc, ← hbytes]
          exact congrArg _ hbytes'
        · exact ⟨h, rfl⟩
        · exact ⟨h, rfl⟩

/-- A pass over a stream takes from the queue what it writes. -/
theorem Queue.service_queue {s : Stream} (h : s.Queue) (io : Io) (queued max : ℕ)
    (id : UInt32) :
    (s.service io queued max id).stream.Queue ∧
      written ((s.service io queued max id).log id) ++
        (s.service io queued max id).stream.unwritten = s.unwritten ∧
      received ((s.service io queued max id).log id) = [] := by
  obtain ⟨hqueue, hbytes⟩ := flushPending_spec h false (io.write id)
  have hpass := s.service_pass io queued max id
  generalize s.service io queued max id = r at hpass ⊢
  cases hpass with
  | timeout => exact ⟨h, rfl, rfl⟩
  | writeFailed | closing | ended | idle =>
      refine ⟨hqueue, ?_, ?_⟩
      · simpa [Serviced.log, Observation.about, written_map_sent] using hbytes
      · simp [Serviced.log, Observation.about, received_map_sent]
  | read source data =>
      refine ⟨⟨hqueue.nonempty, hqueue.offset⟩, ?_, ?_⟩
      · simpa [Serviced.log, Observation.about, written_map_sent, unwritten]
          using hbytes
      · simp [Serviced.log, Observation.about, received_map_sent]

end Stream

end Altdb
