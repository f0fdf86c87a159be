import Altdb.Connection

/-!
# The output of the TLS engine

`Tls` moves the ciphertext of the engine to the TCP socket.  `drain` takes what
the engine has produced, `flush` writes until the socket blocks, and `write`
does both and does not mind a blocked socket.  Whatever the socket does, no byte
of the ciphertext is lost or written twice.
-/

namespace Altdb

open Fallible

inductive IoError where
  | wouldBlock
  | other (message : String)
  deriving DecidableEq, Repr

/-- The most ciphertext that may wait for the socket. -/
def tlsOutputLimit : ℕ := 8 * 1024 * 1024

def queueLimit : IoError := .other "TLS output queue limit"

/-- The output of the engine.  `drained` and `accepted` are history variables:
the ciphertext that came from the engine and what the socket has taken. -/
structure Wire where
  tls : Tls
  drained : Bytes
  accepted : Bytes
  deriving DecidableEq, Repr

namespace Wire

def fresh : Wire := ⟨⟨[], 0⟩, [], []⟩

/-! ## Methods -/

/-- The loop of `drain`.  The list has what successive reads from the write BIO
return, and a read without data ends the loop. -/
def drainChunks : List Bytes → EStateM IoError Wire Unit
  | [] => pure ()
  | chunk :: rest => do
      let chunk := chunk.take 65536
      if chunk = [] then pure ()
      else
        modify fun w =>
          { w with
            tls := { w.tls with outgoing := w.tls.outgoing ++ chunk }
            drained := w.drained ++ chunk }
        ensure ((← get).tls.queued ≤ tlsOutputLimit) queueLimit
        drainChunks rest

def drain (chunks : List Bytes) : EStateM IoError Wire Unit := do
  if 0 < (← get).tls.offset then
    modify fun w => { w with tls := ⟨w.tls.outgoing.drop w.tls.offset, 0⟩ }
  drainChunks chunks

/-- The end of `flush`: everything is written. -/
def clear : EStateM IoError Wire Unit :=
  modify fun w => { w with tls := ⟨[], 0⟩ }

/-- The loop of `flush`.  Once the list of outcomes is used up the socket
blocks. -/
def flushLoop : List WriteOutcome → EStateM IoError Wire Unit
  | [] => do
      let w ← get
      if w.tls.offset < w.tls.outgoing.length then throw .wouldBlock
      else clear
  | outcome :: script => do
      let w ← get
      if w.tls.offset < w.tls.outgoing.length then
        match outcome with
        | .wouldBlock => throw .wouldBlock
        | .failed => throw (.other "write failed")
        | .wrote n =>
            let n := min n (w.tls.outgoing.length - w.tls.offset)
            if n = 0 then throw (.other "TLS socket closed")
            else
              set { w with
                tls := { w.tls with offset := w.tls.offset + n }
                accepted := w.accepted ++
                  (w.tls.outgoing.drop w.tls.offset).take n }
              flushLoop script
      else clear

def flush (chunks : List Bytes) (script : List WriteOutcome) :
    EStateM IoError Wire Unit := do
  drain chunks
  flushLoop script

/-- `Write::write`.  The engine takes `taken` bytes of the buffer, or fails when
there are none. -/
def write (buffer : Bytes) (taken : ℕ) (chunks more : List Bytes)
    (script : List WriteOutcome) : EStateM IoError Wire ℕ := do
  if buffer = [] then return 0
  else
    ensure (0 < taken) (.other "TLS write failed")
    drain chunks
    match ← attempt (flush more script) with
    | .error .wouldBlock => return taken
    | .error e => throw e
    | .ok () => return taken

/-! ## What is kept -/

/-- What came from the engine is with the socket or still waits for it. -/
structure Conserved (w : Wire) : Prop where
  bytes : w.accepted ++ w.tls.outgoing.drop w.tls.offset = w.drained
  offset : w.tls.offset ≤ w.tls.outgoing.length

theorem fresh_conserved : fresh.Conserved := ⟨rfl, le_rfl⟩

theorem drainChunks_conserved (chunks : List Bytes) :
    Preserves Conserved (drainChunks chunks) := by
  induction chunks with
  | nil => exact .pure _
  | cons chunk rest ih =>
      refine .ite (.pure _) (.bind (.modify fun w h => ⟨?_, ?_⟩) fun _ =>
        .get_bind fun _ _ => .bind (.ensure _ _) fun _ => ih)
      · show w.accepted ++ (w.tls.outgoing ++ _).drop w.tls.offset = w.drained ++ _
        rw [List.drop_append_of_le_length h.offset, ← List.append_assoc, h.bytes]
      · exact h.offset.trans (by simp)

/-- The consumed prefix is dropped, and the rest keeps its place. -/
theorem drain_conserved (chunks : List Bytes) : Preserves Conserved (drain chunks) := by
  refine .get_bind fun _ _ => .ite (.bind (.modify fun w h => ?_) fun _ =>
    drainChunks_conserved chunks) (drainChunks_conserved chunks)
  exact ⟨h.bytes, Nat.zero_le _⟩

theorem flushLoop_conserved (script : List WriteOutcome) :
    Preserves Conserved (flushLoop script) := by
  have hclear : ∀ w : Wire, w.Conserved → ¬w.tls.offset < w.tls.outgoing.length →
      Conserved { w with tls := ⟨[], 0⟩ } := by
    intro w h hend
    have hbytes := h.bytes
    rw [List.drop_eq_nil_of_le (not_lt.mp hend)] at hbytes
    exact ⟨hbytes, le_rfl⟩
  induction script with
  | nil =>
      intro w h
      simp only [flushLoop, clear, wp_bind, wp_get, wp_ite, wp_throw, wp_modify]
      exact ⟨fun _ => h, hclear w h⟩
  | cons outcome script ih =>
      intro w h
      simp only [flushLoop, clear, wp_bind, wp_get, wp_ite, wp_modify]
      refine ⟨fun hlt => ?_, hclear w h⟩
      cases outcome with
      | wouldBlock => exact h
      | failed => exact h
      | wrote n =>
          simp only [wp_ite, wp_throw, wp_bind, wp_set]
          refine ⟨fun _ => h, fun _ => ih _ ⟨?_, ?_⟩⟩
          · have hbytes := h.bytes
            rw [← List.take_append_drop (min n (w.tls.outgoing.length - w.tls.offset))
              (w.tls.outgoing.drop w.tls.offset), List.drop_drop, ← List.append_assoc] at hbytes
            exact hbytes
          · show w.tls.offset + min n _ ≤ w.tls.outgoing.length
            omega

theorem flush_conserved (chunks : List Bytes) (script : List WriteOutcome) :
    Preserves Conserved (flush chunks script) :=
  .bind (drain_conserved chunks) fun _ => flushLoop_conserved script

theorem write_conserved (buffer : Bytes) (taken : ℕ) (chunks more : List Bytes)
    (script : List WriteOutcome) :
    Preserves Conserved (write buffer taken chunks more script) := by
  refine .ite (.pure _) (.bind (.ensure _ _) fun _ => .bind (drain_conserved _) fun _ =>
    .bind (.attempt (flush_conserved _ _)) fun result => ?_)
  split
  · exact .pure _
  · exact .throw _
  · exact .pure _

/-! ## The limit -/

/-- The queue, with the prefix that is written already, is within the limit. -/
def Within (w : Wire) : Prop := w.tls.outgoing.length ≤ tlsOutputLimit

/-- A method that keeps the limit unless it fails because of it. -/
def Limits {α : Type} (method : EStateM IoError Wire α) : Prop :=
  ∀ w, w.Within → wp method (fun _ => Within) (fun e w' => e = queueLimit ∨ w'.Within) w

theorem drainChunks_limits (chunks : List Bytes) {w : Wire} (hoffset : w.tls.offset = 0)
    (h : w.Within) : wp (drainChunks chunks) (fun _ => Within)
      (fun e w' => e = queueLimit ∨ w'.Within) w := by
  induction chunks generalizing w with
  | nil => exact h
  | cons chunk rest ih =>
      simp only [drainChunks, wp_ite, wp_pure, wp_bind, wp_modify, wp_get, wp_ensure]
      refine ⟨fun _ => h, fun _ => ⟨fun hqueued => ih hoffset ?_, fun _ => .inl trivial⟩⟩
      rw [Tls.queued, hoffset] at hqueued
      exact hqueued

theorem drain_limits (chunks : List Bytes) : Limits (drain chunks) := by
  intro w h
  simp only [drain, wp_bind, wp_get, wp_ite, wp_modify]
  refine ⟨fun _ => drainChunks_limits chunks rfl ?_, fun hoffset =>
    drainChunks_limits chunks (Nat.eq_zero_of_not_pos hoffset) h⟩
  show (w.tls.outgoing.drop w.tls.offset).length ≤ tlsOutputLimit
  rw [List.length_drop]
  exact (Nat.sub_le _ _).trans h

theorem flushLoop_limits (script : List WriteOutcome) : Limits (flushLoop script) := by
  induction script with
  | nil =>
      intro w h
      simp only [flushLoop, clear, wp_bind, wp_get, wp_ite, wp_throw, wp_modify]
      exact ⟨fun _ => .inr h, fun _ => Nat.zero_le _⟩
  | cons outcome script ih =>
      intro w h
      simp only [flushLoop, clear, wp_bind, wp_get, wp_ite, wp_modify]
      refine ⟨fun _ => ?_, fun _ => Nat.zero_le _⟩
      cases outcome with
      | wouldBlock => exact .inr h
      | failed => exact .inr h
      | wrote n =>
          simp only [wp_ite, wp_throw, wp_bind, wp_set]
          exact ⟨fun _ => .inr h, fun _ => ih _ h⟩

theorem flush_limits (chunks : List Bytes) (script : List WriteOutcome) :
    Limits (flush chunks script) := by
  intro w h
  simp only [flush, wp_bind]
  exact wp_mono (drain_limits chunks w h) (fun _ w' h' => flushLoop_limits script w' h')
    fun _ _ h' => h'

/-- Only the failure of a blocked socket is not passed on. -/
theorem write_limits (buffer : Bytes) (taken : ℕ) (chunks more : List Bytes)
    (script : List WriteOutcome) : Limits (write buffer taken chunks more script) := by
  intro w h
  simp only [write, wp_ite, wp_pure, wp_bind, wp_ensure]
  refine ⟨fun _ => h, fun _ => ⟨fun _ => ?_, fun _ => .inr h⟩⟩
  refine wp_mono (drain_limits chunks w h) (fun _ w₁ h₁ => ?_) fun _ _ h' => h'
  simp only [wp_bind, wp_attempt]
  refine wp_mono (flush_limits more script w₁ h₁) (fun _ _ h₂ => h₂) fun e w₂ h₂ => ?_
  cases e with
  | wouldBlock =>
      rcases h₂ with hlimit | h₂
      · cases hlimit
      · exact h₂
  | other message => exact h₂

/-! ## Sequences of calls -/

/-- A call and what the engine and the socket answer during it. -/
inductive Call where
  | drain (chunks : List Bytes)
  | flush (chunks : List Bytes) (script : List WriteOutcome)
  | write (buffer : Bytes) (taken : ℕ) (chunks more : List Bytes)
      (script : List WriteOutcome)
  deriving DecidableEq, Repr

def perform : Call → EStateM IoError Wire Unit
  | .drain chunks => drain chunks
  | .flush chunks script => flush chunks script
  | .write buffer taken chunks more script => do
      let _ ← write buffer taken chunks more script

/-- The calls one after the other, with the failures among them. -/
def run (w : Wire) : List Call → Wire × List IoError
  | [] => (w, [])
  | call :: rest =>
      match perform call w with
      | .ok _ w' => run w' rest
      | .error e w' => ((run w' rest).1, e :: (run w' rest).2)

theorem perform_conserved (call : Call) : Preserves Conserved (perform call) := by
  cases call with
  | drain chunks => exact drain_conserved chunks
  | flush chunks script => exact flush_conserved chunks script
  | write => exact .bind (write_conserved _ _ _ _ _) fun _ => .pure _

theorem perform_limits (call : Call) : Limits (perform call) := by
  cases call with
  | drain chunks => exact drain_limits chunks
  | flush chunks script => exact flush_limits chunks script
  | write =>
      intro w h
      simp only [perform, wp_bind]
      exact write_limits _ _ _ _ _ w h

theorem run_conserved (calls : List Call) {w : Wire} (h : w.Conserved) :
    (run w calls).1.Conserved := by
  induction calls generalizing w with
  | nil => exact h
  | cons call rest ih =>
      have hcall := (perform_conserved call).final h
      unfold run
      cases hrun : perform call w with
      | ok value w' =>
          rw [hrun] at hcall
          exact ih hcall
      | error e w' =>
          rw [hrun] at hcall
          exact ih hcall

theorem run_within (calls : List Call) {w : Wire} (h : w.Within)
    (hlimit : queueLimit ∉ (run w calls).2) : (run w calls).1.Within := by
  induction calls generalizing w with
  | nil => exact h
  | cons call rest ih =>
      have hcall := perform_limits call w h
      unfold run at hlimit ⊢
      cases hrun : perform call w with
      | ok value w' =>
          rw [hrun] at hlimit
          have hkept := wp_of_ok hcall hrun
          exact ih hkept hlimit
      | error e w' =>
          rw [hrun] at hlimit
          have hother : queueLimit ≠ e := List.ne_of_not_mem_cons hlimit
          have hlimit := List.not_mem_of_not_mem_cons hlimit
          have hkept := wp_of_error hcall hrun
          exact ih (hkept.resolve_left hother.symm) hlimit

/-- After any calls the ciphertext is with the socket or waits for it in its
order, and the queue is within its limit as long as no call has failed because
of the limit. -/
theorem output_conserved (calls : List Call) :
    (run fresh calls).1.accepted ++
        (run fresh calls).1.tls.outgoing.drop (run fresh calls).1.tls.offset =
      (run fresh calls).1.drained ∧
    (run fresh calls).1.tls.offset ≤ (run fresh calls).1.tls.outgoing.length ∧
    (queueLimit ∉ (run fresh calls).2 →
      (run fresh calls).1.tls.outgoing.length ≤ 8 * 1024 * 1024) := by
  have hconserved := run_conserved calls fresh_conserved
  exact ⟨hconserved.bytes, hconserved.offset, run_within calls (Nat.zero_le _)⟩

/-- A write of which the socket takes a part, and a flush that is blocked. -/
def partialCalls : List Call :=
  [.write [1, 2] 2 [[10, 11, 12]] [[13]] [.wrote 3, .wouldBlock], .flush [[14]] [.wouldBlock]]

theorem output_conserved_partial :
    (run fresh partialCalls).2 = [.wouldBlock] ∧
      (run fresh partialCalls).1.accepted = [10, 11, 12] ∧
      (run fresh partialCalls).1.tls.outgoing = [13, 14] ∧
      (run fresh partialCalls).1.tls.outgoing.length ≤ 8 * 1024 * 1024 := by
  refine ⟨by decide, by decide, by decide, (output_conserved partialCalls).2.2 ?_⟩
  decide

end Wire

end Altdb
