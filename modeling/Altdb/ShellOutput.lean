import Altdb.ShellFrames

/-!
# Output of a shell service

Two threads copy the output of the process, and the main thread sends the exit
code when both have returned.  A frame goes to the socket in several writes,
between which the other threads take their steps; the lock keeps them from
writing into it.
-/

namespace Altdb

namespace Shell

inductive Thread where
  | stdout
  | stderr
  | main
  deriving DecidableEq, Repr

/-- The channel of a thread's frames. -/
def Thread.channel : Thread → UInt8
  | .stdout => 1
  | .stderr => 2
  | .main => 3

/-- Where a thread stands. -/
inductive Phase where
  | running
  /-- In `writer.lock()`, with the data of a frame. -/
  | locking (data : Bytes)
  /-- In `shell_frame`, with the calls of `write_all` that are left. -/
  | writing (data : Bytes) (parts : List Bytes)
  | returned
  deriving DecidableEq, Repr

/-- The data of the frame that is not yet sent. -/
def Phase.data : Phase → Option Bytes
  | .locking data => some data
  | .writing data _ => some data
  | _ => none

/-- What the operating system says about a process that ended. -/
structure ExitStatus where
  code : Option Int32
  signal : Option Int32

/-- `code` of `shell`. -/
def ExitStatus.byte (status : ExitStatus) : UInt8 :=
  (status.code.getD (128 + status.signal.getD 1)).toUInt32.toUInt8

/-- A shell service without a terminal, after its process was spawned. -/
structure Service where
  phase : Thread → Phase
  /-- What is still to come out of the pipes of the process. -/
  unread : Thread → Bytes
  /-- The readers that are still to be joined. -/
  joining : List Thread
  lock : Option Thread
  /-- The bytes sent to the socket. -/
  sent : Bytes

/-- The pipes of a process that writes `stdout` and `stderr`. -/
def pipes (stdout stderr : Bytes) : Thread → Bytes
  | .stdout => stdout
  | .stderr => stderr
  | .main => []

def spawned (stdout stderr : Bytes) : Service where
  phase := fun _ => .running
  unread := pipes stdout stderr
  joining := [.stdout, .stderr]
  lock := none
  sent := []

namespace Service

def setPhase (s : Service) (t : Thread) (phase : Phase) : Service :=
  { s with phase := Function.update s.phase t phase }

/-- One step of one of the threads. -/
inductive Step (status : ExitStatus) (s : Service) : Service → Prop where
  /-- `read` returns a chunk. -/
  | read (t : Thread) (chunk rest : Bytes) (ht : t ≠ .main) (hphase : s.phase t = .running)
      (hchunk : chunk ≠ []) (hlength : chunk.length ≤ chunkSize)
      (hunread : s.unread t = chunk ++ rest) :
      Step status s
        { s.setPhase t (.locking chunk) with unread := Function.update s.unread t rest }
  /-- `read` returns nothing. -/
  | eof (t : Thread) (ht : t ≠ .main) (hphase : s.phase t = .running)
      (hunread : s.unread t = []) : Step status s (s.setPhase t .returned)
  /-- `reader.join()`. -/
  | join (t : Thread) (rest : List Thread) (hphase : s.phase .main = .running)
      (hjoining : s.joining = t :: rest) (hreturned : s.phase t = .returned) :
      Step status s { s with joining := rest }
  /-- All readers are joined, and the exit frame is next. -/
  | exit (hphase : s.phase .main = .running) (hjoining : s.joining = []) :
      Step status s (s.setPhase .main (.locking [status.byte]))
  | lock (t : Thread) (data : Bytes) (hphase : s.phase t = .locking data)
      (hlock : s.lock = none) :
      Step status s
        { s.setPhase t (.writing data (shellFrame t.channel data)) with lock := some t }
  /-- The socket takes some bytes of a `write_all`. -/
  | write (t : Thread) (data piece rest : Bytes) (parts : List Bytes) (hpiece : piece ≠ [])
      (hphase : s.phase t = .writing data ((piece ++ rest) :: parts)) :
      Step status s
        { s.setPhase t (.writing data (rest :: parts)) with sent := s.sent ++ piece }
  /-- A `write_all` returns. -/
  | written (t : Thread) (data : Bytes) (parts : List Bytes)
      (hphase : s.phase t = .writing data ([] :: parts)) :
      Step status s (s.setPhase t (.writing data parts))
  /-- The guard of the lock is dropped. -/
  | unlock (t : Thread) (data : Bytes) (hphase : s.phase t = .writing data []) :
      Step status s
        { s.setPhase t (if t = .main then .returned else .running) with lock := none }

/-- Runs of a service, in any order of the steps of its threads. -/
inductive Run (status : ExitStatus) (stdout stderr : Bytes) : Service → Prop where
  | spawned : Run status stdout stderr (spawned stdout stderr)
  | step {s s' : Service} (h : Run status stdout stderr s) (hstep : Step status s s') :
      Run status stdout stderr s'

/-! ## The lock -/

variable {status : ExitStatus} {stdout stderr : Bytes} {s s' : Service} {t : Thread}
  {sent : List (UInt8 × Bytes)} {phase : Phase}

/-- The phase is not inside the lock. -/
def Outside (phase : Phase) : Prop := ∀ data parts, phase ≠ .writing data parts

/-- The socket has the frames that were sent, and the part of another one while
its thread holds the lock. -/
inductive Whole (s : Service) (sent : List (UInt8 × Bytes)) : Prop where
  | free (hlock : s.lock = none) (hsent : s.sent = sent.flatMap frameBytes)
      (hout : ∀ t, Outside (s.phase t))
  | held (t : Thread) (data : Bytes) (parts : List Bytes) (hlock : s.lock = some t)
      (hphase : s.phase t = .writing data parts)
      (hsent : s.sent ++ parts.flatten =
        sent.flatMap frameBytes ++ frameBytes (t.channel, data))
      (hout : ∀ u, u ≠ t → Outside (s.phase u))

/-- Of the phases, one is new. -/
theorem forall_update {motive : Thread → Phase → Prop} (hnew : motive t phase)
    (hold : ∀ u, u ≠ t → motive u (s.phase u)) (u : Thread) :
    motive u (Function.update s.phase t phase u) := by
  by_cases hu : u = t
  · subst hu
    rw [Function.update_self]
    exact hnew
  · rw [Function.update_of_ne hu]
    exact hold u hu

/-- A step outside the lock. -/
theorem Whole.outside (h : Whole s sent) (hold : Outside (s.phase t)) (hnew : Outside phase)
    (hphase : s'.phase = Function.update s.phase t phase) (hlock : s'.lock = s.lock)
    (hsent : s'.sent = s.sent) : Whole s' sent := by
  cases h with
  | free hfree hbytes hout =>
      refine .free (hlock.trans hfree) (hsent.trans hbytes) ?_
      rw [hphase]
      exact forall_update hnew fun u _ => hout u
  | held holder data parts hheld hwriting hbytes hout =>
      have hne : holder ≠ t := by
        rintro rfl
        exact hold data parts hwriting
      refine .held holder data parts (hlock.trans hheld) ?_ (hsent ▸ hbytes) ?_
      · rw [hphase, Function.update_of_ne hne]
        exact hwriting
      · rw [hphase]
        intro u
        exact forall_update (motive := fun u phase => u ≠ holder → Outside phase)
          (fun _ => hnew) (fun u _ => hout u) u

/-- The thread that writes holds the lock. -/
theorem Whole.writing {data : Bytes} {parts : List Bytes} (h : Whole s sent)
    (hphase : s.phase t = .writing data parts) :
    s.lock = some t ∧ (∀ u, u ≠ t → Outside (s.phase u)) ∧
      s.sent ++ parts.flatten = sent.flatMap frameBytes ++ frameBytes (t.channel, data) := by
  cases h with
  | free hlock hsent hout => exact absurd hphase (hout t data parts)
  | held holder data' parts' hlock hholder hsent hout =>
      by_cases hne : t = holder
      · subst hne
        obtain ⟨rfl, rfl⟩ := Phase.writing.inj (hholder.symm.trans hphase)
        exact ⟨hlock, hout, hsent⟩
      · exact absurd hphase (hout t hne data parts)

/-! ## The threads -/

/-- The payloads on a channel. -/
def payload (channel : UInt8) (sent : List (UInt8 × Bytes)) : Bytes :=
  (sent.filter fun f => f.1 == channel).flatMap Prod.snd

/-- No exit frame. -/
def NoExit (sent : List (UInt8 × Bytes)) : Prop := ∀ f ∈ sent, f.1 ≠ 3

/-- A reader has sent what came out of its pipe, but for what it holds and what
is still to come. -/
structure Copies (source : Bytes) (joining : List Thread) (sent : List (UInt8 × Bytes))
    (t : Thread) (phase : Phase) (unread : Bytes) : Prop where
  bytes : payload t.channel sent ++ phase.data.getD [] ++ unread = source
  eof : phase = .returned → unread = []
  joined : t ∉ joining → phase = .returned

/-- The main thread sends the exit code when the readers are joined, and then no
frame is sent. -/
structure Exits (status : ExitStatus) (joining : List Thread) (sent : List (UInt8 × Bytes))
    (phase : Phase) : Prop where
  joined : phase ≠ .running → joining = []
  code : ∀ data ∈ phase.data, data = [status.byte]
  before : phase ≠ .returned → NoExit sent
  after : phase = .returned → ∃ front, sent = front ++ [(3, [status.byte])] ∧ NoExit front

structure Accounts (status : ExitStatus) (stdout stderr : Bytes) (s : Service)
    (sent : List (UInt8 × Bytes)) : Prop where
  copies : ∀ t, t ≠ .main →
    Copies (pipes stdout stderr t) s.joining sent t (s.phase t) (s.unread t)
  exits : Exits status s.joining sent (s.phase .main)
  size : ∀ t, ∀ data ∈ (s.phase t).data, data.length ≤ chunkSize
  sizes : ∀ f ∈ sent, f.2.length ≤ chunkSize

theorem payload_append (channel : UInt8) (sent later : List (UInt8 × Bytes)) :
    payload channel (sent ++ later) = payload channel sent ++ payload channel later := by
  rw [payload, List.filter_append, List.flatMap_append]
  rfl

theorem payload_self (channel : UInt8) (data : Bytes) :
    payload channel [(channel, data)] = data := by
  simp [payload]

theorem payload_other {channel other : UInt8} (h : other ≠ channel) (data : Bytes) :
    payload channel [(other, data)] = [] := by
  simp [payload, h]

theorem channel_ne {t u : Thread} (h : t ≠ u) : t.channel ≠ u.channel := by
  cases t <;> cases u <;> first | exact absurd rfl h | decide

theorem accounts_spawned (status : ExitStatus) (stdout stderr : Bytes) :
    Accounts status stdout stderr (spawned stdout stderr) [] where
  copies := by
    intro t hmain
    refine ⟨rfl, fun h => (by cases h), fun hjoining => ?_⟩
    cases t with
    | stdout => exact absurd List.mem_cons_self hjoining
    | stderr => exact absurd (List.mem_cons_of_mem _ List.mem_cons_self) hjoining
    | main => exact absurd rfl hmain
  exits := ⟨fun h => absurd rfl h, fun data h => (by cases h), fun _ f h => (by cases h),
    fun h => (by cases h)⟩
  size := fun t data h => by cases h
  sizes := fun f h => by cases h

variable {data unread : Bytes}

theorem Accounts.size_update (h : Accounts status stdout stderr s sent)
    (hphase : s'.phase = Function.update s.phase t phase)
    (hsize : ∀ data ∈ phase.data, data.length ≤ chunkSize) :
    ∀ u, ∀ data ∈ (s'.phase u).data, data.length ≤ chunkSize := by
  rw [hphase]
  exact forall_update (motive := fun _ phase => ∀ data ∈ phase.data, data.length ≤ chunkSize)
    hsize fun u _ => h.size u

/-- A step of a reader that sends no frame. -/
theorem Accounts.copier (h : Accounts status stdout stderr s sent) (ht : t ≠ .main)
    (hcopies : Copies (pipes stdout stderr t) s.joining sent t phase unread)
    (hsize : ∀ data ∈ phase.data, data.length ≤ chunkSize)
    (hphase : s'.phase = Function.update s.phase t phase)
    (hunread : s'.unread = Function.update s.unread t unread) (hjoining : s'.joining = s.joining) :
    Accounts status stdout stderr s' sent := by
  refine ⟨?_, ?_, h.size_update hphase hsize, h.sizes⟩
  · intro u hu
    rw [hphase, hunread, hjoining]
    by_cases hut : u = t
    · subst hut
      rw [Function.update_self, Function.update_self]
      exact hcopies
    · rw [Function.update_of_ne hut, Function.update_of_ne hut]
      exact h.copies u hu
  · rw [hphase, hjoining, Function.update_of_ne ht.symm]
    exact h.exits

/-- A step of the main thread that sends no frame and joins no reader. -/
theorem Accounts.exit (h : Accounts status stdout stderr s sent)
    (hexits : Exits status s.joining sent phase)
    (hsize : ∀ data ∈ phase.data, data.length ≤ chunkSize)
    (hphase : s'.phase = Function.update s.phase .main phase) (hunread : s'.unread = s.unread)
    (hjoining : s'.joining = s.joining) : Accounts status stdout stderr s' sent := by
  refine ⟨?_, ?_, h.size_update hphase hsize, h.sizes⟩
  · intro u hu
    rw [hphase, hunread, hjoining, Function.update_of_ne hu]
    exact h.copies u hu
  · rw [hphase, hjoining, Function.update_self]
    exact hexits

/-- A step with the data of a frame that is kept. -/
theorem Accounts.inside (h : Accounts status stdout stderr s sent)
    (hold : (s.phase t).data = some data) (hnew : phase.data = some data)
    (hphase : s'.phase = Function.update s.phase t phase) (hunread : s'.unread = s.unread)
    (hjoining : s'.joining = s.joining) : Accounts status stdout stderr s' sent := by
  have hsame : phase.data = (s.phase t).data := hnew.trans hold.symm
  have hsize : ∀ data ∈ phase.data, data.length ≤ chunkSize := hsame ▸ h.size t
  have hreturned : ∀ p : Phase, p.data = some data → p ≠ .returned ∧ p ≠ .running := by
    rintro p hp
    constructor
    · rintro rfl
      cases hp
    · rintro rfl
      cases hp
  by_cases ht : t = .main
  · subst ht
    have hexits := h.exits
    refine h.exit ⟨?_, ?_, ?_, ?_⟩ hsize hphase hunread hjoining
    · exact fun _ => hexits.joined (hreturned _ hold).2
    · exact hsame ▸ hexits.code
    · exact fun _ => hexits.before (hreturned _ hold).1
    · exact fun hret => absurd hret (hreturned _ hnew).1
  · have hcopies := h.copies t ht
    have hcopies' : Copies (pipes stdout stderr t) s.joining sent t phase (s.unread t) := by
      refine ⟨?_, ?_, ?_⟩
      · rw [hsame]
        exact hcopies.bytes
      · exact fun hret => absurd hret (hreturned _ hnew).1
      · exact fun hnot => absurd (hcopies.joined hnot) (hreturned _ hold).1
    refine h.copier ht hcopies' hsize hphase ?_ hjoining
    rw [Function.update_eq_self]
    exact hunread

theorem Accounts.join {rest : List Thread} (h : Accounts status stdout stderr s sent)
    (hphase : s.phase .main = .running) (hjoining : s.joining = t :: rest)
    (hreturned : s.phase t = .returned) :
    Accounts status stdout stderr { s with joining := rest } sent := by
  have hexits := h.exits
  refine ⟨?_, ⟨fun hrun => absurd hphase hrun, hexits.code, hexits.before, hexits.after⟩, h.size,
    h.sizes⟩
  intro u hu
  have hcopies := h.copies u hu
  refine ⟨hcopies.bytes, hcopies.eof, fun hnot => ?_⟩
  by_cases hut : u = t
  · exact hut ▸ hreturned
  · apply hcopies.joined
    rw [hjoining, List.mem_cons, not_or]
    exact ⟨hut, hnot⟩

/-- The frame of a reader is sent. -/
theorem Accounts.copied (h : Accounts status stdout stderr s sent) (ht : t ≠ .main)
    (hold : (s.phase t).data = some data) (hphase : s'.phase = Function.update s.phase t .running)
    (hunread : s'.unread = s.unread) (hjoining : s'.joining = s.joining) :
    Accounts status stdout stderr s' (sent ++ [(t.channel, data)]) := by
  have hmain : s.phase .main = .running := by
    by_contra hrun
    have hret := (h.copies t ht).joined (h.exits.joined hrun ▸ List.not_mem_nil)
    rw [hret] at hold
    cases hold
  have hmain' : s'.phase .main = .running := by
    rw [hphase, Function.update_of_ne ht.symm]
    exact hmain
  refine ⟨?_, ?_, h.size_update hphase fun data h => (by cases h), ?_⟩
  · intro u hu
    have hcopies := h.copies u hu
    rw [hphase, hunread, hjoining]
    by_cases hut : u = t
    · subst hut
      rw [Function.update_self]
      refine ⟨?_, fun hret => (by cases hret), fun hnot => ?_⟩
      · have hbytes := hcopies.bytes
        rw [hold] at hbytes
        rw [payload_append, payload_self]
        simpa [Phase.data] using hbytes
      · have hret := hcopies.joined hnot
        rw [hret] at hold
        cases hold
    · rw [Function.update_of_ne hut]
      refine ⟨?_, hcopies.eof, hcopies.joined⟩
      rw [payload_append, payload_other (channel_ne (Ne.symm hut)), List.append_nil]
      exact hcopies.bytes
  · rw [hmain']
    refine ⟨fun hrun => absurd rfl hrun, fun data h => (by cases h), fun _ => ?_,
      fun hret => (by cases hret)⟩
    have hnone : NoExit sent := h.exits.before (by rw [hmain]; exact fun h => by cases h)
    refine List.forall_mem_append.mpr ⟨hnone, List.forall_mem_singleton.mpr ?_⟩
    exact channel_ne ht
  · exact List.forall_mem_append.mpr ⟨h.sizes, List.forall_mem_singleton.mpr (h.size t data hold)⟩

/-- The exit frame is sent. -/
theorem Accounts.exited (h : Accounts status stdout stderr s sent)
    (hold : (s.phase .main).data = some data)
    (hphase : s'.phase = Function.update s.phase .main .returned) (hunread : s'.unread = s.unread)
    (hjoining : s'.joining = s.joining) :
    Accounts status stdout stderr s' (sent ++ [(Thread.main.channel, data)]) := by
  have hnot : s.phase .main ≠ .returned ∧ s.phase .main ≠ .running := by
    constructor
    · intro hp
      rw [hp] at hold
      cases hold
    · intro hp
      rw [hp] at hold
      cases hold
  obtain rfl := h.exits.code data hold
  refine ⟨?_, ?_, h.size_update hphase fun data h => (by cases h), ?_⟩
  · intro u hu
    have hcopies := h.copies u hu
    rw [hphase, hunread, hjoining, Function.update_of_ne hu]
    refine ⟨?_, hcopies.eof, hcopies.joined⟩
    rw [payload_append, payload_other (channel_ne (Ne.symm hu)), List.append_nil]
    exact hcopies.bytes
  · rw [hphase, hjoining, Function.update_self]
    exact ⟨fun _ => h.exits.joined hnot.2, fun data h => (by cases h), fun hret => absurd rfl hret,
      fun _ => ⟨sent, rfl, h.exits.before hnot.1⟩⟩
  · exact List.forall_mem_append.mpr
      ⟨h.sizes, List.forall_mem_singleton.mpr (h.size .main _ hold)⟩

/-! ## Runs -/

/-- Some frames were sent, whole and as the threads had them. -/
def Sound (status : ExitStatus) (stdout stderr : Bytes) (s : Service) : Prop :=
  ∃ sent, Whole s sent ∧ Accounts status stdout stderr s sent

theorem Sound.step (h : Sound status stdout stderr s) (hstep : Step status s s') :
    Sound status stdout stderr s' := by
  obtain ⟨sent, hwhole, haccounts⟩ := h
  have hdata : ∀ p : Phase, p.data = none → Outside p := by
    rintro p hp data parts rfl
    cases hp
  cases hstep with
  | read t chunk rest ht hphase hchunk hlength hunread =>
      have hcopies := haccounts.copies t ht
      refine ⟨sent, hwhole.outside (hdata _ (by rw [hphase]; rfl)) ?_ rfl rfl rfl,
        haccounts.copier ht ⟨?_, ?_, ?_⟩ ?_ rfl rfl rfl⟩
      · exact fun data parts h => by cases h
      · have hbytes := hcopies.bytes
        rw [hphase, hunread] at hbytes
        simpa [Phase.data] using hbytes
      · exact fun h => by cases h
      · intro hnot
        exact absurd (hcopies.joined hnot) (by rw [hphase]; exact fun h => by cases h)
      · intro data h
        obtain rfl := Option.some.inj h
        exact hlength
  | eof t ht hphase hunread =>
      have hcopies := haccounts.copies t ht
      have hcopies' : Copies (pipes stdout stderr t) s.joining sent t .returned (s.unread t) := by
        have hbytes := hcopies.bytes
        rw [hphase] at hbytes
        exact ⟨hbytes, fun _ => hunread, fun _ => rfl⟩
      refine ⟨sent, hwhole.outside (hdata _ (by rw [hphase]; rfl)) (hdata _ rfl) rfl rfl rfl, ?_⟩
      exact haccounts.copier ht hcopies' (fun data h => by cases h) rfl
        (Function.update_eq_self _ _).symm rfl
  | join t rest hphase hjoining hreturned =>
      refine ⟨sent, ?_, haccounts.join hphase hjoining hreturned⟩
      have hquiet := hdata (s.phase t) (by rw [hreturned]; rfl)
      exact hwhole.outside hquiet hquiet (Function.update_eq_self _ _).symm rfl rfl
  | exit hphase hjoining =>
      refine ⟨sent, hwhole.outside (hdata _ (by rw [hphase]; rfl)) ?_ rfl rfl rfl,
        haccounts.exit ⟨fun _ => hjoining, ?_, fun _ => ?_, ?_⟩ ?_ rfl rfl rfl⟩
      · exact fun data parts h => by cases h
      · exact fun data h => (Option.some.inj h).symm
      · exact haccounts.exits.before (by rw [hphase]; exact fun h => by cases h)
      · exact fun h => by cases h
      · intro data h
        obtain rfl := Option.some.inj h
        change 1 ≤ chunkSize
        decide
  | lock t data hphase hlock =>
      refine ⟨sent, ?_, haccounts.inside (by rw [hphase]; rfl) rfl rfl rfl rfl⟩
      cases hwhole with
      | held holder _ _ hheld => exact absurd (hlock.symm.trans hheld) (fun h => by cases h)
      | free _ hsent hout =>
          refine .held t data (shellFrame t.channel data) rfl (Function.update_self _ _ _) ?_ ?_
          · exact congrArg (· ++ _) hsent
          · intro u hu
            change Outside (Function.update s.phase t _ u)
            rw [Function.update_of_ne hu]
            exact hout u
  | write t data piece rest parts hpiece hphase =>
      refine ⟨sent, ?_, haccounts.inside (by rw [hphase]; rfl) rfl rfl rfl rfl⟩
      obtain ⟨hlock, hout, hsent⟩ := hwhole.writing hphase
      refine .held t data (rest :: parts) hlock (Function.update_self _ _ _) ?_ ?_
      · rw [← hsent]
        simp
      · intro u hu
        change Outside (Function.update s.phase t _ u)
        rw [Function.update_of_ne hu]
        exact hout u hu
  | written t data parts hphase =>
      refine ⟨sent, ?_, haccounts.inside (by rw [hphase]; rfl) rfl rfl rfl rfl⟩
      obtain ⟨hlock, hout, hsent⟩ := hwhole.writing hphase
      refine .held t data parts hlock (Function.update_self _ _ _) hsent ?_
      intro u hu
      change Outside (Function.update s.phase t _ u)
      rw [Function.update_of_ne hu]
      exact hout u hu
  | unlock t data hphase =>
      obtain ⟨hlock, hout, hsent⟩ := hwhole.writing hphase
      have hold : (s.phase t).data = some data := by rw [hphase]; rfl
      refine ⟨sent ++ [(t.channel, data)], .free rfl ?_ ?_, ?_⟩
      · rw [List.flatMap_append, List.flatMap_singleton, ← hsent]
        exact (List.append_nil _).symm
      · intro u
        refine forall_update (motive := fun _ phase => Outside phase) ?_ hout u
        split <;> exact hdata _ rfl
      · by_cases ht : t = .main
        · subst ht
          exact haccounts.exited hold rfl rfl rfl
        · refine haccounts.copied ht hold ?_ rfl rfl
          change Function.update s.phase t (if t = .main then _ else _) = _
          rw [if_neg ht]

theorem Run.sound (h : Run status stdout stderr s) : Sound status stdout stderr s := by
  induction h with
  | spawned =>
      refine ⟨[], .free rfl rfl fun t data parts h => ?_, accounts_spawned status stdout stderr⟩
      cases h
  | step _ hstep ih => exact ih.step hstep

/-- When the main thread is done, the socket has whole frames: those of the two
readers in some order, and the exit frame behind them. -/
theorem output_frames (h : Run status stdout stderr s) (hdone : s.phase .main = .returned) :
    ∃ front, frames.split s.sent = (front ++ [(3, [status.byte])], []) ∧
      (∀ f ∈ front, f.1 ≠ 3) ∧
      payload 1 (front ++ [(3, [status.byte])]) = stdout ∧
      payload 2 (front ++ [(3, [status.byte])]) = stderr := by
  obtain ⟨sent, hwhole, haccounts⟩ := h.sound
  obtain ⟨front, rfl, hnone⟩ := haccounts.exits.after hdone
  have hjoining := haccounts.exits.joined (by rw [hdone]; exact fun h => by cases h)
  have hreturned : ∀ t, s.phase t = .returned := by
    intro t
    by_cases ht : t = .main
    · exact ht ▸ hdone
    · exact (haccounts.copies t ht).joined (hjoining ▸ List.not_mem_nil)
  have hcopied : ∀ t, t ≠ .main →
      payload t.channel (front ++ [(3, [status.byte])]) = pipes stdout stderr t := by
    intro t ht
    have hcopies := haccounts.copies t ht
    have hbytes := hcopies.bytes
    rw [hreturned t, hcopies.eof (hreturned t)] at hbytes
    simpa [Phase.data] using hbytes
  have hsent : s.sent = (front ++ [(3, [status.byte])]).flatMap frameBytes := by
    cases hwhole with
    | free _ hsent => exact hsent
    | held t _ _ _ hphase => exact absurd ((hreturned t).symm.trans hphase) (fun h => by cases h)
  refine ⟨front, ?_, hnone, hcopied .stdout (by decide), hcopied .stderr (by decide)⟩
  rw [hsent]
  exact frames_split fun f hf => (haccounts.sizes f hf).trans (by decide)

@[simp] theorem setPhase_phase (s : Service) (t : Thread) (phase : Phase) :
    (s.setPhase t phase).phase = Function.update s.phase t phase := rfl

/-- A `write_all` can be done in one write. -/
theorem Run.writeAll {part : Bytes} {parts : List Bytes} (h : Run status stdout stderr s)
    (hphase : s.phase t = .writing data (part :: parts)) (hpart : part ≠ []) :
    Run status stdout stderr
      { s.setPhase t (.writing data parts) with sent := s.sent ++ part } := by
  have hwrite := h.step (.write t data part [] parts hpart (by rw [List.append_nil, hphase]))
  have hwritten := hwrite.step (.written t data parts (Function.update_self _ _ _))
  simpa [setPhase] using hwritten

/-- A frame can be sent without a step of another thread. -/
theorem Run.send (h : Run status stdout stderr s) (hphase : s.phase t = .locking data)
    (hdata : data ≠ []) (hlock : s.lock = none) :
    Run status stdout stderr
      { s.setPhase t (if t = .main then .returned else .running) with
        lock := none, sent := s.sent ++ frameBytes (t.channel, data) } := by
  have hlocked := h.step (.lock t data hphase hlock)
  have hchannel := hlocked.writeAll (Function.update_self _ _ _) (List.cons_ne_nil _ _)
  have hlength := hchannel.writeAll (Function.update_self _ _ _) (List.cons_ne_nil _ _)
  have hall := hlength.writeAll (Function.update_self _ _ _) hdata
  have hunlock := hall.step (.unlock t data (Function.update_self _ _ _))
  simpa [setPhase, frameBytes, shellFrame] using hunlock

/-- The reader of `stderr` reads while the other one has written the first byte of a frame. -/
theorem output_frames_interleaved :
    ∃ s front, Run ⟨some 7, none⟩ [104, 105] [33] s ∧
      frames.split s.sent = (front ++ [(3, [7])], []) ∧
      payload 1 (front ++ [(3, [7])]) = [104, 105] ∧ payload 2 (front ++ [(3, [7])]) = [33] := by
  have hspawned : Run ⟨some 7, none⟩ [104, 105] [33] (Shell.spawned [104, 105] [33]) := .spawned
  have hread := hspawned.step
    (.read .stdout [104] [105] (by decide) rfl (by decide) (by decide) rfl)
  have hlock := hread.step (.lock .stdout [104] rfl rfl)
  have hchannel := hlock.writeAll (t := .stdout) rfl (List.cons_ne_nil _ _)
  have herror := hchannel.step
    (.read .stderr [33] [] (by decide) rfl (by decide) (by decide) rfl)
  have hlength := herror.writeAll (t := .stdout) rfl (List.cons_ne_nil _ _)
  have hdata := hlength.writeAll (t := .stdout) rfl (List.cons_ne_nil _ _)
  have hunlock := hdata.step (.unlock .stdout [104] rfl)
  have hsecond := hunlock.send (show Service.phase _ .stderr = .locking [33] from rfl)
    (by decide) rfl
  have hrest := hsecond.step
    (.read .stdout [105] [] (by decide) rfl (by decide) (by decide) rfl)
  have hthird := hrest.send (show Service.phase _ .stdout = .locking [105] from rfl)
    (by decide) rfl
  have hout := hthird.step (.eof .stdout (by decide) rfl rfl)
  have herr := hout.step (.eof .stderr (by decide) rfl rfl)
  have hjoin := (herr.step (.join .stdout [.stderr] rfl rfl rfl)).step
    (.join .stderr [] rfl rfl rfl)
  have hlocking := hjoin.step (.exit rfl rfl)
  have hexit := hlocking.send (show Service.phase _ .main = .locking [7] from rfl) (by decide) rfl
  obtain ⟨front, hsplit, -, hstdout, hstderr⟩ := output_frames hexit rfl
  exact ⟨_, front, hexit, hsplit, hstdout, hstderr⟩

end Service

end Shell

end Altdb
