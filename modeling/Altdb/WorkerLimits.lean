import Altdb.WorkerThreads

/-!
# The limits of the network worker

The main loop of the worker goes through its sections in order, again and
again, while its threads run.  It reads the clock in two of them: a connection
that has not been authenticated is stopped after ten seconds and a pairing
attempt after twenty.  One pass of the loop takes at most `round`.
-/

namespace Altdb

/-- The section of the main loop that is next. -/
inductive MainTurn where
  | poll
  | sweep
  | expire
  | accept
  | timePairing
  | sweepPairing
  | acceptPairing
  deriving DecidableEq, Repr

def MainTurn.next : MainTurn → MainTurn
  | .poll => .sweep
  | .sweep => .expire
  | .expire => .accept
  | .accept => .timePairing
  | .timePairing => .sweepPairing
  | .sweepPairing => .acceptPairing
  | .acceptPairing => .poll

/-- Several connections may be accepted in one pass. -/
def MainTurn.onward (turn : MainTurn) : MainTurn := if turn = .accept then .accept else turn.next

/-- What the loop does in a section.  At `poll` it may also find its socket broken. -/
def MainTurn.Runs (old : ℕ → Bool) : MainTurn → MainPart → Prop
  | .poll, .receive | .poll, .exit => True
  | .sweep, .sweep => True
  | .expire, .expire chosen => chosen = old
  | .accept, .accept => True
  | .sweepPairing, .sweepPairing => True
  | .acceptPairing, .acceptPairing => True
  | _, _ => False

/-- The worker with a clock.  The connection of thread `i` was accepted at
`started[i]`, pairing attempt `j` at `attempts[j]`; `stopped` are the attempts
that were told to stop.  `since` is when the pass began. -/
structure WorkerRun where
  process : Process
  clock : ℕ
  since : ℕ
  turn : MainTurn
  started : List ℕ
  attempts : List ℕ
  stopped : List ℕ

namespace Process

variable {item : Option (Message × List Fd)} {part : MainPart} {p p' : Process}

/-! ## What the threads keep -/

theorem main_running (h : p.main item part = some p') : p.exited = false := by
  unfold main at h
  split at h
  · cases h
  · next hexited => simpa using hexited

/-- A section keeps the stage of every thread and every cancel flag that is set. -/
theorem MainDone.thread (h : MainDone item p p') {i : ℕ} {thread : TransportThread}
    (hi : p.threads[i]? = some thread) :
    ∃ thread', p'.threads[i]? = some thread' ∧ thread'.stage = thread.stage ∧
      (thread.cancel = true → thread'.cancel = true) := by
  have hstop : ∀ (q : Process) (stops : ℕ → Bool), q.threads = p.threads →
      ∃ thread', (q.stopWhere stops).threads[i]? = some thread' ∧
        thread'.stage = thread.stage ∧ (thread.cancel = true → thread'.cancel = true) := by
    intro q stops hq
    rw [stopWhere_threads, hq, hi, Option.map_some]
    refine ⟨_, rfl, ?_, ?_⟩
    · split <;> rfl
    · intro hcancel
      split
      · rfl
      · exact hcancel
  cases h with
  | hosts => exact hstop _ _ rfl
  | expire => exact hstop _ _ rfl
  | exit => exact hstop p (fun _ => true) rfl
  | accept =>
      obtain ⟨hlt, -⟩ := List.getElem?_eq_some_iff.mp hi
      exact ⟨thread, by rw [List.getElem?_append_left hlt, hi], rfl, id⟩
  | _ => exact ⟨thread, hi, rfl, id⟩

theorem stopWhere_length (stops : ℕ → Bool) (p : Process) :
    (p.stopWhere stops).threads.length = p.threads.length := by
  simp [stopWhere]

theorem MainDone.threads_le (h : MainDone item p p') : p.threads.length ≤ p'.threads.length := by
  cases h with
  | accept => simp
  | hosts hosts =>
      exact (stopWhere_length _ { p.advance with hosts := hosts }).ge
  | expire stops => exact (stopWhere_length stops p).ge
  | exit =>
      change _ ≤ (p.stopWhere fun _ => true).threads.length
      exact (stopWhere_length _ p).ge
  | _ => exact le_rfl

theorem MainDone.attempt (h : MainDone item p p') {j : ℕ} {thread : PairingThread}
    (hj : p.pairings[j]? = some thread) : p'.pairings[j]? = some thread := by
  cases h with
  | acceptPairing =>
      obtain ⟨hlt, -⟩ := List.getElem?_eq_some_iff.mp hj
      rw [List.getElem?_append_left hlt, hj]
  | _ => exact hj

/-- A message changes neither the table of connections nor the pairing attempts. -/
theorem receive_kept (item : Message × List Fd) (p : Process) :
    (p.receive item).connections = p.connections ∧ (p.receive item).pairings = p.pairings := by
  obtain ⟨message, fds⟩ := item
  unfold receive
  split
  · cases message with
    | pairStart =>
        simp only [handle]
        split <;> exact ⟨rfl, rfl⟩
    | _ => exact ⟨rfl, rfl⟩
  · cases message with
    | boot =>
        simp only [boot]
        split <;> exact ⟨rfl, rfl⟩
    | _ => exact ⟨rfl, rfl⟩

theorem main_limit (h : p.main item part = some p')
    (hlimit : p.connections.length ≤ maxTransports) :
    p'.connections.length ≤ maxTransports := by
  unfold main at h
  rw [if_neg (by simp [main_running h])] at h
  cases part with
  | receive =>
      obtain ⟨received, -, rfl⟩ := Option.map_eq_some_iff.mp h
      rwa [(receive_kept received p).1]
  | sweep =>
      obtain rfl := Option.some.inj h
      exact (List.length_filter_le _ _).trans hlimit
  | accept =>
      dsimp only at h
      unfold accept at h
      split at h
      · split at h
        · split at h
          · obtain rfl := Option.some.inj h
            simp
            omega
          · obtain rfl := Option.some.inj h
            exact hlimit
        · cases h
      · cases h
  | acceptPairing =>
      dsimp only at h
      unfold acceptPairing at h
      split at h
      · split at h
        · obtain rfl := Option.some.inj h
          exact hlimit
        · cases h
      · cases h
  | expire | sweepPairing | exit =>
      obtain rfl := Option.some.inj h
      exact hlimit

/-- A new pairing attempt is the active one of its window. -/
theorem main_attempt (h : p.main item part = some p') :
    p'.pairings = p.pairings ∨ part = .acceptPairing ∧ ∃ w : PairWindow,
      p'.pairings = p.pairings ++ [⟨w.epoch, .exchanging⟩] ∧
        p'.window = some { w with active := some p.pairings.length } := by
  unfold main at h
  rw [if_neg (by simp [main_running h])] at h
  cases part with
  | receive =>
      obtain ⟨received, -, rfl⟩ := Option.map_eq_some_iff.mp h
      exact .inl (receive_kept received p).2
  | accept =>
      left
      dsimp only at h
      unfold accept at h
      split at h
      · split at h
        · split at h
          · obtain rfl := Option.some.inj h
            rfl
          · obtain rfl := Option.some.inj h
            rfl
        · cases h
      · cases h
  | acceptPairing =>
      right
      dsimp only at h
      unfold acceptPairing at h
      split at h
      · next w hw =>
        split at h
        · obtain rfl := Option.some.inj h
          exact ⟨rfl, w, rfl, rfl⟩
        · cases h
      · cases h
  | sweep | expire | sweepPairing | exit =>
      obtain rfl := Option.some.inj h
      exact .inl rfl

/-- The loop ends in one way only. -/
theorem MainDone.exited (h : MainDone item p p') (hrunning : p.exited = false)
    (hexited : p'.exited = true) : p' = p.exit := by
  cases h with
  | exit => rfl
  | _ => exact absurd (hrunning.symm.trans hexited) Bool.false_ne_true

/-- A process that has had no message is booted by its first one or ends. -/
theorem main_unbooted (h : p.main item part = some p') (hpart : part = .receive ∨ part = .exit)
    (hbooted : p.booted = false) (hstill : p'.booted = false) : p' = p.exit := by
  unfold main at h
  rw [if_neg (by simp [main_running h])] at h
  rcases hpart with rfl | rfl
  · obtain ⟨⟨message, fds⟩, -, rfl⟩ := Option.map_eq_some_iff.mp h
    unfold receive at hstill ⊢
    rw [if_neg (by simp [hbooted])] at hstill ⊢
    cases message with
    | boot identity hosts endpoints mdns test =>
        simp only [boot] at hstill ⊢
        split at hstill
        · cases hstill
        · next hfds => exact if_neg hfds
    | _ => rfl
  · exact (Option.some.inj h).symm

theorem MainDone.booted (h : MainDone item p p') (hstill : p'.booted = false) :
    p.booted = false := by
  cases h with
  | boot => cases hstill
  | _ => exact hstill

/-! ## Peers -/

/-- Each peer is the host of a thread that is past its handshake. -/
def Announced (p : Process) : Prop :=
  ∀ (t : ℕ) (fp : String), p.broker.peers[t]? = some fp →
    ∃ i thread, t = i + 1 ∧ p.threads[i]? = some thread ∧ thread.stage ≠ .handshake

theorem Announced.main (h : p.Announced) (hdone : MainDone item p p') : p'.Announced := by
  have hpeers : p'.broker.peers = p.broker.peers := by
    cases hdone <;> rfl
  intro t fp ht
  rw [hpeers] at ht
  obtain ⟨i, thread, rfl, hi, hstage⟩ := h t fp ht
  obtain ⟨thread', hi', hsame, -⟩ := hdone.thread hi
  exact ⟨i, thread', rfl, hi', hsame ▸ hstage⟩

theorem Announced.advance (h : p.Announced) (hconsistent : p.Consistent) {c : ℕ}
    {step : CallStep} {b : Broker} (hcall : p.broker.advance c step = some b) :
    Announced { p with broker := b } := by
  obtain ⟨call, hc, hdone⟩ := Broker.advance_cases hcall
  have hstate : p.broker.stateOf c = some (call.request, call.progress) := by
    simp [Broker.stateOf, hc]
  intro t fp ht
  cases hdone with
  | announce hprogress =>
      have howned := hconsistent.owned c _ _ hstate (by simp [hprogress])
      cases hrequest : call.request with
      | authenticated transport host =>
          rw [hrequest] at howned ht
          obtain ⟨i, thread, rfl, hi, hstage⟩ := howned
          by_cases hit : t = i + 1
          · exact ⟨i, thread, hit, hi, by simp [hstage]⟩
          · apply h t fp
            have hother : (p.broker.peers.insert (i + 1) host)[t]? = some fp := ht
            rwa [Std.TreeMap.getElem?_insert, if_neg (by simpa using Ne.symm hit)] at hother
      | disconnected transport =>
          rw [hrequest] at ht
          apply h t fp
          have hother : (p.broker.peers.erase transport)[t]? = some fp := ht
          rw [Std.TreeMap.getElem?_erase] at hother
          split at hother
          · cases hother
          · exact hother
      | _ =>
          rw [hrequest] at ht
          exact h t fp ht
  | finish result hprogress =>
      apply h t fp
      have hother : (call.request.retract p.broker.peers result)[t]? = some fp := ht
      unfold Request.retract at hother
      split at hother
      · rw [Std.TreeMap.getElem?_erase] at hother
        split at hother
        · cases hother
        · exact hother
      · exact hother
  | _ => exact h t fp ht

/-! ## What a thread does -/

/-- A thread moves no other thread and no cancel flag, and none is back at its handshake
or begins again after its end. -/
structure ThreadMoved (p p' : Process) : Prop where
  length_eq : p'.threads.length = p.threads.length
  kept : ∀ (i : ℕ) (thread' : TransportThread), p'.threads[i]? = some thread' →
    ∃ thread, p.threads[i]? = some thread ∧ thread'.cancel = thread.cancel ∧
      (thread'.stage = .handshake → thread.stage = .handshake) ∧
      (thread'.stage ≠ .ended → thread.stage ≠ .ended)
  peers_eq : p'.broker.peers = p.broker.peers
  table : p'.connections = p.connections ∧ p'.nextTransport = p.nextTransport ∧
    p'.booted = p.booted ∧ p'.exited = p.exited
  pairing_eq : p'.window = p.window ∧ p'.pairings = p.pairings

theorem moved_setStage {i : ℕ} {thread : TransportThread} {stage : TransportStage} {b : Broker}
    (hi : p.threads[i]? = some thread) (hpeers : b.peers = p.broker.peers)
    (hstage : stage ≠ .handshake) (hlive : thread.stage ≠ .ended) :
    ThreadMoved p ({ p with broker := b }.setStage i stage) := by
  constructor
  · simp [setStage]
  · intro j thread' hj
    have hthreads := @setStage_threads { p with broker := b } i thread hi stage j
    rw [hthreads] at hj
    by_cases hji : j = i
    · rw [if_pos hji] at hj
      obtain rfl := Option.some.inj hj
      exact ⟨thread, hji ▸ hi, rfl, fun h => absurd h hstage, fun _ => hlive⟩
    · rw [if_neg hji] at hj
      exact ⟨thread', hj, rfl, id, id⟩
  · exact hpeers
  · exact ⟨rfl, rfl, rfl, rfl⟩
  · exact ⟨rfl, rfl⟩

theorem transport_moved {i : ℕ} {step : TransportPart} (h : p.transport i step = some p') :
    ThreadMoved p p' := by
  obtain ⟨thread, hi, hdone⟩ := transport_done h
  cases hdone with
  | authenticate fp b hstage hcall | ask fp r b hstage _ hcall | leave fp b hstage hcall =>
      exact moved_setStage hi (Broker.peers_call hcall) (by simp) (by simp [hstage])
  | fail hstage =>
      exact @moved_setStage p i thread _ p.broker hi rfl (by simp) (by simp [hstage])
  | granted fp c value hstage | refused fp c error hstage | answered fp c result hstage
  | left c result hstage =>
      exact @moved_setStage p i thread _ p.broker hi rfl (by simp) (by simp [hstage])

theorem ThreadMoved.announced (hmoved : ThreadMoved p p') (h : p.Announced) : p'.Announced := by
  intro t fp ht
  rw [hmoved.peers_eq] at ht
  obtain ⟨i, thread, rfl, hi, hstage⟩ := h t fp ht
  obtain ⟨hlt, -⟩ := List.getElem?_eq_some_iff.mp hi
  rw [← hmoved.length_eq] at hlt
  obtain ⟨old, hold, -, hback, -⟩ := hmoved.kept i _ (List.getElem?_eq_getElem hlt)
  obtain rfl := Option.some.inj (hi.symm.trans hold)
  exact ⟨i, _, rfl, List.getElem?_eq_getElem hlt, fun h => hstage (hback h)⟩

/-- A pairing attempt moves no other and does not begin again after its end. -/
structure PairingMoved (p p' : Process) : Prop where
  length_eq : p'.pairings.length = p.pairings.length
  kept : ∀ (j : ℕ) (thread' : PairingThread), p'.pairings[j]? = some thread' →
    ∃ thread, p.pairings[j]? = some thread ∧ (thread'.stage ≠ .ended → thread.stage ≠ .ended)
  peers_eq : p'.broker.peers = p.broker.peers
  table : p'.connections = p.connections ∧ p'.threads = p.threads ∧
    p'.booted = p.booted ∧ p'.exited = p.exited
  window_eq : p'.window = p.window

theorem moved_setPairing {j : ℕ} {thread : PairingThread} {stage : PairingStage} {b : Broker}
    (hj : p.pairings[j]? = some thread) (hpeers : b.peers = p.broker.peers)
    (hlive : thread.stage ≠ .ended) :
    PairingMoved p ({ p with broker := b }.setPairing j stage) := by
  constructor
  · simp [setPairing]
  · intro k thread' hk
    have hpairings := @setPairing_pairings { p with broker := b } j thread hj stage k
    rw [hpairings] at hk
    by_cases hkj : k = j
    · exact ⟨thread, hkj ▸ hj, fun _ => hlive⟩
    · rw [if_neg hkj] at hk
      exact ⟨thread', hk, id⟩
  · exact hpeers
  · exact ⟨rfl, rfl, rfl, rfl⟩
  · rfl

theorem pairing_moved {codec : KeyCodec} {j : ℕ} {step : PairingPart}
    (h : p.pairing codec j step = some p') : PairingMoved p p' := by
  obtain ⟨thread, hj, hdone⟩ := pairing_done h
  cases hdone with
  | commit key fp name b hstage _ hcall =>
      exact moved_setPairing hj (Broker.peers_call hcall) (by simp [hstage])
  | report b hstage hcall =>
      exact moved_setPairing hj (Broker.peers_call hcall) (by simp [hstage])
  | fail hstage =>
      apply @moved_setPairing p j thread _ p.broker hj rfl
      rcases hstage with hstage | ⟨key, hstage⟩
      · simp [hstage]
      · simp [hstage]
  | acknowledge key sent hstage | granted key c value hstage | refused key c error hstage
  | reported c result hstage =>
      exact @moved_setPairing p j thread _ p.broker hj rfl (by simp [hstage])

/-! ## Connections -/

/-- Every connection that runs is in the table. -/
theorem Consistent.running (h : p.Consistent) :
    ((Finset.range p.threads.length).filter fun i => p.finished (i + 1) = false).card ≤
      p.connections.length := by
  calc
    _ ≤ p.connections.toFinset.card := by
      apply Finset.card_le_card_of_injOn (· + 1)
      · intro i hi
        obtain ⟨hrange, hlive⟩ := Finset.mem_filter.mp hi
        have hlt := Finset.mem_range.mp hrange
        have hthread := List.getElem?_eq_getElem hlt
        apply List.mem_toFinset.mpr
        apply h.connected i _ hthread
        intro hended
        simp [finished, hthread, hended] at hlive
      · exact fun i _ j _ hij => Nat.succ.inj hij
    _ ≤ p.connections.length := List.toFinset_card_le _

end Process

namespace WorkerRun

/-- `elapsed` since the time at a place is more than `limit`. -/
def older (times : List ℕ) (limit now : ℕ) (i : ℕ) : Bool :=
  times[i]?.any fun t => t + limit < now

theorem older_iff {times : List ℕ} {limit now i t : ℕ} (ht : times[i]? = some t) :
    older times limit now i = true ↔ t + limit < now := by
  rw [older, ht, Option.any_some, decide_eq_true_iff]

/-- The attempt that the pairing window knows of. -/
def active (s : WorkerRun) : Option ℕ := s.process.window.bind PairWindow.active

/-- The connections that are more than ten seconds old. -/
def old (s : WorkerRun) (transport : ℕ) : Bool :=
  older s.started (secs 10) s.clock (transport - 1)

/-- The attempt that is more than twenty seconds old. -/
def overdue (s : WorkerRun) : List ℕ :=
  s.active.toList.filter (older s.attempts (secs 20) s.clock)

/-- The attempt that the end of its window stops. -/
def dropped (s : WorkerRun) (p : Process) : List ℕ :=
  s.active.toList.filter fun j =>
    p.window.bind PairWindow.active ≠ some j ∧ s.process.pairingFinished j = false

/-- The turn goes to another section. -/
def pass (turn : MainTurn) (s : WorkerRun) : WorkerRun :=
  { s with
    turn := turn
    since := if s.turn = .acceptPairing ∨ s.process.booted = false then s.clock else s.since }

/-- The loop has run a section, which has left the process `p`. -/
def proceed (p : Process) (s : WorkerRun) : WorkerRun :=
  { s.pass s.turn.onward with
    process := p
    started := s.started ++
      List.replicate (p.threads.length - s.process.threads.length) s.clock
    attempts := s.attempts ++
      List.replicate (p.pairings.length - s.process.pairings.length) s.clock
    stopped := s.stopped ++ s.dropped p }

def initial (clock : ℕ) : WorkerRun where
  process := .initial
  clock := clock
  since := clock
  turn := .poll
  started := []
  attempts := []
  stopped := []

inductive Step (codec : KeyCodec) (round : ℕ) : WorkerRun → WorkerRun → Prop
  -- nothing bounds the time up to the first message
  | time (s : WorkerRun) (clock : ℕ) (htime : s.clock ≤ clock)
      (hround : s.process.booted = true → s.process.exited = false →
        clock ≤ s.since + round) :
      Step codec round s { s with clock := clock }
  | main (s : WorkerRun) (item : Option (Message × List Fd)) (part : MainPart) (p : Process)
      (hturn : s.turn.Runs s.old part) (hmain : s.process.main item part = some p) :
      Step codec round s (s.proceed p)
  -- no message, no more connections, no pairing attempt
  | skip (s : WorkerRun) (hbooted : s.process.booted = true)
      (hexited : s.process.exited = false)
      (hturn : s.turn = .poll ∨ s.turn = .accept ∨ s.turn = .acceptPairing) :
      Step codec round s (s.pass s.turn.next)
  | timePairing (s : WorkerRun) (hexited : s.process.exited = false)
      (hturn : s.turn = .timePairing) :
      Step codec round s { s.pass .sweepPairing with stopped := s.stopped ++ s.overdue }
  | call (s : WorkerRun) (c : ℕ) (part : CallStep) (b : Broker)
      (hcall : s.process.broker.advance c part = some b) :
      Step codec round s { s with process := { s.process with broker := b } }
  | transport (s : WorkerRun) (i : ℕ) (part : TransportPart) (p : Process)
      (hthread : s.process.transport i part = some p) : Step codec round s { s with process := p }
  | pairing (s : WorkerRun) (j : ℕ) (part : PairingPart) (p : Process)
      (hthread : s.process.pairing codec j part = some p) :
      Step codec round s { s with process := p }

abbrev Reachable (codec : KeyCodec) (round : ℕ) : WorkerRun → Prop :=
  Transition.Reachable (fun s => ∃ clock, s = initial clock) (Step codec round)

variable {codec : KeyCodec} {round : ℕ} {s s' : WorkerRun}

/-! ## Passes -/

/-- How old a connection may be beyond its limit when the pass begins, and
until the check of this pass. -/
def slack (round : ℕ) : MainTurn → ℕ
  | .poll | .sweep | .expire => round
  | .accept | .timePairing | .sweepPairing | .acceptPairing => 0

/-- The same for a pairing attempt. -/
def pairingSlack (round : ℕ) : MainTurn → ℕ
  | .poll | .sweep | .expire | .accept | .timePairing => round
  | .sweepPairing | .acceptPairing => 0

structure Timely (round : ℕ) (s : WorkerRun) : Prop where
  consistent : s.process.Consistent
  announced : s.process.Announced
  limit : s.process.connections.length ≤ maxTransports
  started_length : s.started.length = s.process.threads.length
  attempts_length : s.attempts.length = s.process.pairings.length
  unbooted : s.process.booted = false → s.process.threads = [] ∧ s.process.pairings = [] ∧
    (s.turn = .poll ∨ s.process.exited = true)
  since_le : s.since ≤ s.clock
  pass : s.process.booted = true → s.process.exited = false → s.clock ≤ s.since + round
  connection : ∀ (i : ℕ) (thread : TransportThread) (t : ℕ), s.process.threads[i]? = some thread →
    s.started[i]? = some t → thread.stage = .handshake → thread.cancel = false →
      s.since ≤ t + secs 10 + slack round s.turn
  ended : s.process.exited = true → s.process.window = none ∧ ∀ (i : ℕ) (thread : TransportThread),
    s.process.threads[i]? = some thread → thread.stage ≠ .ended → thread.cancel = true
  attempt : ∀ (j : ℕ) (thread : PairingThread) (t : ℕ), s.process.pairings[j]? = some thread →
    s.attempts[j]? = some t → thread.stage ≠ .ended →
      j ∈ s.stopped ∨ s.active = some j ∧ s.since ≤ t + secs 20 + pairingSlack round s.turn

theorem pass_since_le (turn : MainTurn) (h : s.since ≤ s.clock) :
    (s.pass turn).since ≤ s.clock := by
  unfold pass
  dsimp only
  split
  · exact le_rfl
  · exact h

/-- The next turn of a pass that has begun. -/
theorem pass_since (turn : MainTurn) (hbooted : s.process.booted = true)
    (hturn : s.turn ≠ .acceptPairing) : (s.pass turn).since = s.since := by
  unfold pass
  dsimp only
  rw [if_neg (by simp [hbooted, hturn])]

theorem pass_clock {turn : MainTurn}
    (hround : s.process.booted = true → s.clock ≤ s.since + round) :
    s.clock ≤ (s.pass turn).since + round := by
  unfold pass
  dsimp only
  split
  · exact Nat.le_add_right _ _
  · next hturn =>
    apply hround
    simpa using fun hbooted => hturn (.inr hbooted)

/-- A bound that holds up to the check of a pass holds up to the check of the next one. -/
theorem pass_bound {turn : MainTurn} {bound : ℕ} (hbooted : s.process.booted = true)
    (hround : s.clock ≤ s.since + round)
    (hnext : turn = s.turn.next ∨ turn = .accept ∧ s.turn = .accept) :
    (s.turn ≠ .expire → s.since ≤ bound + slack round s.turn →
        (s.pass turn).since ≤ bound + slack round turn) ∧
      (s.turn ≠ .timePairing → s.since ≤ bound + pairingSlack round s.turn →
        (s.pass turn).since ≤ bound + pairingSlack round turn) := by
  by_cases hlast : s.turn = .acceptPairing
  · have hsince : (s.pass turn).since = s.clock := by
      unfold pass
      exact if_pos (.inl hlast)
    rw [hsince, hlast]
    rcases hnext with rfl | ⟨-, haccept⟩
    · rw [hlast]
      simp only [slack, pairingSlack, MainTurn.next]
      omega
    · rw [hlast] at haccept
      cases haccept
  · rw [pass_since turn hbooted hlast]
    rcases hnext with rfl | ⟨rfl, haccept⟩
    · cases hturn : s.turn with
      | acceptPairing => exact absurd hturn hlast
      | expire => exact ⟨fun hne => absurd rfl hne, fun _ h => h⟩
      | timePairing => exact ⟨fun _ h => h, fun hne => absurd rfl hne⟩
      | _ =>
          simp only [slack, pairingSlack, MainTurn.next]
          omega
    · rw [haccept]
      exact ⟨fun _ h => h, fun _ h => h⟩

/-! ## Steps -/

theorem Timely.booted_of_thread (h : s.Timely round) {i : ℕ} {thread : TransportThread}
    (hi : s.process.threads[i]? = some thread) : s.process.booted = true := by
  by_contra hbooted
  obtain ⟨hnone, -, -⟩ := h.unbooted (by simpa using hbooted)
  simp [hnone] at hi

theorem Timely.booted_of_attempt (h : s.Timely round) {j : ℕ} {thread : PairingThread}
    (hj : s.process.pairings[j]? = some thread) : s.process.booted = true := by
  by_contra hbooted
  obtain ⟨-, hnone, -⟩ := h.unbooted (by simpa using hbooted)
  simp [hnone] at hj

theorem Timely.booted_of_turn (h : s.Timely round) (hrunning : s.process.exited = false)
    (hturn : s.turn ≠ .poll) : s.process.booted = true := by
  by_contra hbooted
  obtain ⟨-, -, hpoll | hexited⟩ := h.unbooted (by simpa using hbooted)
  · exact hturn hpoll
  · exact absurd (hrunning.symm.trans hexited) Bool.false_ne_true

theorem Timely.time (h : s.Timely round) {clock : ℕ} (htime : s.clock ≤ clock)
    (hround : s.process.booted = true → s.process.exited = false → clock ≤ s.since + round) :
    Timely round { s with clock := clock } where
  consistent := h.consistent
  announced := h.announced
  limit := h.limit
  started_length := h.started_length
  attempts_length := h.attempts_length
  unbooted := h.unbooted
  since_le := h.since_le.trans htime
  pass := hround
  connection := h.connection
  ended := h.ended
  attempt := h.attempt

/-- The loop goes on without a section of the process. -/
theorem Timely.pass_turn (h : s.Timely round) (hbooted : s.process.booted = true)
    (hrunning : s.process.exited = false) (hexpire : s.turn ≠ .expire) (stopped : List ℕ)
    (hattempt : ∀ (j : ℕ) (thread : PairingThread) (t : ℕ), s.process.pairings[j]? = some thread →
      s.attempts[j]? = some t → thread.stage ≠ .ended → j ∈ s.stopped ++ stopped ∨
        s.active = some j ∧
          (s.pass s.turn.next).since ≤ t + secs 20 + pairingSlack round s.turn.next) :
    Timely round { s.pass s.turn.next with stopped := s.stopped ++ stopped } where
  consistent := h.consistent
  announced := h.announced
  limit := h.limit
  started_length := h.started_length
  attempts_length := h.attempts_length
  unbooted hnot := absurd (hbooted.symm.trans hnot) (by decide)
  since_le := pass_since_le s.turn.next h.since_le
  pass _ _ := @pass_clock round s s.turn.next fun hbooted => h.pass hbooted hrunning
  connection i thread t hi ht hstage hcancel :=
    (pass_bound hbooted (h.pass hbooted hrunning) (.inl rfl)).1 hexpire
      (h.connection i thread t hi ht hstage hcancel)
  ended := h.ended
  attempt := hattempt

theorem Timely.skip (h : s.Timely round) (hbooted : s.process.booted = true)
    (hrunning : s.process.exited = false)
    (hturn : s.turn = .poll ∨ s.turn = .accept ∨ s.turn = .acceptPairing) :
    Timely round (s.pass s.turn.next) := by
  have hexpire : s.turn ≠ .expire := by
    rcases hturn with hturn | hturn | hturn <;> simp [hturn]
  have htime : s.turn ≠ .timePairing := by
    rcases hturn with hturn | hturn | hturn <;> simp [hturn]
  have hnone := h.pass_turn hbooted hrunning hexpire [] (by
    intro j thread t hj ht hlive
    rw [List.append_nil]
    apply (h.attempt j thread t hj ht hlive).imp_right
    intro hactive
    exact ⟨hactive.1, (pass_bound hbooted (h.pass hbooted hrunning) (.inl rfl)).2 htime hactive.2⟩)
  rwa [List.append_nil] at hnone

/-- An attempt that is too old is stopped at its check. -/
theorem Timely.timePairing (h : s.Timely round) (hrunning : s.process.exited = false)
    (hturn : s.turn = .timePairing) :
    Timely round { s.pass .sweepPairing with stopped := s.stopped ++ s.overdue } := by
  have hbooted := h.booted_of_turn hrunning (by simp [hturn])
  have hnext : s.turn.next = .sweepPairing := by rw [hturn]; rfl
  rw [← hnext]
  apply h.pass_turn hbooted hrunning (by simp [hturn])
  intro j thread t hj ht hlive
  rcases h.attempt j thread t hj ht hlive with hstopped | ⟨hactive, -⟩
  · exact .inl (List.mem_append_left _ hstopped)
  · by_cases hold : t + secs 20 < s.clock
    · left
      apply List.mem_append_right
      apply List.mem_filter.mpr
      constructor
      · rw [hactive]
        exact List.mem_singleton_self j
      · exact (older_iff ht).mpr hold
    · right
      have hage : s.clock ≤ t + secs 20 := not_lt.mp hold
      rw [pass_since _ hbooted (by simp [hturn]), hnext]
      exact ⟨hactive, (h.since_le.trans hage).trans (Nat.le_add_right _ _)⟩

theorem Timely.call (h : s.Timely round) {c : ℕ} {part : CallStep} {b : Broker}
    (hcall : s.process.broker.advance c part = some b) :
    Timely round { s with process := { s.process with broker := b } } where
  consistent := h.consistent.advance hcall
  announced := h.announced.advance h.consistent hcall
  limit := h.limit
  started_length := h.started_length
  attempts_length := h.attempts_length
  unbooted := h.unbooted
  since_le := h.since_le
  pass := h.pass
  connection := h.connection
  ended := h.ended
  attempt := h.attempt

theorem Timely.transport (h : s.Timely round) {i : ℕ} {part : TransportPart} {p : Process}
    (hthread : s.process.transport i part = some p) : Timely round { s with process := p } := by
  obtain ⟨thread, hi, hdone⟩ := Process.transport_done hthread
  have hmoved := Process.transport_moved hthread
  obtain ⟨hconnections, -, hbooted, hexited⟩ := hmoved.table
  obtain ⟨hwindow, hpairings⟩ := hmoved.pairing_eq
  constructor
  · exact h.consistent.transport hi hdone
  · exact hmoved.announced h.announced
  · exact hconnections ▸ h.limit
  · exact h.started_length.trans hmoved.length_eq.symm
  · exact h.attempts_length.trans (congrArg _ hpairings.symm)
  · intro hnot
    have hstill : s.process.booted = false := hbooted.symm.trans hnot
    exact absurd (h.booted_of_thread hi) (by simp [hstill])
  · exact h.since_le
  · intro hboot hrun
    exact h.pass (hbooted ▸ hboot) (hexited ▸ hrun)
  · intro j thread' t hj ht hstage hcancel
    obtain ⟨old, hold, hsame, hback, -⟩ := hmoved.kept j thread' hj
    exact h.connection j old t hold ht (hback hstage) (hsame ▸ hcancel)
  · intro hend
    obtain ⟨hnone, hall⟩ := h.ended (hexited ▸ hend)
    refine ⟨hwindow.trans hnone, ?_⟩
    intro j thread' hj hlive
    obtain ⟨old, hold, hsame, -, hback⟩ := hmoved.kept j thread' hj
    exact hsame.trans (hall j old hold (hback hlive))
  · intro j thread' t hj ht hlive
    have hactive : active { s with process := p } = s.active := by
      unfold active
      exact congrArg (·.bind PairWindow.active) hwindow
    rw [hactive]
    exact h.attempt j thread' t (by rw [← hpairings]; exact hj) ht hlive

theorem Timely.pairing (h : s.Timely round) {j : ℕ} {part : PairingPart} {p : Process}
    (hthread : s.process.pairing codec j part = some p) : Timely round { s with process := p } := by
  obtain ⟨thread, hj, hdone⟩ := Process.pairing_done hthread
  have hmoved := Process.pairing_moved hthread
  obtain ⟨hconnections, hthreads, hbooted, hexited⟩ := hmoved.table
  constructor
  · exact h.consistent.pairing hdone
  · intro t fp ht
    have hold := h.announced t fp (by rw [← hmoved.peers_eq]; exact ht)
    rwa [← hthreads] at hold
  · exact hconnections ▸ h.limit
  · exact h.started_length.trans (congrArg _ hthreads.symm)
  · exact h.attempts_length.trans hmoved.length_eq.symm
  · intro hnot
    have hstill : s.process.booted = false := hbooted.symm.trans hnot
    exact absurd (h.booted_of_attempt hj) (by simp [hstill])
  · exact h.since_le
  · intro hboot hrun
    exact h.pass (hbooted ▸ hboot) (hexited ▸ hrun)
  · intro i thread' t hi
    exact h.connection i thread' t (by rw [← hthreads]; exact hi)
  · intro hend
    obtain ⟨hnone, hall⟩ := h.ended (hexited ▸ hend)
    refine ⟨hmoved.window_eq.trans hnone, ?_⟩
    intro i thread' hi
    exact hall i thread' (by rw [← hthreads]; exact hi)
  · intro k thread' t hk ht hlive
    have hactive : active { s with process := p } = s.active := by
      unfold active
      exact congrArg (·.bind PairWindow.active) hmoved.window_eq
    obtain ⟨old, hold, hback⟩ := hmoved.kept k thread' hk
    rw [hactive]
    exact h.attempt k old t hold ht (hback hlive)

theorem getElem?_extended {times : List ℕ} {k i t : ℕ}
    (h : (times ++ List.replicate k s.clock)[i]? = some t) :
    times[i]? = some t ∨ times.length ≤ i ∧ t = s.clock := by
  by_cases hlt : i < times.length
  · rw [List.getElem?_append_left hlt] at h
    exact .inl h
  · rw [List.getElem?_append_right (not_lt.mp hlt)] at h
    exact .inr ⟨not_lt.mp hlt, List.eq_of_mem_replicate (List.mem_of_getElem? h)⟩

/-- The check of the pass leaves no connection that is too old. -/
theorem Timely.expired (h : s.Timely round) {item : Option (Message × List Fd)} {p : Process}
    (hmain : s.process.main item (.expire s.old) = some p) {i t : ℕ}
    {thread thread' : TransportThread}
    (hi : s.process.threads[i]? = some thread) (hi' : p.threads[i]? = some thread')
    (ht : s.started[i]? = some t) (hstage : thread.stage = .handshake)
    (hcancel : thread'.cancel = false) : s.clock ≤ t + secs 10 := by
  have hrunning := Process.main_running hmain
  unfold Process.main at hmain
  rw [if_neg (by simp [hrunning])] at hmain
  obtain rfl := Option.some.inj hmain
  rw [Process.stopWhere_threads, hi, Option.map_some] at hi'
  obtain rfl := Option.some.inj hi'
  have htable := h.consistent.connected i thread hi (by simp [hstage])
  have hunknown : s.process.broker.peers[i + 1]? = none := by
    cases hpeer : s.process.broker.peers[i + 1]? with
    | none => rfl
    | some fp =>
        obtain ⟨j, other, hij, hj, hother⟩ := h.announced _ fp hpeer
        obtain rfl := Nat.succ.inj hij
        obtain rfl := Option.some.inj (hi.symm.trans hj)
        exact absurd hstage hother
  by_contra hold
  have hage : s.old (i + 1) = true := (older_iff ht).mpr (not_le.mp hold)
  rw [if_pos ⟨htable, by simp [hage, hunknown]⟩] at hcancel
  cases hcancel

theorem Timely.main (h : s.Timely round) {item : Option (Message × List Fd)} {part : MainPart}
    {p : Process} (hturn : s.turn.Runs s.old part) (hmain : s.process.main item part = some p) :
    Timely round (s.proceed p) := by
  have hrunning := Process.main_running hmain
  have hdone := Process.main_done hmain
  have hround : s.process.booted = true → s.clock ≤ s.since + round :=
    fun hbooted => h.pass hbooted hrunning
  have hnext : s.turn.onward = s.turn.next ∨ s.turn.onward = .accept ∧ s.turn = .accept := by
    unfold MainTurn.onward
    split
    · next haccept => exact .inr ⟨rfl, haccept⟩
    · exact .inl rfl
  constructor
  · exact h.consistent.main hdone
  · exact h.announced.main hdone
  · exact Process.main_limit hmain h.limit
  · have hle := hdone.threads_le
    have hlength := h.started_length
    simp only [proceed, List.length_append, List.length_replicate]
    omega
  · have hlength := h.attempts_length
    simp only [proceed, List.length_append, List.length_replicate]
    rcases Process.main_attempt hmain with heq | ⟨-, w, heq, -⟩
    · rw [heq]
      omega
    · rw [heq, List.length_append, List.length_singleton]
      omega
  · intro hstill
    have hbooted := hdone.booted hstill
    obtain ⟨hthreads, hpairings, hpoll⟩ := h.unbooted hbooted
    have hpart : part = .receive ∨ part = .exit := by
      rcases hpoll with hpoll | hexited
      · rw [hpoll] at hturn
        cases part <;> first | exact .inl rfl | exact .inr rfl | exact hturn.elim
      · exact absurd (hrunning.symm.trans hexited) Bool.false_ne_true
    have hexit := Process.main_unbooted hmain hpart hbooted hstill
    refine ⟨?_, ?_, .inr ?_⟩
    · change p.threads = []
      rw [hexit]
      simp [Process.exit, Process.stopWhere, hthreads]
    · change p.pairings = []
      rw [hexit]
      exact hpairings
    · change p.exited = true
      rw [hexit]
      rfl
  · exact pass_since_le s.turn.onward h.since_le
  · intro _ _
    exact @pass_clock round s s.turn.onward hround
  · intro i thread' t hi' ht hstage hcancel
    rcases getElem?_extended ht with ht | ⟨-, rfl⟩
    · obtain ⟨hlt, -⟩ := List.getElem?_eq_some_iff.mp ht
      rw [h.started_length] at hlt
      have hi := List.getElem?_eq_getElem hlt
      obtain ⟨thread, hthread, hsame, hkept⟩ := hdone.thread hi
      obtain rfl := Option.some.inj (hthread.symm.trans hi')
      have hbooted := h.booted_of_thread hi
      have hfresh := hsame.symm.trans hstage
      by_cases hexpire : s.turn = .expire
      · have hpart : part = .expire s.old := by
          rw [hexpire] at hturn
          cases part <;> first | exact congrArg _ hturn | exact hturn.elim
        subst hpart
        have hage := h.expired hmain hi hi' ht hfresh hcancel
        have hsince := pass_since_le s.turn.onward h.since_le
        change (s.pass s.turn.onward).since ≤ t + secs 10 + slack round s.turn.onward
        omega
      · apply (pass_bound hbooted (hround hbooted) hnext).1 hexpire
        apply h.connection i _ t hi ht hfresh
        by_contra hset
        exact absurd (hkept (by simpa using hset)) (by simp [hcancel])
    · have hsince := pass_since_le s.turn.onward h.since_le
      change (s.pass s.turn.onward).since ≤ s.clock + secs 10 + slack round s.turn.onward
      omega
  · intro hexited
    have hexit : p = s.process.exit := hdone.exited hrunning hexited
    change p.window = none ∧ ∀ (i : ℕ) (thread : TransportThread), p.threads[i]? = some thread → _
    rw [hexit]
    refine ⟨rfl, ?_⟩
    intro i thread' hi' hlive
    have hstopped : (s.process.stopWhere fun _ => true).threads[i]? = some thread' := hi'
    rw [Process.stopWhere_threads, Option.map_eq_some_iff] at hstopped
    obtain ⟨thread, hi, rfl⟩ := hstopped
    have hstage : thread.stage ≠ .ended := by
      intro hended
      apply hlive
      split <;> exact hended
    rw [if_pos ⟨h.consistent.connected i thread hi hstage, rfl⟩]
  · intro j thread' t hj' ht hlive
    have hactive : (s.proceed p).active = p.window.bind PairWindow.active := rfl
    rw [hactive]
    rcases getElem?_extended ht with ht | ⟨hle, rfl⟩
    · obtain ⟨hlt, -⟩ := List.getElem?_eq_some_iff.mp ht
      rw [h.attempts_length] at hlt
      have hj := List.getElem?_eq_getElem hlt
      obtain rfl := Option.some.inj ((hdone.attempt hj).symm.trans hj')
      rcases h.attempt j _ t hj ht hlive with hstopped | ⟨hold, hbound⟩
      · exact .inl (List.mem_append_left _ hstopped)
      · by_cases hkept : p.window.bind PairWindow.active = some j
        · have hbooted := h.booted_of_attempt hj
          have htime : s.turn ≠ .timePairing := by
            intro htime
            rw [htime] at hturn
            exact hturn
          exact .inr ⟨hkept,
            (pass_bound hbooted (hround hbooted) hnext).2 htime hbound⟩
        · left
          apply List.mem_append_right
          simp [dropped, hold, hkept, Process.pairingFinished, hj, hlive]
    · rcases Process.main_attempt hmain with heq | ⟨-, w, heq, hwindow⟩
      · have hj : s.process.pairings[j]? = some thread' := by
          rw [← heq]
          exact hj'
        obtain ⟨hlt, -⟩ := List.getElem?_eq_some_iff.mp hj
        rw [← h.attempts_length] at hlt
        exact absurd hlt (not_lt.mpr hle)
      · have hj : (s.process.pairings ++ [⟨w.epoch, .exchanging⟩])[j]? = some thread' := by
          rw [← heq]
          exact hj'
        obtain ⟨hlt, -⟩ := List.getElem?_eq_some_iff.mp hj
        rw [List.length_append, List.length_singleton, ← h.attempts_length] at hlt
        obtain rfl : j = s.process.pairings.length := by
          have hlength := h.attempts_length
          omega
        right
        constructor
        · rw [hwindow]
          rfl
        · have hsince := pass_since_le s.turn.onward h.since_le
          change (s.pass s.turn.onward).since ≤ s.clock + secs 20 + pairingSlack round s.turn.onward
          omega

theorem Timely.step (h : s.Timely round) (hstep : Step codec round s s') : s'.Timely round := by
  cases hstep with
  | time clock htime hround => exact h.time htime hround
  | main item part p hturn hmain => exact h.main hturn hmain
  | skip hbooted hexited hturn => exact h.skip hbooted hexited hturn
  | timePairing hexited hturn => exact h.timePairing hexited hturn
  | call c part b hcall => exact h.call hcall
  | transport i part p hthread => exact h.transport hthread
  | pairing j part p hthread => exact h.pairing hthread

/-- A worker whose only connection says nothing for eleven seconds. -/
theorem silent : ∃ s, Reachable MainLoop.constantCodec (secs 11) s ∧ s.clock = secs 11 ∧
    s.turn = .accept ∧ s.process.threads = [⟨[], true, .handshake⟩] := by
  have hstart : Reachable MainLoop.constantCodec (secs 11) (initial 0) :=
    Transition.Reachable.start ⟨0, rfl⟩
  have hbooted := hstart.next
    (.main _ (some (.boot ⟨"", "", ""⟩ [] [] [] true, [])) .receive _ trivial rfl)
  have hswept := hbooted.next (.main _ none .sweep _ trivial rfl)
  have hexpired := hswept.next (.main _ none (.expire _) _ rfl rfl)
  have haccepted := hexpired.next (.main _ none .accept _ trivial rfl)
  have hlater := haccepted.next
    (.time _ (secs 11) (Nat.zero_le _) fun _ _ => (Nat.zero_add _).ge)
  have hskipped := hlater.next (.skip _ rfl rfl (.inr (.inl rfl)))
  have htimed := hskipped.next (.timePairing _ rfl rfl)
  have hpairing := htimed.next (.main _ none .sweepPairing _ trivial rfl)
  have hpassed := hpairing.next (.skip _ rfl rfl (.inr (.inr rfl)))
  have hquiet := hpassed.next (.skip _ rfl rfl (.inl rfl))
  have hswept := hquiet.next (.main _ none .sweep _ trivial rfl)
  have hexpired := hswept.next (.main _ none (.expire _) _ rfl rfl)
  exact ⟨_, hexpired, rfl, rfl, rfl⟩

end WorkerRun

end Altdb
