import Altdb.SystemExchange

/-!
# Threads, calls and peers of the worker

Each connection thread waits for at most one call, and a call that announces
or forgets a peer belongs to the thread of its transport.  So `peers` names
the host of every thread that has announced itself until it leaves.
-/

namespace Altdb

/-- The request and the progress of an invocation. -/
def Broker.stateOf (b : Broker) (c : ℕ) : Option (Request × Progress) :=
  b.calls[c]?.map fun call => (call.request, call.progress)

/-- The stage waits for an invocation that makes the right request. -/
def TransportStage.Awaits (b : Broker) (i : ℕ) : TransportStage → Prop
  | .authenticating fp c =>
      ∃ progress, b.stateOf c = some (.authenticated (i + 1) fp, progress)
  | .asking _ c => ∃ r progress, b.stateOf c = some (r, progress) ∧
      r.OfSession (i + 1)
  | .leaving c =>
      ∃ progress, b.stateOf c = some (.disconnected (i + 1), progress)
  | .handshake | .serving _ | .ended => True

/-- A thread in this stage has announced the host and not taken it back. -/
def TransportStage.Known (b : Broker) (fp : String) : TransportStage → Prop
  | .authenticating fp' c => fp' = fp ∧ ∃ r progress,
      b.stateOf c = some (r, progress) ∧ progress ≠ .identified ∧
        ∀ error, progress ≠ .returned (.error error)
  | .serving fp' | .asking fp' _ => fp' = fp
  | .handshake | .leaving _ | .ended => False

theorem TransportStage.awaits_congr {b b' : Broker} {i : ℕ}
    (h : ∀ c, b'.stateOf c = b.stateOf c) (stage : TransportStage) :
    stage.Awaits b' i ↔ stage.Awaits b i := by
  cases stage <;> simp only [Awaits, h]

theorem TransportStage.known_congr {b b' : Broker} {fp : String}
    (h : ∀ c, b'.stateOf c = b.stateOf c) (stage : TransportStage) :
    stage.Known b' fp ↔ stage.Known b fp := by
  cases stage <;> simp only [Known, h]

/-- More calls change nothing for a stage. -/
theorem TransportStage.Awaits.mono {b b' : Broker} {i : ℕ}
    {stage : TransportStage} (h : stage.Awaits b i)
    (hold : ∀ c state, b.stateOf c = some state → b'.stateOf c = some state) :
    stage.Awaits b' i := by
  cases stage with
  | authenticating fp c | leaving c =>
      obtain ⟨progress, hc⟩ := h
      exact ⟨progress, hold _ _ hc⟩
  | asking fp c =>
      obtain ⟨r, progress, hc, hsession⟩ := h
      exact ⟨r, progress, hold _ _ hc, hsession⟩
  | _ => trivial

theorem TransportStage.Known.before {b b' : Broker} {i : ℕ} {fp : String}
    {stage : TransportStage} (hawaits : stage.Awaits b i)
    (hold : ∀ c state, b.stateOf c = some state → b'.stateOf c = some state)
    (h : stage.Known b' fp) : stage.Known b fp := by
  cases stage with
  | authenticating fp' c =>
      obtain ⟨progress, hc⟩ := hawaits
      obtain ⟨heq, r, progress', hc', hprogress⟩ := h
      have hkept := (hold _ _ hc).symm.trans hc'
      exact ⟨heq, r, progress', hkept ▸ hc, hprogress⟩
  | _ => exact h

namespace Broker

variable {b b' : Broker} {c : ℕ} {part : CallStep}

theorem stateOf_call {request : Request} (h : b.call request = some b') (i : ℕ) :
    b'.stateOf i = if i = b.calls.length then some (request, .identified)
      else b.stateOf i := by
  obtain ⟨-, rfl⟩ := call_eq request h
  simp only [stateOf, List.getElem?_append, List.getElem?_singleton]
  split
  · rw [if_neg (by omega)]
  · split
    · rw [if_pos (by omega)]
      rfl
    · rw [if_neg (by omega), List.getElem?_eq_none (by omega)]

theorem peers_call {request : Request} (h : b.call request = some b') :
    b'.peers = b.peers := by
  obtain ⟨-, rfl⟩ := call_eq request h
  rfl

theorem stateOf_length : b.stateOf b.calls.length = none := by
  simp [stateOf]

theorem stateOf_kept {request : Request} (h : b.call request = some b') (i : ℕ)
    (state : Request × Progress) (hi : b.stateOf i = some state) :
    b'.stateOf i = some state := by
  rw [stateOf_call h, if_neg]
  · exact hi
  · rintro rfl
    rw [stateOf_length] at hi
    cases hi

theorem stateOf_deliver (id : ℕ) (answer : Answer) (b : Broker) (i : ℕ) :
    (b.deliver id answer).stateOf i = b.stateOf i := by
  simp only [stateOf, deliver_calls]
  split
  · rw [Option.map_map]
    congr 1
    funext call
    obtain ⟨buffer, heq, -⟩ := trySend_eq call (b.arrivals.length, answer)
    simp [heq]
  · rfl

/-- One access moves the progress of one call. -/
theorem stateOf_put {call : Call} (h : b.calls[c]? = some call) (call' : Call)
    (i : ℕ) : (b.put c call').stateOf i =
      if i = c then some (call'.request, call'.progress) else b.stateOf i := by
  simp only [stateOf, put_calls h]
  split <;> rfl

theorem returned_eq {result : CallResult} : b.returned c = some result ↔
    ∃ r, b.stateOf c = some (r, .returned result) := by
  unfold returned stateOf
  cases b.calls[c]? with
  | none => simp
  | some call =>
      obtain ⟨id, request, progress, buffer, taken⟩ := call
      cases progress <;> simp

end Broker

namespace Process

/-- The thread that waits for a call on a connection. -/
def Owned (p : Process) (c : ℕ) : Request → Prop
  | .authenticated t fp => ∃ i thread, t = i + 1 ∧
      p.threads[i]? = some thread ∧ thread.stage = .authenticating fp c
  | .disconnected t => ∃ i thread, t = i + 1 ∧
      p.threads[i]? = some thread ∧ thread.stage = .leaving c
  | _ => True

structure Consistent (p : Process) : Prop where
  next_eq : p.nextTransport = p.threads.length + 1
  connected : ∀ (i : ℕ) (thread : TransportThread),
    p.threads[i]? = some thread → thread.stage ≠ .ended → i + 1 ∈ p.connections
  awaits : ∀ (i : ℕ) (thread : TransportThread),
    p.threads[i]? = some thread → thread.stage.Awaits p.broker i
  owned : ∀ (c : ℕ) (r : Request) (progress : Progress),
    p.broker.stateOf c = some (r, progress) →
      (∀ result, progress ≠ .returned result) → p.Owned c r
  peers : ∀ (i : ℕ) (thread : TransportThread) (fp : String),
    p.threads[i]? = some thread → thread.stage.Known p.broker fp →
      p.broker.peers[i + 1]? = some fp

theorem initial_consistent : initial.Consistent where
  next_eq := rfl
  connected i thread h := by simp [initial] at h
  awaits i thread h := by simp [initial] at h
  owned c r progress h := by
    simp [initial, Broker.initial, Broker.stateOf] at h
  peers i thread fp h := by simp [initial] at h

variable {p p' : Process}

/-- A change of the threads that keeps their stages and of the broker that
keeps the calls and `peers`. -/
theorem Consistent.congr (h : p.Consistent)
    (hstate : ∀ c, p'.broker.stateOf c = p.broker.stateOf c)
    (hpeers : p'.broker.peers = p.broker.peers)
    (hnext : p'.nextTransport = p.nextTransport)
    (hlength : p'.threads.length = p.threads.length)
    (hthreads : ∀ (i : ℕ), (p'.threads[i]?).map TransportThread.stage =
      (p.threads[i]?).map TransportThread.stage)
    (hconnections : ∀ (i : ℕ) (thread : TransportThread),
      p.threads[i]? = some thread → thread.stage ≠ .ended →
        i + 1 ∈ p'.connections) : p'.Consistent := by
  have hold {i : ℕ} {thread : TransportThread}
      (hi : p'.threads[i]? = some thread) : ∃ old, p.threads[i]? = some old ∧
        old.stage = thread.stage := by
    have hmap := hthreads i
    rw [hi, Option.map_some, eq_comm, Option.map_eq_some_iff] at hmap
    exact hmap
  have hnew {i : ℕ} {old : TransportThread} (hi : p.threads[i]? = some old) :
      ∃ thread, p'.threads[i]? = some thread ∧ thread.stage = old.stage := by
    have hmap := hthreads i
    rw [hi, Option.map_some, Option.map_eq_some_iff] at hmap
    exact hmap
  constructor
  · rw [hnext, hlength, h.next_eq]
  · intro i thread hi hstage
    obtain ⟨old, hi', heq⟩ := hold hi
    exact hconnections i old hi' (heq ▸ hstage)
  · intro i thread hi
    obtain ⟨old, hi', heq⟩ := hold hi
    exact (TransportStage.awaits_congr hstate _).mpr (heq ▸ h.awaits i old hi')
  · intro c r progress hc hrunning
    rw [hstate] at hc
    have howned := h.owned c r progress hc hrunning
    cases r with
    | authenticated t fp =>
        obtain ⟨i, old, ht, hi, hstage⟩ := howned
        obtain ⟨thread, hi', heq⟩ := hnew hi
        exact ⟨i, thread, ht, hi', heq.trans hstage⟩
    | disconnected t =>
        obtain ⟨i, old, ht, hi, hstage⟩ := howned
        obtain ⟨thread, hi', heq⟩ := hnew hi
        exact ⟨i, thread, ht, hi', heq.trans hstage⟩
    | _ => trivial
  · intro i thread fp hi hknown
    obtain ⟨old, hi', heq⟩ := hold hi
    rw [hpeers]
    refine h.peers i old fp hi' ?_
    rw [heq]
    exact (TransportStage.known_congr hstate _).mp hknown

theorem stopWhere_stage (stops : ℕ → Bool) (p : Process) (i : ℕ) :
    ((p.stopWhere stops).threads[i]?).map TransportThread.stage =
      (p.threads[i]?).map TransportThread.stage := by
  rw [stopWhere_threads, Option.map_map]
  congr 1
  funext thread
  simp only [Function.comp]
  split <;> rfl

theorem Consistent.stopWhere (h : p.Consistent) (stops : ℕ → Bool) :
    (p.stopWhere stops).Consistent :=
  h.congr (fun _ => rfl) rfl rfl (by simp [Process.stopWhere])
    (stopWhere_stage stops p) h.connected

theorem Consistent.exit (h : p.Consistent) : p.exit.Consistent :=
  (h.stopWhere fun _ => true).congr (fun _ => rfl) rfl rfl rfl (fun _ => rfl)
    (h.stopWhere fun _ => true).connected

theorem Consistent.accept (h : p.Consistent) :
    ({ p with
      nextTransport := p.nextTransport + 1
      connections := p.connections ++ [p.nextTransport]
      threads := p.threads ++
        [⟨p.hosts.map Host.fingerprint, false, .handshake⟩] } :
      Process).Consistent := by
  have hthread {i : ℕ} {thread new : TransportThread}
      (hnew : new.stage = .handshake)
      (hi : (p.threads ++ [new])[i]? = some thread) :
      p.threads[i]? = some thread ∨
        i = p.threads.length ∧ thread.stage = .handshake := by
    rw [List.getElem?_append] at hi
    split at hi
    · exact .inl hi
    · rw [List.getElem?_singleton] at hi
      split at hi
      · cases hi
        exact .inr ⟨by omega, hnew⟩
      · cases hi
  constructor
  · simp [h.next_eq]
  · intro i thread hi hstage
    rcases hthread rfl hi with hold | ⟨rfl, -⟩
    · exact List.mem_append_left _ (h.connected i thread hold hstage)
    · exact List.mem_append_right _ (by simp [h.next_eq])
  · intro i thread hi
    rcases hthread rfl hi with hold | ⟨-, hstage⟩
    · exact h.awaits i thread hold
    · rw [hstage]
      trivial
  · intro c r progress hc hrunning
    have howned := h.owned c r progress hc hrunning
    cases r with
    | authenticated t fp =>
        obtain ⟨i, thread, ht, hi, hstage⟩ := howned
        exact ⟨i, thread, ht, getElem?_extend hi _, hstage⟩
    | disconnected t =>
        obtain ⟨i, thread, ht, hi, hstage⟩ := howned
        exact ⟨i, thread, ht, getElem?_extend hi _, hstage⟩
    | _ => trivial
  · intro i thread fp hi hknown
    rcases hthread rfl hi with hold | ⟨-, hstage⟩
    · exact h.peers i thread fp hold hknown
    · rw [hstage] at hknown
      exact hknown.elim

theorem Consistent.main (h : p.Consistent)
    {item : Option (Message × List Fd)} (hdone : p.MainDone item p') :
    p'.Consistent := by
  cases hdone with
  | boot | window | pairing | acceptPairing =>
      exact h.congr (fun _ => rfl) rfl rfl rfl (fun _ => rfl) h.connected
  | reply id ok text fds =>
      exact h.congr (Broker.stateOf_deliver _ _ _) rfl rfl rfl (fun _ => rfl)
        h.connected
  | hosts hosts =>
      have hread : { p.advance with hosts := hosts }.Consistent :=
        h.congr (fun _ => rfl) rfl rfl rfl (fun _ => rfl) h.connected
      exact hread.stopWhere _
  | sweep =>
      refine h.congr (fun _ => rfl) rfl rfl rfl (fun _ => rfl) ?_
      intro i thread hi hstage
      refine List.mem_filter.mpr ⟨h.connected i thread hi hstage, ?_⟩
      simp [finished, hi, hstage]
  | expire stops => exact h.stopWhere stops
  | accept => exact h.accept
  | exit => exact h.exit

/-- Two calls of one transport that are not over are the same call. -/
theorem Consistent.owner (h : p.Consistent) {i c : ℕ} {r : Request}
    {progress : Progress} {thread : TransportThread}
    (hi : p.threads[i]? = some thread) (hc : p.broker.stateOf c = some (r, progress))
    (hrunning : ∀ result, progress ≠ .returned result) :
    (∀ fp, r = .authenticated (i + 1) fp → thread.stage = .authenticating fp c) ∧
      (r = .disconnected (i + 1) → thread.stage = .leaving c) := by
  have howned := h.owned c r progress hc hrunning
  refine ⟨?_, ?_⟩
  · rintro fp rfl
    obtain ⟨j, other, ht, hj, hstage⟩ := howned
    obtain rfl : i = j := by omega
    obtain rfl := Option.some_inj.mp (hi.symm.trans hj)
    exact hstage
  · rintro rfl
    obtain ⟨j, other, ht, hj, hstage⟩ := howned
    obtain rfl : i = j := by omega
    obtain rfl := Option.some_inj.mp (hi.symm.trans hj)
    exact hstage

/-- An access of a call that does not own the thread leaves its peer. -/
theorem Consistent.peer_other (h : p.Consistent) {i c : ℕ} {call : Call}
    {part : CallStep} {b : Broker} {thread : TransportThread}
    (hi : p.threads[i]? = some thread) (hc : p.broker.calls[c]? = some call)
    (hstep : Broker.Advanced p.broker c call part b)
    (hother : (∀ fp, thread.stage ≠ .authenticating fp c) ∧
      thread.stage ≠ .leaving c) :
    b.peers[i + 1]? = p.broker.peers[i + 1]? := by
  have hstate : p.broker.stateOf c = some (call.request, call.progress) := by
    simp [Broker.stateOf, hc]
  have hne (hrunning : ∀ result, call.progress ≠ .returned result) :
      (∀ fp, call.request ≠ .authenticated (i + 1) fp) ∧
        call.request ≠ .disconnected (i + 1) := by
    obtain ⟨hauth, hleave⟩ := h.owner hi hstate hrunning
    exact ⟨fun fp hr => hother.1 fp (hauth fp hr), fun hr => hother.2 (hleave hr)⟩
  cases hstep
  case announce hp =>
    obtain ⟨hauth, hleave⟩ := hne (by simp [hp])
    cases hr : call.request with
    | authenticated t fp =>
        have ht : t ≠ i + 1 := fun heq => hauth fp (by rw [hr, heq])
        simp [Request.announce, Std.TreeMap.getElem?_insert, ht]
    | disconnected t =>
        have ht : t ≠ i + 1 := fun heq => hleave (by rw [hr, heq])
        simp [Request.announce, Std.TreeMap.getElem?_erase, ht]
    | _ => rfl
  case finish result hp =>
    obtain ⟨hauth, -⟩ := hne (by simp [hp])
    cases hr : call.request with
    | authenticated t fp =>
        have ht : t ≠ i + 1 := fun heq => hauth fp (by rw [hr, heq])
        cases result <;>
          simp [Request.retract, Std.TreeMap.getElem?_erase, ht]
    | _ => rfl
  all_goals rfl

/-- The call that a thread authenticates with enters its host into `peers` at
the start and takes it out only when it fails. -/
theorem Consistent.peer_own (h : p.Consistent) {i c : ℕ} {call call' : Call}
    {fp : String} {part : CallStep} {b : Broker} {thread : TransportThread}
    (hi : p.threads[i]? = some thread) (hstage : thread.stage = .authenticating fp c)
    (hc : p.broker.calls[c]? = some call)
    (hstep : Broker.Advanced p.broker c call part b)
    (hcall' : b.calls[c]? = some call')
    (hkept : ∀ error, call'.progress ≠ .returned (.error error)) :
    b.peers[i + 1]? = some fp := by
  have hstate : p.broker.stateOf c = some (call.request, call.progress) := by
    simp [Broker.stateOf, hc]
  have hauth : call.request = .authenticated (i + 1) fp := by
    have hawaits := h.awaits i thread hi
    rw [hstage] at hawaits
    obtain ⟨progress, hawaits⟩ := hawaits
    rw [hstate] at hawaits
    exact (Prod.mk.inj (Option.some_inj.mp hawaits)).1
  have hbefore (hne : call.progress ≠ .identified)
      (hrunning : ∀ result, call.progress ≠ .returned result) :
      p.broker.peers[i + 1]? = some fp := by
    refine h.peers i thread fp hi ?_
    rw [hstage]
    exact ⟨rfl, _, _, hstate, hne, fun error => hrunning _⟩
  cases hstep with
  | announce hp => simp [hauth, Request.announce]
  | finish result hp =>
      cases result with
      | ok value =>
          rw [hauth]
          exact hbefore (by simp [hp]) (by simp [hp])
      | error error =>
          have hput : (p.broker.put c
              (call.moved (.returned (.error error)))).calls[c]? = some call' :=
            hcall'
          rw [Broker.put_calls hc, if_pos rfl, Option.some_inj] at hput
          exact absurd (by rw [← hput]; rfl) (hkept error)
  | enroll hp | send hp | sendFailed error hp | receive k answer hp
  | giveUp error hp | withdraw result hp =>
      exact hbefore (by simp [hp]) (by simp [hp])

theorem Consistent.advance (h : p.Consistent) {c : ℕ} {part : CallStep}
    {b : Broker} (hadvance : p.broker.advance c part = some b) :
    { p with broker := b }.Consistent := by
  obtain ⟨call, hc, hstep⟩ := Broker.advance_cases hadvance
  have hstate : p.broker.stateOf c = some (call.request, call.progress) := by
    simp [Broker.stateOf, hc]
  obtain ⟨call', hcalls, -, hrequest, -⟩ := hstep.moved hc
  have hstates (i : ℕ) : b.stateOf i =
      if i = c then some (call.request, call'.progress)
      else p.broker.stateOf i := by
    simp only [Broker.stateOf, hcalls]
    split
    · simp [hrequest]
    · rfl
  have hstate' : ∀ i r progress, p.broker.stateOf i = some (r, progress) →
      ∃ progress', b.stateOf i = some (r, progress') := by
    intro i r progress hi
    rw [hstates]
    split
    · next heq =>
      subst heq
      rw [hstate, Option.some_inj] at hi
      obtain ⟨rfl, -⟩ := Prod.mk.inj hi
      exact ⟨_, rfl⟩
    · exact ⟨progress, hi⟩
  constructor
  · exact h.next_eq
  · exact h.connected
  · intro i thread hi
    have hawaits := h.awaits i thread hi
    cases hstage : thread.stage with
    | authenticating fp c' =>
        rw [hstage] at hawaits
        obtain ⟨progress, hc'⟩ := hawaits
        exact hstate' _ _ _ hc'
    | asking fp c' =>
        rw [hstage] at hawaits
        obtain ⟨r, progress, hc', hsession⟩ := hawaits
        obtain ⟨progress', hc''⟩ := hstate' _ _ _ hc'
        exact ⟨r, progress', hc'', hsession⟩
    | leaving c' =>
        rw [hstage] at hawaits
        obtain ⟨progress, hc'⟩ := hawaits
        exact hstate' _ _ _ hc'
    | _ => trivial
  · intro i r progress hi hrunning
    rw [hstates] at hi
    split at hi
    · next heq =>
      subst heq
      obtain ⟨rfl, rfl⟩ := Prod.mk.inj (Option.some_inj.mp hi)
      refine h.owned i call.request call.progress hstate ?_
      intro result hreturned
      cases hstep <;> simp_all
    · exact h.owned i r progress hi hrunning
  · intro i thread fp hi hknown
    by_cases hown : (∀ fp, thread.stage ≠ .authenticating fp c) ∧
        thread.stage ≠ .leaving c
    · rw [h.peer_other hi hc hstep hown]
      refine h.peers i thread fp hi ?_
      cases hstage : thread.stage with
      | authenticating fp' c' =>
          rw [hstage] at hknown
          obtain ⟨heq, r, progress, hc', hprogress⟩ := hknown
          rw [hstates, if_neg] at hc'
          · exact ⟨heq, r, progress, hc', hprogress⟩
          · rintro rfl
            exact hown.1 fp' hstage
      | serving | asking => rw [hstage] at hknown; exact hknown
      | handshake | leaving | ended => rw [hstage] at hknown; exact hknown.elim
    · obtain ⟨fp', hstage⟩ : ∃ fp', thread.stage = .authenticating fp' c := by
        by_contra hnone
        refine hown ⟨fun fp' heq => hnone ⟨fp', heq⟩, fun heq => ?_⟩
        rw [heq] at hknown
        exact hknown
      rw [hstage] at hknown
      obtain ⟨rfl, r, progress, hc', hstarted, hkept⟩ := hknown
      rw [hstates, if_pos rfl] at hc'
      obtain ⟨-, rfl⟩ := Prod.mk.inj (Option.some_inj.mp hc')
      have hcall' := hcalls c
      rw [if_pos rfl] at hcall'
      exact h.peer_own hi hstage hc hstep hcall' hkept

/-- A thread that waits for no running call takes its next step, alone or with
a new call. -/
theorem Consistent.setStage (h : p.Consistent) {i : ℕ} {b : Broker}
    {thread : TransportThread} {stage : TransportStage}
    (hi : p.threads[i]? = some thread) (hlive : thread.stage ≠ .ended)
    (hfree : ∀ c, (∃ fp, thread.stage = .authenticating fp c) ∨
      thread.stage = .leaving c → ∃ result, p.broker.returned c = some result)
    (hold : ∀ c state, p.broker.stateOf c = some state → b.stateOf c = some state)
    (hnew : ∀ c r progress, b.stateOf c = some (r, progress) →
      p.broker.stateOf c = some (r, progress) ∨
        ({ p with broker := b }.setStage i stage).Owned c r)
    (hpeers : b.peers = p.broker.peers) (hawaits : stage.Awaits b i)
    (hknown : ∀ fp, stage.Known b fp → p.broker.peers[i + 1]? = some fp) :
    ({ p with broker := b }.setStage i stage).Consistent := by
  have hthreads := @setStage_threads { p with broker := b } i thread hi stage
  constructor
  · simp [Process.setStage, h.next_eq]
  · intro j other hj hstage
    rw [hthreads] at hj
    split at hj
    · next heq => exact heq ▸ h.connected i thread hi hlive
    · exact h.connected j other hj hstage
  · intro j other hj
    rw [hthreads] at hj
    split at hj
    · next heq =>
      cases hj
      exact heq ▸ hawaits
    · exact (h.awaits j other hj).mono hold
  · intro c r progress hc hrunning
    rcases hnew c r progress hc with hc' | howned
    · have howned := h.owned c r progress hc' hrunning
      have hother {j : ℕ} {other : TransportThread}
          (hj : p.threads[j]? = some other)
          (hwaits : (∃ fp, other.stage = .authenticating fp c) ∨
            other.stage = .leaving c) :
          ({ p with broker := b }.setStage i stage).threads[j]? = some other := by
        rw [hthreads, if_neg]
        · exact hj
        · rintro rfl
          obtain rfl := Option.some_inj.mp (hi.symm.trans hj)
          obtain ⟨result, hresult⟩ := hfree c hwaits
          obtain ⟨r', hstate⟩ := Broker.returned_eq.mp hresult
          rw [hc', Option.some_inj] at hstate
          exact hrunning result (Prod.mk.inj hstate).2
      cases r with
      | authenticated t fp =>
          obtain ⟨j, other, ht, hj, hstage⟩ := howned
          exact ⟨j, other, ht, hother hj (.inl ⟨fp, hstage⟩), hstage⟩
      | disconnected t =>
          obtain ⟨j, other, ht, hj, hstage⟩ := howned
          exact ⟨j, other, ht, hother hj (.inr hstage), hstage⟩
      | _ => trivial
    · exact howned
  · intro j other fp hj hknows
    have hgoal : p.broker.peers[j + 1]? = some fp := by
      rw [hthreads] at hj
      split at hj
      · next heq =>
        cases hj
        exact heq ▸ hknown fp hknows
      · exact h.peers j other fp hj (hknows.before (h.awaits j other hj) hold)
    exact (congrArg (·[j + 1]?) hpeers).trans hgoal

/-- A thread goes on without a call. -/
theorem Consistent.goOn (h : p.Consistent) {i : ℕ} {thread : TransportThread}
    {stage : TransportStage} (hi : p.threads[i]? = some thread)
    (hlive : thread.stage ≠ .ended)
    (hfree : ∀ c, (∃ fp, thread.stage = .authenticating fp c) ∨
      thread.stage = .leaving c → ∃ result, p.broker.returned c = some result)
    (hawaits : stage.Awaits p.broker i)
    (hknown : ∀ fp, stage.Known p.broker fp → p.broker.peers[i + 1]? = some fp) :
    (p.setStage i stage).Consistent :=
  h.setStage hi hlive hfree (fun _ _ hc => hc) (fun _ _ _ hc => .inl hc) rfl
    hawaits hknown

/-- A thread that waits for nothing enters a call. -/
theorem Consistent.enters (h : p.Consistent) {i : ℕ} {b : Broker}
    {r : Request} {thread : TransportThread} {stage : TransportStage}
    (hi : p.threads[i]? = some thread)
    (hidle : thread.stage = .handshake ∨ ∃ fp, thread.stage = .serving fp)
    (hcall : p.broker.call r = some b)
    (howned : ({ p with broker := b }.setStage i stage).Owned
      p.broker.calls.length r)
    (hawaits : stage.Awaits b i)
    (hknown : ∀ fp, stage.Known b fp → p.broker.peers[i + 1]? = some fp) :
    ({ p with broker := b }.setStage i stage).Consistent := by
  have hstates := Broker.stateOf_call hcall
  refine h.setStage hi ?_ ?_ (Broker.stateOf_kept hcall) ?_
    (Broker.peers_call hcall) hawaits hknown
  · rcases hidle with heq | ⟨fp, heq⟩ <;> simp [heq]
  · intro c hwaits
    rcases hidle with heq | ⟨fp, heq⟩ <;> simp [heq] at hwaits
  · intro c r' progress hc
    rw [hstates] at hc
    split at hc
    · next heq =>
      obtain ⟨rfl, -⟩ := Prod.mk.inj (Option.some_inj.mp hc)
      exact .inr (heq ▸ howned)
    · exact .inl hc

theorem Consistent.transport (h : p.Consistent) {i : ℕ}
    {thread : TransportThread} (hi : p.threads[i]? = some thread)
    (hdone : p.TransportDone i thread.stage p') : p'.Consistent := by
  have hawaits := h.awaits i thread hi
  have hpeer := h.peers i thread
  have hset (b : Broker) (stage : TransportStage) := @setStage_threads
    { p with broker := b } i thread hi stage i
  have hnewest {r : Request} {b : Broker} (hcall : p.broker.call r = some b) :
      b.stateOf p.broker.calls.length = some (r, .identified) := by
    rw [Broker.stateOf_call hcall, if_pos rfl]
  cases hdone with
  | authenticate fp b hstage hcall =>
      refine h.enters hi (.inl hstage) hcall ?_ ⟨_, hnewest hcall⟩ ?_
      · exact ⟨i, _, rfl, (hset b _).trans (if_pos rfl), rfl⟩
      · rintro fp' ⟨-, r, progress, hc, hne, -⟩
        rw [hnewest hcall] at hc
        exact absurd (Prod.mk.inj (Option.some_inj.mp hc)).2.symm hne
  | fail hstage =>
      refine h.goOn hi (by simp [hstage]) ?_ trivial (fun _ hknown => hknown.elim)
      simp [hstage]
  | ask fp r b hstage hsession hcall =>
      refine h.enters hi (.inr ⟨fp, hstage⟩) hcall ?_
        ⟨r, _, hnewest hcall, hsession⟩ ?_
      · cases r <;> trivial
      · rintro fp' rfl
        exact hpeer _ hi (by rw [hstage]; rfl)
  | leave fp b hstage hcall =>
      refine h.enters hi (.inr ⟨fp, hstage⟩) hcall ?_ ⟨_, hnewest hcall⟩
        (fun _ hknown => hknown.elim)
      exact ⟨i, _, rfl, (hset b _).trans (if_pos rfl), rfl⟩
  | granted fp c value hstage hreturned =>
      refine h.goOn hi (by simp [hstage]) ?_ trivial ?_
      · rintro c' (⟨fp', heq⟩ | heq)
        · rw [hstage] at heq
          cases heq
          exact ⟨_, hreturned⟩
        · simp [hstage] at heq
      · rintro fp' rfl
        refine hpeer _ hi ?_
        obtain ⟨r, hc⟩ := Broker.returned_eq.mp hreturned
        rw [hstage]
        exact ⟨rfl, r, _, hc, by simp, by simp⟩
  | refused fp c error hstage hreturned =>
      refine h.goOn hi (by simp [hstage]) ?_ trivial (fun _ hknown => hknown.elim)
      rintro c' (⟨fp', heq⟩ | heq)
      · rw [hstage] at heq
        cases heq
        exact ⟨_, hreturned⟩
      · simp [hstage] at heq
  | answered fp c result hstage hreturned =>
      refine h.goOn hi (by simp [hstage]) (by simp [hstage]) trivial ?_
      rintro fp' rfl
      exact hpeer _ hi (by rw [hstage]; rfl)
  | left c result hstage hreturned =>
      refine h.goOn hi (by simp [hstage]) ?_ trivial (fun _ hknown => hknown.elim)
      rintro c' (⟨fp', heq⟩ | heq)
      · simp [hstage] at heq
      · rw [hstage] at heq
        cases heq
        exact ⟨_, hreturned⟩

/-- The calls of a pairing thread belong to no connection. -/
theorem Consistent.pairs (h : p.Consistent) {b : Broker} {epoch : ℕ}
    {key : Option String} (hcall : p.broker.call (.pairResult epoch key) = some b) :
    { p with broker := b }.Consistent := by
  have hstates := Broker.stateOf_call hcall
  have hold := @Broker.stateOf_kept p.broker b _ hcall
  refine ⟨h.next_eq, h.connected, ?_, ?_, ?_⟩
  · exact fun i thread hi => (h.awaits i thread hi).mono hold
  · intro c r progress hc hrunning
    rw [hstates] at hc
    split at hc
    · cases hc
      trivial
    · exact h.owned c r progress hc hrunning
  · intro i thread fp hi hknows
    refine (congrArg (·[i + 1]?) (Broker.peers_call hcall)).trans
      (h.peers i thread fp hi (hknows.before (h.awaits i thread hi) hold))

theorem Consistent.pairing (h : p.Consistent) {codec : KeyCodec} {j : ℕ}
    {thread : PairingThread} {part : PairingPart}
    (hdone : p.PairingDone codec j thread part p') : p'.Consistent := by
  have hset {q : Process} (hq : q.Consistent) (stage : PairingStage) :
      (q.setPairing j stage).Consistent :=
    hq.congr (fun _ => rfl) rfl rfl rfl (fun _ => rfl) hq.connected
  cases hdone with
  | commit key fp name b hstage hkey hcall => exact hset (h.pairs hcall) _
  | report b hstage hcall => exact hset (h.pairs hcall) _
  | acknowledge | fail | granted | refused | reported => exact hset h _

end Process

namespace System

variable {codec : KeyCodec} {allowed : System → Action → Prop}
  {s s' : System} {action : Action}

theorem Drops.consistent {process process' : Option Process}
    (hdrops : Drops process process')
    (h : ∀ p, process = some p → p.Consistent) (p : Process)
    (hp : process' = some p) : p.Consistent := by
  rcases hdrops with rfl | ⟨q, posted, rest, hq, -, -, rfl⟩
  · exact h p hp
  · cases hp
    exact (h q hq).congr (fun _ => rfl) rfl rfl rfl (fun _ => rfl)
      (h q hq).connected

theorem Done.consistent (hlinked : Linked codec s)
    (h : ∀ p, s.worker = some p → p.Consistent)
    (hdone : Done codec s action s') (p : Process)
    (hp : s'.worker = some p) : p.Consistent := by
  cases hdone with
  | idle env part process htime hidle hprocess =>
      cases @Linked.followed codec s hlinked env part hidle process
          hprocess.isSome with
      | kept q w messages hq hw hkeeps _ heq =>
          obtain rfl := Option.some_inj.mp (heq.symm.trans hp)
          exact hprocess.consistent h _ hq
      | replaced hfresh _ _ heq =>
          rw [heq, Option.map_eq_some_iff] at hp
          obtain ⟨w, -, rfl⟩ := hp
          exact Process.initial_consistent
  | request env id r q caller rest htime hquit hworker houtbox =>
      obtain ⟨w, outcome, d, messages, replies, hreplied⟩ :=
        @Linked.replied codec s hlinked env id r q
          { q with broker := { q.broker with outbox := rest } } hworker hquit
      obtain rfl := Option.some_inj.mp (hreplied.process_eq.symm.trans hp)
      exact (h q hworker).congr (fun _ => rfl) rfl rfl rfl (fun _ => rfl)
        (h q hworker).connected
  | main part q q' hworker hdone =>
      cases hp
      exact (h q hworker).main hdone
  | call c part q b hworker hadvance =>
      cases hp
      exact (h q hworker).advance hadvance
  | transport i part q q' thread hworker hthread hdone =>
      cases hp
      exact (h q hworker).transport hthread hdone
  | pairing j part q q' thread events hworker hthread hdone =>
      cases hp
      exact (h q hworker).pairing hdone

/-- In every run the threads, calls and peers of the worker fit together. -/
theorem Reachable.consistent (h : Reachable codec allowed s) {p : Process}
    (hp : s.worker = some p) : p.Consistent := by
  have hrun : Linked codec s ∧ ∀ p, s.worker = some p → p.Consistent := by
    refine @Transition.Reachable.invariant _ _ _
      (fun s => Linked codec s ∧ ∀ p, s.worker = some p → p.Consistent)
      ?_ ?_ s h
    · intro s hinit
      refine ⟨hinit.linked, fun p hp => ?_⟩
      rw [hinit.2.1] at hp
      cases hp
    · rintro s s' - ⟨hlinked, hconsistent⟩ ⟨action, -, hact⟩
      exact ⟨(act_done hact).linked hlinked,
        (act_done hact).consistent hlinked hconsistent⟩
  exact hrun.2 p hp

end System

end Altdb
