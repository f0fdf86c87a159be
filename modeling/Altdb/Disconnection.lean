import Altdb.Revocation

/-!
# The table of connections

The supervisor has eight places for connections.  A thread that was let in
gives its place back by `Disconnected` when it leaves.  A thread whose
`Authenticated` call fails leaves without it: this loses the place when the
call failed only because the reply was late.
-/

namespace Altdb

open Fallible Relation

/-- A request to give the place of a transport back is on its way. -/
def Broker.Leaves (b : Broker) (t : ℕ) : Prop :=
  ∃ posted ∈ b.outbox, ∃ id, posted.message = .request id (.disconnected t)

/-- A thread in this stage has yet to be served the end of its connection. -/
def TransportStage.Holds (inbox : List (Message × List Fd)) (b : Broker)
    (i : ℕ) : TransportStage → Prop
  | .authenticating _ c => System.Granted inbox c ∧ ∀ r progress error,
      b.stateOf c = some (r, progress) →
        progress.result? ≠ some (.error error)
  | .serving _ | .asking _ _ => True
  | .leaving c => (∃ r progress, b.stateOf c = some (r, progress) ∧
      ¬progress.Posted) ∨ b.Leaves (i + 1)
  | .ended => b.Leaves (i + 1)
  | .handshake => False

/-- Every entry of the table belongs to a thread that will give it back. -/
def Process.Accounted (transports : Transports)
    (inbox : List (Message × List Fd)) (p : Process) : Prop :=
  ∀ (t : ℕ) (fp : String), transports[t]? = some fp → ∃ i thread, t = i + 1 ∧
    p.threads[i]? = some thread ∧ thread.stage.Holds inbox p.broker i

namespace TransportStage

variable {inbox inbox' : List (Message × List Fd)} {b b' : Broker} {i : ℕ}

theorem Holds.mono {stage : TransportStage} (h : stage.Holds inbox b i)
    (hgranted : ∀ c, System.Granted inbox c → System.Granted inbox' c)
    (hstate : ∀ c, b'.stateOf c = b.stateOf c)
    (hleaves : b.Leaves (i + 1) → b'.Leaves (i + 1)) :
    stage.Holds inbox' b' i := by
  cases stage with
  | authenticating fp c =>
      refine ⟨hgranted c h.1, fun r progress error hc => ?_⟩
      exact h.2 r progress error ((hstate c).symm.trans hc)
  | leaving c =>
      refine h.imp ?_ hleaves
      rintro ⟨r, progress, hc, hposted⟩
      exact ⟨r, progress, (hstate c).trans hc, hposted⟩
  | ended => exact hleaves h
  | serving | asking => trivial
  | handshake => exact h.elim

/-- New calls change nothing for a stage. -/
theorem Holds.called {stage : TransportStage} (h : stage.Holds inbox b i)
    (hawaits : stage.Awaits b i)
    (hold : ∀ c state, b.stateOf c = some state → b'.stateOf c = some state)
    (houtbox : b'.outbox = b.outbox) : stage.Holds inbox b' i := by
  have hleaves (hbefore : b.Leaves (i + 1)) : b'.Leaves (i + 1) := by
    obtain ⟨posted, hmem, id, hmessage⟩ := hbefore
    exact ⟨posted, houtbox ▸ hmem, id, hmessage⟩
  cases stage with
  | authenticating fp c =>
      obtain ⟨before, hc⟩ := hawaits
      refine ⟨h.1, fun r progress error hc' => ?_⟩
      have hsame := (hold _ _ hc).symm.trans hc'
      exact h.2 r progress error (hsame ▸ hc)
  | leaving c =>
      refine h.imp ?_ hleaves
      rintro ⟨r, progress, hc, hposted⟩
      exact ⟨r, progress, hold _ _ hc, hposted⟩
  | ended => exact hleaves h
  | serving | asking => trivial
  | handshake => exact h.elim

end TransportStage

namespace Process

variable {transports transports' : Transports}
  {inbox inbox' : List (Message × List Fd)} {p p' : Process}

theorem Accounted.congr (h : p.Accounted transports inbox)
    (htransports : ∀ (t : ℕ) (fp : String),
      transports'[t]? = some fp → transports[t]? = some fp)
    (hholds : ∀ (i : ℕ) (thread : TransportThread) (fp : String),
      transports'[i + 1]? = some fp → p.threads[i]? = some thread →
      thread.stage.Holds inbox p.broker i → ∃ thread',
        p'.threads[i]? = some thread' ∧
          thread'.stage.Holds inbox' p'.broker i) :
    p'.Accounted transports' inbox' := by
  intro t fp ht
  obtain ⟨i, thread, rfl, hi, hstage⟩ := h t fp (htransports t fp ht)
  obtain ⟨thread', hi', hstage'⟩ := hholds i thread fp ht hi hstage
  exact ⟨i, thread', rfl, hi', hstage'⟩

/-- A step that leaves the stages and the calls alone. -/
theorem Accounted.still (h : p.Accounted transports inbox)
    (hstate : ∀ c, p'.broker.stateOf c = p.broker.stateOf c)
    (houtbox : p.broker.outbox ⊆ p'.broker.outbox)
    (hthreads : ∀ (i : ℕ) (thread : TransportThread),
      p.threads[i]? = some thread → ∃ thread', p'.threads[i]? = some thread' ∧
        thread'.stage = thread.stage) : p'.Accounted transports inbox := by
  refine h.congr (fun _ _ ht => ht) ?_
  intro i thread fp _ hi hstage
  obtain ⟨thread', hi', heq⟩ := hthreads i thread hi
  refine ⟨thread', hi', heq ▸ hstage.mono (fun _ hc => hc) hstate ?_⟩
  rintro ⟨posted, hmem, id, hmessage⟩
  exact ⟨posted, houtbox hmem, id, hmessage⟩

theorem Accounted.stopWhere (h : p.Accounted transports inbox)
    (stops : ℕ → Bool) : (p.stopWhere stops).Accounted transports inbox := by
  refine h.still (fun _ => rfl) (fun _ hmem => hmem) ?_
  intro i thread hi
  have hmap := stopWhere_stage stops p i
  rw [hi, Option.map_some, Option.map_eq_some_iff] at hmap
  exact hmap

theorem Accounted.main (h : p.Accounted transports inbox)
    {item : Option (Message × List Fd)} (hdone : p.MainDone item p') :
    p'.Accounted transports inbox := by
  have hkept (i : ℕ) (thread : TransportThread)
      (hi : p.threads[i]? = some thread) : ∃ thread',
        p.threads[i]? = some thread' ∧ thread'.stage = thread.stage :=
    ⟨thread, hi, rfl⟩
  cases hdone with
  | boot =>
      exact h.still (fun _ => rfl) (List.subset_append_left _ _) hkept
  | pairing | sweep | window | acceptPairing =>
      exact h.still (fun _ => rfl) (fun _ hmem => hmem) hkept
  | reply id ok text fds =>
      exact h.still (Broker.stateOf_deliver _ _ _) (fun _ hmem => hmem) hkept
  | hosts hosts =>
      have hread : { p.advance with hosts := hosts }.Accounted transports inbox :=
        h.still (fun _ => rfl) (fun _ hmem => hmem) hkept
      exact hread.stopWhere _
  | expire stops => exact h.stopWhere stops
  | accept =>
      exact h.still (fun _ => rfl) (fun _ hmem => hmem)
        fun i thread hi => ⟨thread, getElem?_extend hi _, rfl⟩
  | exit =>
      exact (h.stopWhere fun _ => true).still (fun _ => rfl)
        (fun _ hmem => hmem) fun i thread hi => ⟨thread, hi, rfl⟩

/-- The answer to a granted call is a success. -/
theorem granted_answer {c k : ℕ} {call : Call} {answer : Answer}
    (hinv : (System.exchange inbox p).Invariant)
    (hgranted : System.Granted inbox c) (hc : p.broker.calls[c]? = some call)
    (hbuffer : call.buffer = some (k, answer)) : answer.ok = true := by
  have hsound := hinv.consistent.sound c call hc
  have harrival := hsound.buffered k answer hbuffer
  rw [hinv.arrivals_eq, List.getElem?_map, Option.map_eq_some_iff] at harrival
  obtain ⟨reply, hreply, heq⟩ := harrival
  obtain ⟨hid, rfl⟩ := Prod.mk.inj heq
  have hmem : reply ∈ (System.exchange inbox p).replies ++
      (System.exchange inbox p).arrived :=
    List.mem_append_right _ (List.mem_of_getElem? hreply)
  obtain ⟨other, hother, hcaller, hok⟩ := hgranted
  have hsame : other = reply := by
    have honce := (List.nodup_append.mp hinv.once).2.1
    refine List.inj_on_of_nodup_map honce
      ((@System.mem_exchange inbox p other).mp hother) hmem ?_
    have haddressed := hinv.addressed reply hmem
    have hown := hsound.id_eq
    omega
  exact hsame ▸ hok

/-- An access to the call that a thread waits for. -/
theorem advance_holds {c i : ℕ} {call : Call} {part : CallStep} {b : Broker}
    {stage : TransportStage}
    (hinv : (System.exchange inbox p).Invariant)
    (hc : p.broker.calls[c]? = some call)
    (hstep : Broker.Advanced p.broker c call part b)
    (hsent : ∀ error, part ≠ .send (.error error))
    (hwaits : ∀ error fp, part = .giveUp error →
      call.request ≠ .authenticated (i + 1) fp)
    (hawaits : stage.Awaits p.broker i) (h : stage.Holds inbox p.broker i) :
    stage.Holds inbox b i := by
  have hstate : p.broker.stateOf c = some (call.request, call.progress) := by
    simp [Broker.stateOf, hc]
  have houtbox : p.broker.outbox ⊆ b.outbox := by
    cases hstep
    case send => exact List.subset_append_left _ _
    all_goals exact fun _ hmem => hmem
  have hother (c' : ℕ) (hne : c' ≠ c) : b.stateOf c' = p.broker.stateOf c' := by
    obtain ⟨call', hcalls, -⟩ := hstep.moved hc
    simp [Broker.stateOf, hcalls, hne]
  have hleaves (hbefore : p.broker.Leaves (i + 1)) : b.Leaves (i + 1) := by
    obtain ⟨posted, hmem, id, hmessage⟩ := hbefore
    exact ⟨posted, houtbox hmem, id, hmessage⟩
  cases stage with
  | authenticating fp c' =>
      obtain ⟨hgranted, hresult⟩ := h
      refine ⟨hgranted, fun r progress error hc' => ?_⟩
      by_cases hne : c' ≠ c
      · exact hresult r progress error ((hother c' hne).symm.trans hc')
      · obtain rfl := not_not.mp hne
        obtain ⟨before, hbefore⟩ := hawaits
        rw [hstate, Option.some_inj] at hbefore
        have hrequest := (Prod.mk.inj hbefore).1
        have hold := hresult call.request call.progress
        have hput (call' : Call) :=
          (@Broker.stateOf_put p.broker c' call hc call' c').trans (if_pos rfl)
        cases hstep with
        | announce | enroll | send =>
            obtain ⟨-, rfl⟩ := Prod.mk.inj
              (Option.some_inj.mp (hc'.symm.trans (hput _)))
            intro hresult
            cases hresult
        | sendFailed error' => exact absurd rfl (hsent error')
        | giveUp error' => exact absurd hrequest (hwaits error' fp rfl)
        | receive k answer hp hbuffer =>
            obtain ⟨-, rfl⟩ := Prod.mk.inj
              (Option.some_inj.mp (hc'.symm.trans (hput _)))
            have hok := granted_answer hinv hgranted hc hbuffer
            simp [Call.moved, Progress.result?, Answer.result, hok]
        | withdraw result hp | finish result hp =>
            obtain ⟨-, rfl⟩ := Prod.mk.inj
              (Option.some_inj.mp (hc'.symm.trans (hput _)))
            have hkept := hold error hstate
            rw [hp] at hkept
            exact hkept
  | leaving c' =>
      rcases h with ⟨r, progress, hc', hposted⟩ | hbefore
      · by_cases hne : c' ≠ c
        · exact .inl ⟨r, progress, (hother c' hne).trans hc', hposted⟩
        · obtain rfl := not_not.mp hne
          rw [hstate, Option.some_inj] at hc'
          obtain ⟨rfl, rfl⟩ := Prod.mk.inj hc'
          have hput (call' : Call) :=
            (@Broker.stateOf_put p.broker c' call hc call' c').trans (if_pos rfl)
          cases hstep with
          | announce => exact .inl ⟨_, _, hput _, not_false⟩
          | enroll => exact .inl ⟨_, _, hput _, not_false⟩
          | send =>
              obtain ⟨before, hbefore⟩ := hawaits
              rw [hstate, Option.some_inj] at hbefore
              refine .inr ⟨_, List.mem_append_right _ (List.mem_singleton_self _),
                call.id, ?_⟩
              rw [(Prod.mk.inj hbefore).1]
          | sendFailed error' => exact absurd rfl (hsent error')
          | giveUp _ hp | receive _ _ hp | withdraw _ hp | finish _ hp =>
              rw [hp] at hposted
              exact absurd trivial hposted
      · exact .inr (hleaves hbefore)
  | ended => exact hleaves h
  | serving | asking => trivial
  | handshake => exact h.elim

theorem Accounted.advance (h : p.Accounted transports inbox)
    (hconsistent : p.Consistent) (hinv : (System.exchange inbox p).Invariant)
    {part : CallStep} {c : ℕ} {b : Broker}
    (hadvance : p.broker.advance c part = some b)
    (hsent : ∀ error, part ≠ .send (.error error))
    (hprompt : ∀ error t fp progress, part = .giveUp error →
      p.broker.stateOf c = some (.authenticated t fp, progress) →
        transports[t]? = none) :
    { p with broker := b }.Accounted transports inbox := by
  obtain ⟨call, hc, hstep⟩ := Broker.advance_cases hadvance
  refine h.congr (fun _ _ ht => ht) ?_
  intro i thread fp ht hi hstage
  refine ⟨thread, hi, advance_holds hinv hc hstep hsent ?_
    (hconsistent.awaits i thread hi) hstage⟩
  intro error fp' hpart hrequest
  have hnone := hprompt error (i + 1) fp' call.progress hpart
    (by simp [Broker.stateOf, hc, hrequest])
  rw [hnone] at ht
  cases ht

/-- The stage of one thread changes, with a new call or without. -/
theorem Accounted.setStage (h : p.Accounted transports inbox) {i : ℕ}
    {b : Broker} {thread : TransportThread} {stage : TransportStage}
    (hconsistent : p.Consistent) (hi : p.threads[i]? = some thread)
    (hold : ∀ c state, p.broker.stateOf c = some state → b.stateOf c = some state)
    (houtbox : b.outbox = p.broker.outbox)
    (hstage : thread.stage.Holds inbox p.broker i → stage.Holds inbox b i) :
    ({ p with broker := b }.setStage i stage).Accounted transports inbox := by
  have hthreads := @setStage_threads { p with broker := b } i thread hi stage
  refine h.congr (fun _ _ ht => ht) ?_
  intro j other fp _ hj hholds
  by_cases heq : j = i
  · subst heq
    obtain rfl := Option.some_inj.mp (hi.symm.trans hj)
    exact ⟨_, (hthreads j).trans (if_pos rfl), hstage hholds⟩
  · refine ⟨other, ?_, ?_⟩
    · rw [hthreads, if_neg heq]
      exact hj
    · exact hholds.called (hconsistent.awaits j other hj) hold houtbox

theorem outbox_call {r : Request} {b : Broker} (h : p.broker.call r = some b) :
    b.outbox = p.broker.outbox := by
  obtain ⟨-, rfl⟩ := Broker.call_eq r h
  rfl

/-- A thread that was let in leaves by a request only. -/
theorem Accounted.transport (h : p.Accounted transports inbox)
    (hconsistent : p.Consistent) {i : ℕ} {thread : TransportThread}
    (hi : p.threads[i]? = some thread)
    (hdone : p.TransportDone i thread.stage p') :
    p'.Accounted transports inbox := by
  have hcalled {r : Request} {b : Broker} (hcall : p.broker.call r = some b) :
      b.stateOf p.broker.calls.length = some (r, .identified) := by
    rw [Broker.stateOf_call hcall, if_pos rfl]
  cases hdone with
  | authenticate fp b hstage hcall =>
      refine h.setStage hconsistent hi (Broker.stateOf_kept hcall)
        (outbox_call hcall) ?_
      rw [hstage]
      exact False.elim
  | fail hstage =>
      refine h.setStage hconsistent hi (fun _ _ hc => hc) rfl ?_
      rw [hstage]
      exact False.elim
  | ask fp r b hstage _ hcall =>
      exact h.setStage hconsistent hi (Broker.stateOf_kept hcall)
        (outbox_call hcall) fun _ => trivial
  | leave fp b hstage hcall =>
      exact h.setStage hconsistent hi (Broker.stateOf_kept hcall)
        (outbox_call hcall) fun _ => .inl ⟨_, _, hcalled hcall, not_false⟩
  | granted | answered =>
      exact h.setStage hconsistent hi (fun _ _ hc => hc) rfl fun _ => trivial
  | refused fp c error hstage hreturned =>
      refine h.setStage hconsistent hi (fun _ _ hc => hc) rfl ?_
      rw [hstage]
      rintro ⟨-, hresult⟩
      obtain ⟨r, hc⟩ := Broker.returned_eq.mp hreturned
      exact absurd rfl (hresult r _ error hc)
  | left c result hstage hreturned =>
      refine h.setStage hconsistent hi (fun _ _ hc => hc) rfl ?_
      rw [hstage]
      rintro (⟨r, progress, hc, hposted⟩ | hbefore)
      · obtain ⟨r', hc'⟩ := Broker.returned_eq.mp hreturned
        rw [hc', Option.some_inj] at hc
        obtain ⟨-, rfl⟩ := Prod.mk.inj hc
        exact absurd trivial hposted
      · exact hbefore

theorem Accounted.pairing (h : p.Accounted transports inbox)
    (hconsistent : p.Consistent) {codec : KeyCodec} {j : ℕ}
    {thread : PairingThread} {part : PairingPart}
    (hdone : p.PairingDone codec j thread part p') :
    p'.Accounted transports inbox := by
  have hset {q : Process} (hq : q.Accounted transports inbox)
      (stage : PairingStage) : (q.setPairing j stage).Accounted transports inbox :=
    hq.still (fun _ => rfl) (fun _ hmem => hmem) fun i thread hi =>
      ⟨thread, hi, rfl⟩
  have hcalls {b : Broker} {r : Request} (hcall : p.broker.call r = some b) :
      { p with broker := b }.Accounted transports inbox := by
    refine h.congr (fun _ _ ht => ht) fun i thread _ _ hi hholds => ⟨thread, hi, ?_⟩
    exact hholds.called (hconsistent.awaits i thread hi)
      (Broker.stateOf_kept hcall) (outbox_call hcall)
  cases hdone with
  | commit _ _ _ b _ _ hcall | report b _ hcall => exact hset (hcalls hcall) _
  | acknowledge | fail | granted | refused | reported => exact hset h _

end Process

namespace Daemon

/-- The conditions under which the supervisor lets a connection in. -/
def Grants (env : Env) (d : Daemon) (t : ℕ) (fp : String) : Prop :=
  d.transports.size < maxTransports ∧ t ∉ d.transports ∧ d.store.trusts fp ∧
    env.saved = .ok ()

variable {codec : KeyCodec} {env : Env} {d : Daemon}

theorem request_saved (t : ℕ) (fp : String) :
    wp (request codec env (.authenticated t fp))
      (fun _ _ => env.saved = .ok ()) (fun _ _ => True) d := by
  simp only [request, requestAuthenticated, wp_bind, wp_get, wp_ensure,
    wp_onStore]
  refine ⟨fun _ => ?_, fun _ => trivial⟩
  refine wp_mono (Store.connected_spec env.unixTime fp) ?_ (fun _ _ _ => trivial)
  rintro _ store ⟨-, hsaved, -⟩
  exact hsaved

theorem Handled.granted_saved {t : ℕ} {fp : String} {w : Worker}
    {outcome : Except String (String × List Fd)} {d' : Daemon}
    {messages : List (Message × List Fd)}
    (h : Handled codec env (.authenticated t fp) d w outcome d' messages)
    (hok : outcome.isOk) : d.Grants env t fp := by
  have hconnects := h.granted hok
  refine ⟨hconnects.1, hconnects.2.1, hconnects.2.2.1, ?_⟩
  have hsaved := @request_saved codec env d t fp
  have houtcome := h.outcome_eq
  unfold wp at hsaved
  split at hsaved
  · exact hsaved
  · next hrun =>
    rw [hrun] at houtcome
    rw [← houtcome] at hok
    cases hok

/-- A disconnection is never refused. -/
theorem Handled.disconnected {t : ℕ} {w : Worker}
    {outcome : Except String (String × List Fd)} {d' : Daemon}
    {messages : List (Message × List Fd)}
    (h : Handled codec env (.disconnected t) d w outcome d' messages) :
    outcome.isOk := by
  rw [← h.outcome_eq]
  rfl

end Daemon

namespace System

variable {codec : KeyCodec} {s s' : System} {action : Action}

/-- No call is given up that the supervisor has granted, and the supervisor
grants no call that was given up. -/
def Prompt (s : System) : Action → Prop
  | .call c (.giveUp _) => ∀ p t fp progress, s.worker = some p →
      p.broker.stateOf c = some (.authenticated t fp, progress) →
        t ∉ s.loop.daemon.transports
  | .supervisor env (.worker (.message (.request id (.authenticated t fp)) _)) =>
      s.loop.daemon.Grants env t fp → ∀ p, s.worker = some p →
        ∃ call ∈ p.broker.calls, call.id = id ∧ call.progress = .sent
  | _ => True

/-- The entries of the table belong to threads of the present worker. -/
def Accounted (s : System) : Prop :=
  ∀ p, s.worker = some p → p.Accounted s.loop.daemon.transports s.inbox

/-- A place is given to the thread that waits for it. -/
theorem Replied.connects {env : Env} {id t : ℕ} {fp : String}
    {p p₀ : Process} {w : Worker} {outcome : Except String (String × List Fd)}
    {d : Daemon} {messages replies : List (Message × List Fd)}
    (h : Replied codec env id (.authenticated t fp) p s s' w outcome d messages
      replies)
    (hreliable : Daemon.Reliable env) (hok : outcome.isOk)
    (hconsistent : p₀.Consistent) {call : Call}
    (hcall : p₀.broker.calls[id - 1]? = some call)
    (hrequest : call.request = .authenticated t fp)
    (hsent : call.progress = .sent) : ∃ i thread, t = i + 1 ∧
      p₀.threads[i]? = some thread ∧ ∃ c fp',
        thread.stage = .authenticating fp' c ∧
          thread.stage.Holds s'.inbox p₀.broker i := by
  have hstate : p₀.broker.stateOf (id - 1) = some (.authenticated t fp, .sent) := by
    simp [Broker.stateOf, hcall, hrequest, hsent]
  obtain ⟨i, thread, rfl, hi, hstage⟩ := hconsistent.owned (id - 1) _ .sent hstate
    (by simp)
  refine ⟨i, thread, rfl, hi, _, _, hstage, ?_⟩
  rw [hstage]
  refine ⟨?_, fun r progress error hc => ?_⟩
  · rw [h.inbox_eq]
    refine granted_append.mpr (.inr ?_)
    rcases h.replies_eq with heq | ⟨hunreliable, -⟩
    · rw [heq]
      refine ⟨_, by rw [filterMap_replyOf_reply]; exact List.mem_singleton_self _,
        rfl, ?_⟩
      cases outcome
      · cases hok
      · rfl
    · exact absurd hreliable hunreliable
  · rw [hstate] at hc
    obtain ⟨-, rfl⟩ := Prod.mk.inj (Option.some_inj.mp hc)
    intro hresult
    cases hresult

/-- Serving a request takes it from the socket. -/
theorem Replied.accounted {env : Env} {id : ℕ} {r : Request} {p p₀ : Process}
    {w : Worker} {outcome : Except String (String × List Fd)} {d : Daemon}
    {messages replies : List (Message × List Fd)} {caller : Option ℕ}
    {rest : List Posted}
    (h : Replied codec env id r p s s' w outcome d messages replies)
    (haccounted : p₀.Accounted s.loop.daemon.transports s.inbox)
    (houtbox : p₀.broker.outbox = ⟨.request id r, caller⟩ :: rest)
    (hp : p = { p₀ with broker := { p₀.broker with outbox := rest } })
    (hnew : ∀ t fp, r = .authenticated t fp → outcome.isOk → ∃ i thread,
      t = i + 1 ∧ p₀.threads[i]? = some thread ∧
        ∃ c fp', thread.stage = .authenticating fp' c ∧
          thread.stage.Holds s'.inbox p₀.broker i) :
    p.Accounted s'.loop.daemon.transports s'.inbox := by
  have hgranted (c : ℕ) (hbefore : Granted s.inbox c) : Granted s'.inbox c := by
    rw [h.inbox_eq]
    exact granted_append.mpr (.inl (granted_append.mpr (.inl hbefore)))
  have hleaves (t : ℕ) (hne : r ≠ .disconnected t)
      (hbefore : p₀.broker.Leaves t) : p.broker.Leaves t := by
    obtain ⟨posted, hmem, id', hmessage⟩ := hbefore
    rw [houtbox, List.mem_cons] at hmem
    rcases hmem with rfl | hmem
    · exact absurd (Message.request.inj hmessage).2 hne
    · exact ⟨posted, by rw [hp]; exact hmem, id', hmessage⟩
  have hkept (transports : Transports)
      (hsub : ∀ (t : ℕ) (fp : String), transports[t]? = some fp →
        s.loop.daemon.transports[t]? = some fp ∧ r ≠ .disconnected t) :
      p.Accounted transports s'.inbox := by
    refine haccounted.congr (fun t fp ht => (hsub t fp ht).1) ?_
    intro i thread fp ht hi hholds
    refine ⟨thread, by rw [hp]; exact hi, ?_⟩
    exact hholds.mono hgranted (fun c => by rw [hp]; rfl)
      (hleaves _ (hsub _ fp ht).2)
  rw [h.transports_eq]
  by_cases hok : outcome.isOk
  · have hconnects := h.handled.granted hok
    cases r with
    | authenticated t fp =>
        intro t' fp' ht'
        rw [hconnects.2.2.2.2, Std.TreeMap.getElem?_insert] at ht'
        split at ht'
        · next heq =>
          obtain rfl := Std.compare_eq_iff_eq.mp heq
          obtain ⟨i, thread, rfl, hi, c, fp'', hstage, hholds⟩ := hnew t fp rfl hok
          refine ⟨i, thread, rfl, by rw [hp]; exact hi, ?_⟩
          rw [hstage] at hholds ⊢
          rw [hp]
          exact hholds
        · exact hkept s.loop.daemon.transports
            (fun t fp ht => ⟨ht, by simp⟩) t' fp' ht'
    | disconnected t =>
        apply hkept
        intro t' fp' ht'
        rw [hconnects, Std.TreeMap.getElem?_erase] at ht'
        split at ht'
        · cases ht'
        · next hne =>
          refine ⟨ht', fun heq => hne ?_⟩
          rw [Request.disconnected.inj heq]
          exact Std.compare_eq_iff_eq.mpr rfl
    | spawn | closeService | bindReverse | closeReverse | root | pairResult =>
        apply hkept
        intro t' fp' ht'
        rw [hconnects] at ht'
        exact ⟨ht', by simp⟩
  · apply hkept
    intro t fp ht
    rw [h.handled.refused hok] at ht
    refine ⟨ht, ?_⟩
    rintro rfl
    exact hok h.handled.disconnected

theorem Done.accounted (hlinked : Linked codec s)
    (hconsistent : ∀ p, s.worker = some p → p.Consistent)
    (hreliable : Reliable s action) (hprompt : Prompt s action)
    (h : s.Accounted) (hdone : Done codec s action s') : s'.Accounted := by
  intro p hp
  cases hdone with
  | idle env part process htime hidle hprocess =>
      cases @Linked.followed codec s hlinked env part hidle process
          hprocess.isSome with
      | kept q w messages hq hw hkeeps htransports heq hinbox =>
          obtain rfl := Option.some_inj.mp (heq.symm.trans hp)
          rw [hinbox]
          have hgranted (c : ℕ) (hbefore : Granted s.inbox c) :
              Granted (s.inbox ++ messages) c :=
            granted_append.mpr (.inl hbefore)
          rcases hprocess with hprocess | ⟨p₀, posted, rest, hp₀, houtbox, hnone,
            hprocess⟩
          · refine (h q (hprocess ▸ hq)).congr htransports ?_
            intro i thread fp _ hi hholds
            exact ⟨thread, hi, hholds.mono hgranted (fun _ => rfl) id⟩
          · rw [hq, Option.some_inj] at hprocess
            subst hprocess
            refine (h p₀ hp₀).congr htransports ?_
            intro i thread fp _ hi hholds
            refine ⟨thread, hi, hholds.mono hgranted (fun _ => rfl) ?_⟩
            rintro ⟨other, hmem, id, hmessage⟩
            rw [houtbox, List.mem_cons] at hmem
            rcases hmem with rfl | hmem
            · exact absurd hmessage (hnone _ _)
            · exact ⟨other, hmem, id, hmessage⟩
      | replaced hfresh _ _ heq =>
          intro t fp ht
          have hnone : s.proceed codec env part process |>.loop.daemon.transports[t]?
              = none := hfresh.transports t
          rw [hnone] at ht
          cases ht
  | request env id r q caller rest htime hquit hworker houtbox =>
      obtain ⟨w, outcome, d, messages, replies, hreplied⟩ :=
        @Linked.replied codec s hlinked env id r
          q { q with broker := { q.broker with outbox := rest } } hworker hquit
      obtain rfl := Option.some_inj.mp (hreplied.process_eq.symm.trans hp)
      have hinv := hlinked.invariant hworker
      obtain ⟨hcaller, -⟩ := hreplied.steps hinv (hlinked.linked q hworker).1
        houtbox rfl
      refine hreplied.accounted (h q hworker) houtbox rfl ?_
      rintro t fp rfl hok
      obtain ⟨call, hmem, hid, hsent⟩ :=
        hprompt (hreplied.handled.granted_saved hok) q hworker
      obtain ⟨c, hc⟩ := List.mem_iff_getElem?.mp hmem
      have hown := (hinv.consistent.sound c call hc).id_eq
      obtain rfl : c = id - 1 := by omega
      obtain ⟨call', hc', hmessage⟩ := hinv.asked
        ⟨.request id (.authenticated t fp), caller⟩
        (by simp [exchange, houtbox]) (id - 1) hcaller
      obtain rfl := Option.some_inj.mp (hc.symm.trans hc')
      exact hreplied.connects hreliable hok (hconsistent q hworker) hc
        (Message.request.inj hmessage).2.symm hsent
  | main part q q' hworker hdone =>
      cases hp
      exact (h q hworker).main hdone
  | call c part q b hworker hadvance =>
      cases hp
      refine (h q hworker).advance (hconsistent q hworker)
        (hlinked.invariant hworker) hadvance ?_ ?_
      · rintro error rfl
        cases hreliable
      · rintro error t fp progress rfl hstate
        exact Std.TreeMap.getElem?_eq_none (hprompt q t fp progress hworker hstate)
  | transport i part q q' thread hworker hthread hdone =>
      cases hp
      exact (h q hworker).transport (hconsistent q hworker) hthread hdone
  | pairing j part q q' thread events hworker hthread hdone =>
      cases hp
      exact (h q hworker).pairing (hconsistent q hworker) hdone

theorem Reachable.accounted
    (h : Reachable codec (fun s action => Reliable s action ∧ Prompt s action) s) :
    s.Accounted := by
  refine @Transition.Reachable.invariant _ _ _ System.Accounted ?_ ?_ s h
  · intro s hinit p hp
    rw [hinit.2.1] at hp
    cases hp
  · rintro s s' hreachable haccounted ⟨action, ⟨hreliable, hprompt⟩, hact⟩
    exact (act_done hact).accounted (Reachable.linked hreachable)
      (fun p hp => Reachable.consistent hreachable hp) hreliable hprompt haccounted

/-! ## Main result -/

/-- With no request and no reply on its way, a thread that has ended has no
place left. -/
def Released (s : System) : Prop :=
  ∀ p, s.worker = some p →
    (∀ posted ∈ p.broker.outbox, ∀ id r, posted.message ≠ .request id r) →
    (∀ id ok text fds,
      (Message.reply id ok text, fds) ∉ s.inbox.drop p.received) →
    ∀ (i : ℕ) (thread : TransportThread), p.threads[i]? = some thread →
      thread.stage = .ended → i + 1 ∉ s.loop.daemon.transports

/-- No place is lost as long as no granted call is given up. -/
theorem places_released
    (h : Reachable codec (fun s action => Reliable s action ∧ Prompt s action) s) :
    s.Released := by
  intro p hp houtbox _ i thread hi hended hmem
  obtain ⟨fp, ht⟩ := Option.isSome_iff_exists.mp
    (Std.TreeMap.mem_iff_isSome_getElem?.mp hmem)
  obtain ⟨j, other, heq, hj, hholds⟩ := Reachable.accounted h p hp _ fp ht
  obtain rfl : i = j := by omega
  obtain rfl := Option.some_inj.mp (hi.symm.trans hj)
  rw [hended] at hholds
  obtain ⟨posted, hposted, id, hmessage⟩ := hholds
  exact houtbox posted hposted id _ hmessage

/-- The reply to a connection is late: the thread has gone when the supervisor
lets it in. -/
def late : List Action :=
  connecting ++
    [.call 0 (.giveUp "timed out waiting on channel"), .call 0 .withdraw,
      .call 0 .finish, .transport 0 .resume,
      .supervisor sound (.worker (.message (.request 1 (.authenticated 1 "aa")) [])),
      .main .receive]

/-- The place of the late connection is lost. -/
theorem place_lost :
    ¬∀ codec s, Reachable codec Reliable s → s.Released := by
  intro hall
  have hrun : ((paired.perform MainLoop.constantCodec late).bind fun s =>
      s.worker.map fun p => (p.threads, p.broker.outbox.isEmpty,
        (s.inbox.drop p.received).isEmpty, decide (1 ∈ s.loop.daemon.transports))) =
      some ([⟨["aa"], false, .ended⟩], true, true, true) := by
    decide +kernel
  obtain ⟨s, hs, hmap⟩ := Option.bind_eq_some_iff.mp hrun
  obtain ⟨p, hp, heq⟩ := Option.map_eq_some_iff.mp hmap
  simp only [Prod.mk.injEq, List.isEmpty_iff, decide_eq_true_eq] at heq
  obtain ⟨hthreads, houtbox, hinbox, hentry⟩ := heq
  have hreliable : ∀ action ∈ late, ∀ s, Reliable s action := by
    simp [late, connecting, Reliable, Daemon.Reliable, sound, MainLoop.cooperative]
  exact hall _ s (perform_reachable hreliable paired_reachable hs) p hp
    (by simp [houtbox]) (by simp [hinbox]) 0 _ (by rw [hthreads]; rfl) rfl hentry

/-- The supervisor lets the waiting connection in. -/
def admitting : Action :=
  .supervisor sound (.worker (.message (.request 1 (.authenticated 1 "aa")) []))

/-- The thread is told and takes leave. -/
def leaving : List Action :=
  [.main .receive, .call 0 .receive, .call 0 .withdraw, .call 0 .finish,
    .transport 0 .resume, .transport 0 .leave, .call 1 .announce,
    .call 1 .enroll, .call 1 (.send (.ok ())),
    .supervisor sound (.worker (.message (.request 2 (.disconnected 1)) [])),
    .main .receive, .call 1 .receive, .call 1 .withdraw, .call 1 .finish,
    .transport 0 .resume]

/-- The place of a connection that has left is free again. -/
theorem places_released_left : ∃ s p, s.worker = some p ∧
    p.threads.map TransportThread.stage = [.ended] ∧
      1 ∉ s.loop.daemon.transports ∧
      ((paired.perform MainLoop.constantCodec connecting).bind fun s =>
        (s.act MainLoop.constantCodec admitting).bind
          (perform MainLoop.constantCodec leaving)) = some s := by
  have hwaits : ((paired.perform MainLoop.constantCodec connecting).bind fun s =>
      s.worker.map fun p => p.broker.calls) =
      some [⟨1, .authenticated 1 "aa", .sent, none, none⟩] := by
    rfl
  have hrun : ((paired.perform MainLoop.constantCodec connecting).bind fun s =>
      (s.act MainLoop.constantCodec admitting).bind fun s =>
        (s.perform MainLoop.constantCodec leaving).bind fun s =>
          s.worker.map fun p => (p.threads, p.broker.outbox.isEmpty,
            (s.inbox.drop p.received).isEmpty)) =
      some ([⟨["aa"], false, .ended⟩], true, true) := by
    decide +kernel
  obtain ⟨s₁, hs₁, hrun⟩ := Option.bind_eq_some_iff.mp hrun
  obtain ⟨s₂, hs₂, hrun⟩ := Option.bind_eq_some_iff.mp hrun
  obtain ⟨s₃, hs₃, hmap⟩ := Option.bind_eq_some_iff.mp hrun
  obtain ⟨p, hp, heq⟩ := Option.map_eq_some_iff.mp hmap
  simp only [Prod.mk.injEq, List.isEmpty_iff] at heq
  obtain ⟨hthreads, houtbox, hinbox⟩ := heq
  have hbefore : ∀ action ∈ connecting, ∀ s, Reliable s action ∧ Prompt s action := by
    simp [connecting, Reliable, Daemon.Reliable, sound, MainLoop.cooperative, Prompt]
  have hafter : ∀ action ∈ leaving, ∀ s, Reliable s action ∧ Prompt s action := by
    simp [leaving, Reliable, Daemon.Reliable, sound, MainLoop.cooperative, Prompt]
  have hreachable₁ := perform_reachable hbefore paired_reachable hs₁
  have hprompt : Prompt s₁ admitting := by
    intro _ q hq
    rw [hs₁, Option.bind_some, hq, Option.map_some, Option.some_inj] at hwaits
    exact ⟨_, by rw [hwaits]; exact List.mem_singleton_self _, rfl, rfl⟩
  have hreachable₂ := hreachable₁.next ⟨admitting, ⟨fun _ => rfl, hprompt⟩, hs₂⟩
  have hreachable := perform_reachable hafter hreachable₂ hs₃
  refine ⟨s₃, p, hp, by rw [hthreads]; rfl, ?_, ?_⟩
  · exact places_released hreachable p hp (by simp [houtbox]) (by simp [hinbox])
      0 _ (by rw [hthreads]; rfl) rfl
  · rw [hs₁, Option.bind_some, hs₂, Option.bind_some, hs₃]

end System

end Altdb
