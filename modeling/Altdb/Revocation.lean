import Altdb.WorkerThreads

/-!
# Revocation

A connection that the supervisor has let in belongs to a paired host, or it is
cancelled, or the worker has yet to read a host list without the host.  The
supervisor grants and revokes in one thread, so a connection is granted before
the revocation, and then `peers` names its host when the list is handled, or it
is not granted at all.
-/

namespace Altdb

open Fallible Relation

namespace System

/-- The supervisor has granted the request of an invocation. -/
def Granted (inbox : List (Message × List Fd)) (c : ℕ) : Prop :=
  ∃ reply ∈ inbox.filterMap replyOf, reply.caller = c ∧ reply.answer.ok = true

theorem granted_append {inbox messages : List (Message × List Fd)} {c : ℕ} :
    Granted (inbox ++ messages) c ↔ Granted inbox c ∨ Granted messages c := by
  simp only [Granted, List.filterMap_append, List.mem_append, or_and_right,
    exists_or]

theorem not_granted_of_quiet {messages : List (Message × List Fd)} {c : ℕ}
    (h : ∀ item ∈ messages, item.1.Quiet) : ¬Granted messages c := by
  simp [Granted, replies_of_quiet h]

theorem mem_exchange {inbox : List (Message × List Fd)} {p : Process}
    {reply : Reply} : reply ∈ inbox.filterMap replyOf ↔
      reply ∈ (exchange inbox p).replies ++ (exchange inbox p).arrived := by
  conv_lhs => rw [← List.take_append_drop p.received inbox]
  simp only [exchange, List.filterMap_append, List.mem_append]
  exact or_comm

variable {inbox messages : List (Message × List Fd)} {p p' : Process} {c : ℕ}

/-- A granted invocation has sent its request. -/
theorem Granted.posted (h : Granted inbox c)
    (hinv : (exchange inbox p).Invariant) : ∃ call : Call,
      p.broker.calls[c]? = some call ∧ call.progress.Posted := by
  obtain ⟨reply, hreply, rfl, -⟩ := h
  apply hinv.posted reply.caller
  rw [Exchange.callers]
  apply List.mem_append_right
  exact List.mem_map_of_mem ((@mem_exchange inbox p reply).mp hreply)

/-- An invocation that returned a value was granted. -/
theorem granted_of_returned {value : String × List Fd}
    (hinv : (exchange inbox p).Invariant)
    (h : p.broker.returned c = some (.ok value)) : Granted inbox c := by
  obtain ⟨message, fds⟩ := value
  obtain ⟨r, hstate⟩ := Broker.returned_eq.mp h
  obtain ⟨call, hc, heq⟩ := Option.map_eq_some_iff.mp hstate
  have hprogress : call.progress = .returned (.ok (message, fds)) :=
    (Prod.mk.inj heq).2
  obtain ⟨k, reply, -, hreply, hcaller, hanswer⟩ := hinv.replied hc
    (by rw [hprogress, Progress.result?])
  refine ⟨reply, (@mem_exchange inbox p reply).mpr ?_, hcaller, by rw [hanswer]⟩
  exact List.mem_append_right _ (List.mem_of_getElem? hreply)

end System

/-- The supervisor has let the connection in, and the thread may serve it. -/
def TransportStage.Admitted (inbox : List (Message × List Fd)) (b : Broker)
    (fp : String) : TransportStage → Prop
  | .authenticating fp' c => fp' = fp ∧ System.Granted inbox c ∧
      ∀ r error, b.stateOf c ≠ some (r, .returned (.error error))
  | .serving fp' | .asking fp' _ => fp' = fp
  | .handshake | .leaving _ | .ended => False

/-- Every admitted connection belongs to a paired host, or it is cancelled, or
its revocation is on the way. -/
def Process.Controlled (store : Store) (inbox : List (Message × List Fd))
    (p : Process) : Prop :=
  ∀ (i : ℕ) (thread : TransportThread) (fp : String),
    p.threads[i]? = some thread → thread.stage.Admitted inbox p.broker fp →
      store.trusts fp ∨ thread.cancel = true ∨
        Daemon.Revokes (inbox.drop p.received) fp

namespace Process

variable {store store' : Store} {inbox inbox' : List (Message × List Fd)}
  {p p' : Process}

/-- `peers` names the host of an admitted connection. -/
theorem Consistent.admitted (h : p.Consistent)
    (hinv : (System.exchange inbox p).Invariant) {i : ℕ}
    {thread : TransportThread} {fp : String} (hi : p.threads[i]? = some thread)
    (hadmitted : thread.stage.Admitted inbox p.broker fp) :
    i + 1 ∈ p.connections ∧ p.broker.peers[i + 1]? = some fp := by
  refine ⟨h.connected i thread hi ?_, h.peers i thread fp hi ?_⟩
  · rintro hended
    rw [hended] at hadmitted
    exact hadmitted
  · cases hstage : thread.stage with
    | authenticating fp' c =>
        rw [hstage] at hadmitted
        obtain ⟨heq, hgranted, hkept⟩ := hadmitted
        obtain ⟨call, hc, hposted⟩ := hgranted.posted hinv
        have hstate : p.broker.stateOf c = some (call.request, call.progress) := by
          simp [Broker.stateOf, hc]
        refine ⟨heq, _, _, hstate, ?_, ?_⟩
        · intro hidentified
          rw [hidentified] at hposted
          exact hposted
        · intro error hreturned
          exact hkept call.request error (by rw [hstate, hreturned])
    | _ =>
        rw [hstage] at hadmitted
        exact hadmitted

/-- A change that admits nobody and keeps what it owes. -/
theorem Controlled.congr (h : p.Controlled store inbox)
    (hthreads : ∀ (i : ℕ) (thread' : TransportThread) (fp : String),
      p'.threads[i]? = some thread' →
      thread'.stage.Admitted inbox' p'.broker fp → ∃ thread,
        p.threads[i]? = some thread ∧ thread.stage.Admitted inbox p.broker fp ∧
          (thread.cancel = true → thread'.cancel = true))
    (howes : ∀ fp, store.trusts fp ∨ Daemon.Revokes (inbox.drop p.received) fp →
      store'.trusts fp ∨ Daemon.Revokes (inbox'.drop p'.received) fp) :
    p'.Controlled store' inbox' := by
  intro i thread' fp hi hadmitted
  obtain ⟨thread, hi', hadmitted', hcancel⟩ := hthreads i thread' fp hi hadmitted
  rcases h i thread fp hi' hadmitted' with htrust | hcancelled | hrevoked
  · exact (howes fp (.inl htrust)).imp_right .inr
  · exact .inr (.inl (hcancel hcancelled))
  · exact (howes fp (.inr hrevoked)).imp_right .inr

theorem admitted_congr {b b' : Broker} {fp : String}
    (h : ∀ c, b'.stateOf c = b.stateOf c) (stage : TransportStage) :
    stage.Admitted inbox b' fp ↔ stage.Admitted inbox b fp := by
  cases stage <;> simp only [TransportStage.Admitted, h]

/-- A step that leaves threads and calls alone. -/
theorem Controlled.still (h : p.Controlled store inbox)
    (hthreads : p'.threads = p.threads)
    (hstate : ∀ c, p'.broker.stateOf c = p.broker.stateOf c)
    (howes : ∀ fp, Daemon.Revokes (inbox.drop p.received) fp →
      Daemon.Revokes (inbox.drop p'.received) fp) :
    p'.Controlled store inbox := by
  refine h.congr ?_ fun fp => Or.imp_right (howes fp)
  intro i thread fp hi hadmitted
  rw [hthreads] at hi
  exact ⟨thread, hi, (admitted_congr hstate _).mp hadmitted, id⟩

/-- Some connections are cancelled. -/
theorem Controlled.stopWhere (h : p.Controlled store inbox)
    (stops : ℕ → Bool) : (p.stopWhere stops).Controlled store inbox := by
  refine h.congr ?_ fun _ howes => howes
  intro i thread' fp hi hadmitted
  rw [stopWhere_threads, Option.map_eq_some_iff] at hi
  obtain ⟨thread, hi', rfl⟩ := hi
  refine ⟨thread, hi', ?_, ?_⟩
  · split at hadmitted <;> exact hadmitted
  · intro hcancel
    split
    · rfl
    · exact hcancel

/-- What is still to be read after the next message. -/
theorem revokes_next {item : Message × List Fd} {k : ℕ} {fp : String}
    (hitem : inbox[k]? = some item) (h : Daemon.Revokes (inbox.drop k) fp) :
    Daemon.Revokes [item] fp ∨ Daemon.Revokes (inbox.drop (k + 1)) fp := by
  obtain ⟨hlt, rfl⟩ := List.getElem?_eq_some_iff.mp hitem
  obtain ⟨hosts, hmem, hnot⟩ := h
  rw [List.drop_eq_getElem_cons hlt, List.mem_cons] at hmem
  rcases hmem with heq | hlater
  · exact .inl ⟨hosts, by simp [heq], hnot⟩
  · exact .inr ⟨hosts, hlater, hnot⟩

theorem revokes_read {item : Message × List Fd} {k : ℕ} {fp : String}
    (hitem : inbox[k]? = some item) (hother : ∀ hosts, item.1 ≠ .hosts hosts)
    (h : Daemon.Revokes (inbox.drop k) fp) :
    Daemon.Revokes (inbox.drop (k + 1)) fp := by
  rcases revokes_next hitem h with ⟨hosts, hmem, -⟩ | hlater
  · rw [List.mem_singleton] at hmem
    exact absurd (by rw [← hmem]) (hother hosts)
  · exact hlater

/-- A host list is handled: the connections of other hosts are cancelled. -/
theorem Controlled.hosts (h : p.Controlled store inbox)
    (hconsistent : p.Consistent) (hinv : (System.exchange inbox p).Invariant)
    {hosts : List Host} {fds : List Fd}
    (hitem : inbox[p.received]? = some (.hosts hosts, fds)) :
    ({ p.advance with hosts := hosts }.stopWhere fun t =>
      p.broker.peers[t]?.any fun fp =>
        !hosts.any fun host => host.fingerprint = fp).Controlled store inbox := by
  intro i thread' fp hi hadmitted
  rw [stopWhere_threads, Option.map_eq_some_iff] at hi
  obtain ⟨thread, hi', rfl⟩ := hi
  have hadmitted' : thread.stage.Admitted inbox p.broker fp := by
    split at hadmitted <;> exact hadmitted
  obtain ⟨hconnected, hpeer⟩ := hconsistent.admitted hinv hi' hadmitted'
  by_cases hlisted : fp ∈ hosts.map Host.fingerprint
  · rcases h i thread fp hi' hadmitted' with htrust | hcancel | hrevoked
    · exact .inl htrust
    · refine .inr (.inl ?_)
      split
      · rfl
      · exact hcancel
    · rcases revokes_next hitem hrevoked with ⟨hosts', hmem, hnot⟩ | hlater
      · rw [List.mem_singleton, Prod.mk.injEq, Message.hosts.injEq] at hmem
        exact absurd (hmem.1 ▸ hlisted) hnot
      · exact .inr (.inr hlater)
  · refine .inr (.inl ?_)
    rw [if_pos]
    refine ⟨hconnected, ?_⟩
    simpa [hpeer] using hlisted

theorem Controlled.main (h : p.Controlled store inbox)
    (hconsistent : p.Consistent) (hinv : (System.exchange inbox p).Invariant)
    (hdone : p.MainDone inbox[p.received]? p') : p'.Controlled store inbox := by
  cases hdone with
  | boot message fds hosts hitem _ hhosts =>
      exact h.still rfl (fun _ => rfl) fun fp => revokes_read hitem hhosts
  | pairing message fds window hitem _ hhosts =>
      exact h.still rfl (fun _ => rfl) fun fp => revokes_read hitem hhosts
  | reply id ok text fds hitem =>
      exact h.still rfl (Broker.stateOf_deliver _ _ _)
        fun fp => revokes_read hitem (by simp)
  | hosts hosts fds hitem => exact h.hosts hconsistent hinv hitem
  | sweep | window | acceptPairing =>
      exact h.still rfl (fun _ => rfl) fun _ hlater => hlater
  | expire stops => exact h.stopWhere stops
  | accept =>
      refine h.congr ?_ fun _ howes => howes
      intro i thread fp hi hadmitted
      rw [List.getElem?_append] at hi
      split at hi
      · exact ⟨thread, hi, hadmitted, id⟩
      · rw [List.getElem?_singleton] at hi
        split at hi
        · cases hi
          exact hadmitted.elim
        · cases hi
  | exit =>
      exact (h.stopWhere fun _ => true).still rfl (fun _ => rfl)
        fun _ hlater => hlater

/-- An access of a call admits nobody. -/
theorem Controlled.advance (h : p.Controlled store inbox) {part : CallStep}
    {c : ℕ} {b : Broker} (hadvance : p.broker.advance c part = some b) :
    { p with broker := b }.Controlled store inbox := by
  obtain ⟨call, hc, hstep⟩ := Broker.advance_cases hadvance
  obtain ⟨call', hcalls, -, hrequest, -⟩ := hstep.moved hc
  refine h.congr ?_ fun _ howes => howes
  intro i thread fp hi hadmitted
  refine ⟨thread, hi, ?_, id⟩
  cases hstage : thread.stage with
  | authenticating fp' c' =>
      rw [hstage] at hadmitted
      obtain ⟨heq, hgranted, hkept⟩ := hadmitted
      refine ⟨heq, hgranted, fun r error hreturned => ?_⟩
      by_cases hsame : c' = c
      · subst hsame
        obtain ⟨old, hold, hstate⟩ := Option.map_eq_some_iff.mp hreturned
        obtain rfl := Option.some_inj.mp (hc.symm.trans hold)
        have hprogress := (Prod.mk.inj hstate).2
        cases hstep <;> simp_all
      · refine hkept r error ?_
        rw [← hreturned]
        simp [Broker.stateOf, hcalls, hsame]
  | _ =>
      rw [hstage] at hadmitted
      exact hadmitted

/-- The stage of one thread changes, with a new call or without. -/
theorem Controlled.setStage (h : p.Controlled store inbox) {i : ℕ} {b : Broker}
    {thread : TransportThread} {stage : TransportStage}
    (hi : p.threads[i]? = some thread)
    (hold : ∀ c state, p.broker.stateOf c = some state → b.stateOf c = some state)
    (hstage : ∀ fp, stage.Admitted inbox b fp →
      thread.stage.Admitted inbox p.broker fp) :
    ({ p with broker := b }.setStage i stage).Controlled store inbox := by
  refine h.congr ?_ fun _ howes => howes
  intro j thread' fp hj hadmitted
  rw [@setStage_threads { p with broker := b } i thread hi] at hj
  split at hj
  · next heq =>
    cases hj
    exact ⟨thread, heq ▸ hi, hstage fp hadmitted, id⟩
  · refine ⟨thread', hj, ?_, id⟩
    cases hstage' : thread'.stage with
    | authenticating fp' c =>
        rw [hstage'] at hadmitted
        obtain ⟨heq, hgranted, hkept⟩ := hadmitted
        exact ⟨heq, hgranted, fun r error hreturned =>
          hkept r error (hold _ _ hreturned)⟩
    | _ =>
        rw [hstage'] at hadmitted
        exact hadmitted

/-- A connection is served once its call returned a value. -/
theorem Controlled.transport (h : p.Controlled store inbox)
    (hinv : (System.exchange inbox p).Invariant)
    {i : ℕ} {thread : TransportThread} (hi : p.threads[i]? = some thread)
    (hdone : p.TransportDone i thread.stage p') : p'.Controlled store inbox := by
  cases hdone with
  | authenticate fp b hstage hcall =>
      refine h.setStage hi (Broker.stateOf_kept hcall) ?_
      rintro fp' ⟨-, hgranted, -⟩
      obtain ⟨call, hc, -⟩ := hgranted.posted hinv
      simp at hc
  | ask fp r b hstage _ hcall =>
      refine h.setStage hi (Broker.stateOf_kept hcall) ?_
      intro fp' hadmitted
      rw [hstage]
      exact hadmitted
  | leave fp b hstage hcall =>
      exact h.setStage hi (Broker.stateOf_kept hcall)
        fun fp' hadmitted => hadmitted.elim
  | granted fp c value hstage hreturned =>
      refine h.setStage hi (fun _ _ hc => hc) ?_
      intro fp' hadmitted
      rw [hstage]
      refine ⟨hadmitted, System.granted_of_returned hinv hreturned, ?_⟩
      intro r error hstate
      have herror := Broker.returned_eq.mpr ⟨r, hstate⟩
      rw [hreturned] at herror
      cases herror
  | answered fp c result hstage hreturned =>
      refine h.setStage hi (fun _ _ hc => hc) ?_
      intro fp' hadmitted
      rw [hstage]
      exact hadmitted
  | fail | refused | left =>
      exact h.setStage hi (fun _ _ hc => hc)
        fun fp' hadmitted => hadmitted.elim

/-- A pairing thread changes nothing here. -/
theorem Controlled.pairing (h : p.Controlled store inbox) {codec : KeyCodec}
    {j : ℕ} {thread : PairingThread} {part : PairingPart}
    (hdone : p.PairingDone codec j thread part p') :
    p'.Controlled store inbox := by
  have hcalls {b : Broker} {r : Request} (hcall : p.broker.call r = some b) :
      { p with broker := b }.Controlled store inbox := by
    refine h.congr ?_ fun _ howes => howes
    intro i thread fp hi hadmitted
    refine ⟨thread, hi, ?_, id⟩
    cases hstage : thread.stage with
    | authenticating fp' c =>
        rw [hstage] at hadmitted
        obtain ⟨heq, hgranted, hkept⟩ := hadmitted
        exact ⟨heq, hgranted, fun r error hreturned =>
          hkept r error (Broker.stateOf_kept hcall _ _ hreturned)⟩
    | _ =>
        rw [hstage] at hadmitted
        exact hadmitted
  cases hdone with
  | commit _ _ _ b _ _ hcall | report b _ hcall =>
      exact (hcalls hcall).still rfl (fun _ => rfl) fun _ hlater => hlater
  | acknowledge | fail | granted | refused | reported =>
      exact h.still rfl (fun _ => rfl) fun _ hlater => hlater

end Process

namespace System

variable {codec : KeyCodec} {s s' : System} {action : Action}

/-- The supervisor forgets a host only with a host list on its way. -/
theorem told_owes {env : Env} {d d' : Daemon} {w : Worker}
    {inbox messages : List (Message × List Fd)} {k : ℕ}
    (hkeeps : d.Keeps env d' w messages) (hsent : Daemon.Reliable env)
    (hread : k ≤ inbox.length) (fp : String)
    (h : d.store.trusts fp ∨ Daemon.Revokes (inbox.drop k) fp) :
    d'.store.trusts fp ∨ Daemon.Revokes ((inbox ++ messages).drop k) fp := by
  rw [List.drop_append_of_le_length hread]
  rcases h with htrust | hrevoked
  · exact (hkeeps.told hsent fp htrust).imp_right
      (·.mono (List.subset_append_right _ _))
  · exact .inr (hrevoked.mono (List.subset_append_left _ _))

/-- Messages that are no replies admit nobody. -/
theorem admitted_of_append {inbox messages : List (Message × List Fd)}
    (hquiet : ∀ item ∈ messages, item.1.Quiet) {b : Broker} {fp : String}
    {stage : TransportStage} (h : stage.Admitted (inbox ++ messages) b fp) :
    stage.Admitted inbox b fp := by
  cases stage with
  | authenticating fp' c =>
      obtain ⟨heq, hgranted, hkept⟩ := h
      refine ⟨heq, ?_, hkept⟩
      exact (granted_append.mp hgranted).resolve_right
        (not_granted_of_quiet hquiet)
  | _ => exact h

/-- A request is granted to a paired host only. -/
theorem Replied.trusts {env : Env} {id : ℕ} {r : Request} {p p₀ : Process}
    {w : Worker} {outcome : Except String (String × List Fd)} {d : Daemon}
    {messages replies : List (Message × List Fd)} {rest : List Posted}
    {caller : Option ℕ} (h : Replied codec env id r p s s' w outcome d messages
      replies)
    (hconsistent : p₀.Consistent) (hinv : (exchange s.inbox p₀).Invariant)
    (houtbox : p₀.broker.outbox = ⟨.request id r, caller⟩ :: rest)
    (hcaller : caller = some (id - 1)) {i c : ℕ} {thread : TransportThread}
    {fp : String} (hi : p₀.threads[i]? = some thread)
    (hstage : thread.stage = .authenticating fp c) (hgranted : Granted replies c) :
    s'.loop.daemon.store.trusts fp := by
  obtain ⟨reply, hreply, rfl, hok⟩ := hgranted
  rcases h.replies_eq with heq | ⟨-, heq⟩
  · rw [heq, filterMap_replyOf_reply, List.mem_singleton] at hreply
    subst hreply
    have hsucceeded : outcome.isOk := by
      cases outcome
      · cases hok
      · rfl
    obtain ⟨call, hc, hmessage⟩ := hinv.asked ⟨.request id r, caller⟩
      (by simp [exchange, houtbox]) (id - 1) hcaller
    obtain ⟨-, hrequest⟩ := Message.request.inj hmessage
    have hawaits := hconsistent.awaits i thread hi
    rw [hstage] at hawaits
    obtain ⟨progress, hstate⟩ := hawaits
    obtain ⟨call', hc', heq'⟩ := Option.map_eq_some_iff.mp hstate
    obtain rfl := Option.some_inj.mp (hc.symm.trans hc')
    have hconnects := h.handled.granted hsucceeded
    rw [hrequest, (Prod.mk.inj heq').1] at hconnects
    rw [h.store_eq]
    exact hconnects.2.2.2.1
  · simp [heq] at hreply

theorem Done.controlled (hlinked : Linked codec s)
    (hconsistent : ∀ p, s.worker = some p → p.Consistent)
    (hreliable : Reliable s action)
    (h : ∀ p, s.worker = some p → p.Controlled s.loop.daemon.store s.inbox)
    (hdone : Done codec s action s') (p : Process) (hp : s'.worker = some p) :
    p.Controlled s'.loop.daemon.store s'.inbox := by
  cases hdone with
  | idle env part process htime hidle hprocess =>
      cases @Linked.followed codec s hlinked env part hidle process
          hprocess.isSome with
      | kept q w messages hq hw hkeeps _ heq hinbox =>
          obtain rfl := Option.some_inj.mp (heq.symm.trans hp)
          obtain ⟨p₀, hp₀⟩ := Option.isSome_iff_exists.mp
            (by rw [← hprocess.isSome, hq]; rfl : s.worker.isSome)
          have hread := (hlinked.linked p₀ hp₀).1
          have hsame : q.threads = p₀.threads ∧ q.received = p₀.received ∧
              ∀ c, q.broker.stateOf c = p₀.broker.stateOf c := by
            rcases hprocess with hprocess | ⟨p₁, posted, rest, hp₁, -, -, hprocess⟩
            · rw [hq, hp₀, Option.some_inj] at hprocess
              exact ⟨by rw [hprocess], by rw [hprocess], fun c => by rw [hprocess]⟩
            · obtain rfl := Option.some_inj.mp (hp₀.symm.trans hp₁)
              rw [hq, Option.some_inj] at hprocess
              exact ⟨by rw [hprocess], by rw [hprocess], fun c => by
                rw [hprocess]; rfl⟩
          obtain ⟨hthreads, hreceived, hstate⟩ := hsame
          rw [hinbox]
          refine (h p₀ hp₀).congr ?_ ?_
          · intro i thread fp hi hadmitted
            rw [hthreads] at hi
            refine ⟨thread, hi, ?_, id⟩
            exact (Process.admitted_congr hstate _).mp
              (admitted_of_append hkeeps.quiet hadmitted)
          · intro fp howes
            rw [hreceived]
            exact told_owes hkeeps hreliable hread fp howes
      | replaced hfresh _ _ heq =>
          rw [heq, Option.map_eq_some_iff] at hp
          obtain ⟨w, -, rfl⟩ := hp
          intro i thread fp hi
          simp [Process.initial] at hi
  | request env id r q caller rest htime hquit hworker houtbox =>
      obtain ⟨w, outcome, d, messages, replies, hreplied⟩ :=
        @Linked.replied codec s hlinked env id r q
          { q with broker := { q.broker with outbox := rest } } hworker hquit
      obtain rfl := Option.some_inj.mp (hreplied.process_eq.symm.trans hp)
      have hread := (hlinked.linked q hworker).1
      have hinv := hlinked.invariant hworker
      obtain ⟨hcaller, -⟩ := hreplied.steps hinv hread houtbox rfl
      have htold : Process.Controlled d.store (s.inbox ++ messages)
          { q with broker := { q.broker with outbox := rest } } := by
        refine (h q hworker).congr ?_ ?_
        · intro i thread fp hi hadmitted
          exact ⟨thread, hi, admitted_of_append hreplied.handled.keeps.quiet
            hadmitted, fun hcancel => hcancel⟩
        · exact told_owes hreplied.handled.keeps hreliable hread
      intro i thread fp hi hadmitted
      rw [hreplied.inbox_eq] at hadmitted ⊢
      by_cases hold : thread.stage.Admitted (s.inbox ++ messages) q.broker fp
      · rw [hreplied.store_eq]
        rcases htold i thread fp hi hold with htrust | hcancel | hrevoked
        · exact .inl htrust
        · exact .inr (.inl hcancel)
        · have hlater : (s.inbox ++ messages ++ replies).drop q.received =
              (s.inbox ++ messages).drop q.received ++ replies :=
            List.drop_append_of_le_length (hread.trans (by simp))
          refine .inr (.inr (hrevoked.mono ?_))
          rw [hlater]
          exact List.subset_append_left _ _
      · refine .inl ?_
        cases hstage : thread.stage with
        | authenticating fp' c =>
            rw [hstage] at hadmitted hold
            obtain ⟨rfl, hgranted, hkept⟩ := hadmitted
            rcases granted_append.mp hgranted with hbefore | hreply
            · exact absurd ⟨rfl, hbefore, hkept⟩ hold
            · exact hreplied.trusts (hconsistent q hworker) hinv houtbox hcaller
                hi hstage hreply
        | _ =>
            rw [hstage] at hadmitted hold
            exact absurd hadmitted hold
  | main part q q' hworker hdone =>
      cases hp
      exact (h q hworker).main (hconsistent q hworker) (hlinked.invariant hworker)
        hdone
  | call c part q b hworker hadvance =>
      cases hp
      exact (h q hworker).advance hadvance
  | transport i part q q' thread hworker hthread hdone =>
      cases hp
      exact (h q hworker).transport (hlinked.invariant hworker) hthread hdone
  | pairing j part q q' thread events hworker hthread hdone =>
      cases hp
      exact (h q hworker).pairing hdone

/-- In every run without lost messages the admitted connections are under
control. -/
theorem Reachable.controlled (h : Reachable codec Reliable s) {p : Process}
    (hp : s.worker = some p) : p.Controlled s.loop.daemon.store s.inbox := by
  have hrun : ∀ p, s.worker = some p →
      p.Controlled s.loop.daemon.store s.inbox := by
    refine @Transition.Reachable.invariant _ _ _ (fun s => ∀ p, s.worker = some p →
      p.Controlled s.loop.daemon.store s.inbox) ?_ ?_ s h
    · intro s hinit p hp
      rw [hinit.2.1] at hp
      cases hp
    · rintro s s' hreachable hcontrolled ⟨action, hreliable, hact⟩
      exact (act_done hact).controlled (Reachable.linked hreachable)
        (fun p hp => Reachable.consistent hreachable hp) hreliable hcontrolled
  exact hrun p hp

/-! ## Main result -/

/-- The call of the thread for this host has returned a value and the thread
has not disconnected since. -/
def Connected (p : Process) (i : ℕ) (thread : TransportThread) (fp : String) :
    Prop :=
  p.threads[i]? = some thread ∧
    (thread.stage = .serving fp ∨ (∃ c, thread.stage = .asking fp c) ∨
      ∃ c value, thread.stage = .authenticating fp c ∧
        p.broker.returned c = some (.ok value))

/-- A connected host is paired, or its connection is cancelled, or the worker
has yet to read a host list without it.  When all host lists are read, only
paired hosts are connected without being cancelled. -/
theorem revocation_reaches (h : Reachable codec Reliable s) (p : Process)
    (hp : s.worker = some p) :
    (∀ (i : ℕ) (thread : TransportThread) (fp : String),
      Connected p i thread fp → s.loop.daemon.store.trusts fp ∨
        thread.cancel = true ∨ ∃ hosts fds,
          (Message.hosts hosts, fds) ∈ s.inbox.drop p.received ∧
            ∀ host ∈ hosts, host.fingerprint ≠ fp) ∧
    ((∀ hosts fds, (Message.hosts hosts, fds) ∉ s.inbox.drop p.received) →
      ∀ (i : ℕ) (thread : TransportThread) (fp : String),
        Connected p i thread fp → thread.cancel = false →
          s.loop.daemon.store.trusts fp) := by
  have hcontrolled := h.controlled hp
  have hmain (i : ℕ) (thread : TransportThread) (fp : String)
      (hconnected : Connected p i thread fp) : s.loop.daemon.store.trusts fp ∨
        thread.cancel = true ∨ ∃ hosts fds,
          (Message.hosts hosts, fds) ∈ s.inbox.drop p.received ∧
            ∀ host ∈ hosts, host.fingerprint ≠ fp := by
    obtain ⟨hi, hstage⟩ := hconnected
    have hadmitted : thread.stage.Admitted s.inbox p.broker fp := by
      rcases hstage with heq | ⟨c, heq⟩ | ⟨c, value, heq, hreturned⟩
      · rw [heq]
        rfl
      · rw [heq]
        rfl
      · rw [heq]
        refine ⟨rfl, granted_of_returned (h.linked.invariant hp) hreturned, ?_⟩
        intro r error hstate
        have herror := Broker.returned_eq.mpr ⟨r, hstate⟩
        rw [hreturned] at herror
        cases herror
    rcases hcontrolled i thread fp hi hadmitted with
      htrust | hcancel | ⟨hosts, hmem, hnot⟩
    · exact .inl htrust
    · exact .inr (.inl hcancel)
    · refine .inr (.inr ⟨hosts, [], hmem, fun host hhost heq => hnot ?_⟩)
      exact List.mem_map.mpr ⟨host, hhost, heq⟩
  refine ⟨hmain, ?_⟩
  intro hread i thread fp hconnected hcancel
  rcases hmain i thread fp hconnected with htrust | hcancelled | ⟨hosts, fds, hmem, -⟩
  · exact htrust
  · rw [hcancel] at hcancelled
    cases hcancelled
  · exact absurd hmem (hread hosts fds)

/-- The host is revoked between the reply to its connection and the moment the
connection learns of it. -/
def raced : List Action :=
  connecting ++
    [.supervisor sound (.worker (.message (.request 1 (.authenticated 1 "aa")) [])),
      .supervisor sound (.control (.revoke "aa")), .main .receive,
      .call 0 .receive, .call 0 .withdraw, .call 0 .finish, .transport 0 .resume]

theorem raced_reliable : ∀ action ∈ raced, ∀ s, Reliable s action := by
  simp [raced, connecting, Reliable, Daemon.Reliable, sound, MainLoop.cooperative]

/-- The unpaired host is connected and its revocation is on the way. -/
theorem revocation_reaches_raced : ∃ s p,
    paired.perform MainLoop.constantCodec raced = some s ∧ s.worker = some p ∧
      ¬s.loop.daemon.store.trusts "aa" ∧ ∃ hosts fds,
        (Message.hosts hosts, fds) ∈ s.inbox.drop p.received ∧
          ∀ host ∈ hosts, host.fingerprint ≠ "aa" := by
  have hrun : ((paired.perform MainLoop.constantCodec raced).bind fun s =>
      s.worker.map fun p =>
        (p.threads, decide (s.loop.daemon.store.trusts "aa"))) =
      some ([⟨["aa"], false, .serving "aa"⟩], false) := by decide +kernel
  obtain ⟨s, hs, hmap⟩ := Option.bind_eq_some_iff.mp hrun
  obtain ⟨p, hp, heq⟩ := Option.map_eq_some_iff.mp hmap
  obtain ⟨hthreads, htrust⟩ := Prod.mk.inj heq
  have htrust' : ¬s.loop.daemon.store.trusts "aa" := of_decide_eq_false htrust
  have hreachable := perform_reachable raced_reliable paired_reachable hs
  obtain ⟨hcontrolled, -⟩ := revocation_reaches hreachable p hp
  refine ⟨s, p, hs, hp, htrust', ?_⟩
  rcases hcontrolled 0 _ "aa" ⟨by rw [hthreads]; rfl, .inl rfl⟩ with
    htrusted | hcancel | hqueued
  · exact absurd htrusted htrust'
  · cases hcancel
  · exact hqueued

end System

end Altdb
