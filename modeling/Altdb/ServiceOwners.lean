import Altdb.ServiceIds

/-!
# Streams and the services that they close

`Tenancy` runs the supervisor against the sockets that the streams of its worker
hold.  A socket names its service by transport and process id, as the Spawn
reply did, and CloseService is sent when it is dropped.  Each service has a
number that is never given again, so that it can be said which service a socket
was opened for and which one is closed.
-/

namespace Altdb

open Fallible

/-- The owner of a `ServiceSocket`.  `number` is a history variable: the number
of the service whose Spawn reply it comes from. -/
structure Owner where
  transport : ℕ
  service : UInt32
  number : ℕ
  deriving DecidableEq, Repr

/-- The supervisor and the sockets of the streams.  The other fields are history
variables: the numbers of the services in the table, the number of the next
section, which is that of the service it starts, and for each dropped socket the
services whose closing was scheduled. -/
structure Tenancy where
  loop : MainLoop
  numbers : List ℕ
  sections : ℕ
  held : List Owner
  closings : List (Owner × ℕ)

namespace Tenancy

inductive Action where
  /-- A section that does not serve CloseService. -/
  | run (env : Env) (part : Section)
  /-- A socket was dropped and the supervisor serves its CloseService. -/
  | drop (env : Env) (id : ℕ) (owner : Owner)
  /-- A socket ends without CloseService, or its reply never arrived. -/
  | lose (owner : Owner)

/-- The services in the table with their numbers. -/
def table (t : Tenancy) : List (ℕ × Service) := t.numbers.zip t.loop.daemon.services

/-- The numbers of the services after a section. -/
def renumber (env : Env) (part : Section) (t : Tenancy) (after : List Service) : List ℕ :=
  if part = .reap then (t.table.filter fun e => !env.exited e.2.child.pid).map (·.1)
  else (t.numbers ++ [t.sections]).take after.length

/-- The socket that the Spawn reply of a section is made into. -/
def issued (env : Env) (part : Section) (t : Tenancy) : List Owner :=
  match part.request with
  | some (.spawn transport name) =>
      match outcome (Daemon.spawnService env transport name false t.loop.daemon) with
      | .ok (id, _) =>
          match parseU32 id with
          | .ok service => [⟨transport, service, t.sections⟩]
          | .error _ => []
      | .error _ => []
  | _ => []

/-- A section.  The sockets end with the worker. -/
def proceed (codec : KeyCodec) (env : Env) (part : Section) (t : Tenancy) : Tenancy :=
  let loop := t.loop.step codec env part
  { loop := loop
    numbers := t.renumber env part loop.daemon.services
    sections := t.sections + 1
    held := if loop.daemon.stops = t.loop.daemon.stops then t.held ++ t.issued env part
      else []
    closings := t.closings }

/-- The services whose closing was scheduled between two states. -/
def scheduled (t : Tenancy) (after : List Service) : List ℕ :=
  ((t.numbers.zip (t.loop.daemon.services.zip after)).filter fun e =>
    e.2.1.closeAt ≠ e.2.2.closeAt).map (·.1)

/-- The CloseService of a socket. -/
def closing (id : ℕ) (owner : Owner) : Section :=
  .worker (.message (.request id (.closeService owner.transport owner.service)) [])

def act (codec : KeyCodec) (action : Action) (t : Tenancy) : Option Tenancy :=
  match action with
  | .run env part =>
      if t.loop.daemon.quit = false ∧ t.loop.clock ≤ env.now ∧
          part.request.all fun r => !r.closes then
        some (t.proceed codec env part)
      else none
  | .drop env id owner =>
      if t.loop.daemon.quit = false ∧ t.loop.clock ≤ env.now ∧
          t.loop.daemon.worker.isSome ∧ owner ∈ t.held then
        let t' := t.proceed codec env (closing id owner)
        some { t' with
          held := t'.held.erase owner
          closings := t'.closings ++
            (t.scheduled t'.loop.daemon.services).map fun number => (owner, number) }
      else none
  | .lose owner => some { t with held := t.held.erase owner }

/-- A fresh supervisor, whose worker has no streams yet. -/
def Initial (t : Tenancy) : Prop :=
  t.loop.Initial ∧ t.numbers = [] ∧ t.sections = 0 ∧ t.held = [] ∧ t.closings = []

/-- The steps that satisfy a condition on the state before and the action. -/
def Step (codec : KeyCodec) (allowed : Tenancy → Action → Prop) (t t' : Tenancy) : Prop :=
  ∃ action, allowed t action ∧ t.act codec action = some t'

abbrev Reachable (codec : KeyCodec) (allowed : Tenancy → Action → Prop) : Tenancy → Prop :=
  Transition.Reachable Initial (Step codec allowed)

/-- The transport for which an action starts a service with the id `pid`, if the
supervisor grants it. -/
def Action.Starts (action : Action) (transport : ℕ) (pid : UInt32) : Prop :=
  ∃ env part r, action = .run env part ∧ part.request = some r ∧
    r.starts = some transport ∧ env.spawned = .ok pid

/-- The operating system gives a new child no id of a child that has not been
reaped.  A stopped service may have been reaped by `stop`. -/
def Lawful (t : Tenancy) (action : Action) : Prop :=
  ∀ transport pid, action.Starts transport pid →
    (∀ s ∈ t.loop.daemon.services, s.stopped = false → s.child.pid ≠ pid) ∧
      ∀ w, t.loop.daemon.worker = some w → w.pid ≠ pid

/-- No service gets an id that a stream of its transport still carries, or that
of a service of its transport in the table. -/
def Unrecycled (t : Tenancy) (action : Action) : Prop :=
  ∀ transport pid, action.Starts transport pid →
    (∀ owner ∈ t.held, owner.transport = transport → owner.service ≠ pid) ∧
      ∀ s ∈ t.loop.daemon.services, s.transport = transport → s.child.pid ≠ pid

/-- Only the service that a stream was opened for was ever closed because of it,
and only for this a service is going to be closed. -/
structure Own (t : Tenancy) : Prop where
  closings : ∀ c ∈ t.closings, c.2 = c.1.number
  scheduled : ∀ e ∈ t.table, e.2.closeAt.isSome → ∃ c ∈ t.closings, c.2 = e.1

/-! ## The table after a section -/

variable {codec : KeyCodec} {env : Env} {part : Section} {t t' : Tenancy}

/-- Where an entry of the table after a section comes from. -/
inductive Entry (env : Env) (part : Section) (t : Tenancy) (e' : ℕ × Service) : Prop
  | old (e : ℕ × Service) (he : e ∈ t.table) (hnumber : e.1 = e'.1) (hkept : e.2.Kept e'.2)
  | new (r : Request) (hrequest : part.request = some r)
      (hstarts : r.starts = some e'.2.transport) (hspawned : env.spawned = .ok e'.2.child.pid)
      (hnumber : e'.1 = t.sections) (hcloseAt : e'.2.closeAt = none)

theorem zip_kept {numbers : List ℕ} {before after : List Service}
    (h : List.Forall₂ Service.Kept before after) {e' : ℕ × Service}
    (he' : e' ∈ numbers.zip after) :
    ∃ e ∈ numbers.zip before, e.1 = e'.1 ∧ e.2.Kept e'.2 := by
  induction h generalizing numbers with
  | nil => simp at he'
  | cons hkept hrest ih =>
      cases numbers with
      | nil => simp at he'
      | cons number numbers =>
          rw [List.zip_cons_cons] at he' ⊢
          obtain rfl | hmem := List.mem_cons.mp he'
          · exact ⟨_, List.mem_cons_self, rfl, hkept⟩
          · obtain ⟨e, he, hnumber, hkept'⟩ := ih hmem
            exact ⟨e, List.mem_cons_of_mem _ he, hnumber, hkept'⟩

/-- What a section makes of the table. -/
structure Follows (env : Env) (part : Section) (t t' : Tenancy) : Prop where
  length : t'.numbers.length = t'.loop.daemon.services.length
  entries : ∀ e' ∈ t'.table, Entry env part t e'

theorem numbers_proceed (codec : KeyCodec) (hreap : part ≠ .reap) :
    (t.proceed codec env part).numbers = (t.numbers ++ [t.sections]).take
      (t.proceed codec env part).loop.daemon.services.length := by
  unfold proceed
  dsimp only
  rw [renumber, if_neg hreap]

theorem reap_services (d : Daemon) :
    ∃ f : Service → Service, (∀ s : Service, s.Kept (f s)) ∧
      (d.reap env).services = (d.services.filter fun s => !env.exited s.child.pid).map f := by
  -- A service that is due is stopped first, which does not change its id.
  have hkept (s : Service) :
      s.Kept (if s.closeAt.any fun at_ => at_ ≤ env.now then s.stop env else s) := by
    split
    · exact s.kept_stop env
    · exact .refl s
  refine ⟨_, hkept, ?_⟩
  unfold Daemon.reap
  dsimp only
  rw [List.filter_map]
  congr 2
  funext s
  simp only [Function.comp_apply, (hkept s).pid]

theorem follows_reap (codec : KeyCodec) (hquit : t.loop.daemon.quit = false)
    (hlength : t.numbers.length = t.loop.daemon.services.length) :
    Follows env .reap t (t.proceed codec env .reap) := by
  obtain ⟨f, hkept, hreap⟩ := @reap_services env t.loop.daemon
  have hmap : t.loop.daemon.services = t.table.map (·.2) :=
    (List.map_snd_zip hlength.ge).symm
  have hservices : (t.proceed codec env .reap).loop.daemon.services =
      (t.table.filter fun e => !env.exited e.2.child.pid).map fun e => f e.2 := by
    have hstep : (t.proceed codec env .reap).loop.daemon.services =
        (t.loop.daemon.reap env).services := by
      simp [proceed, MainLoop.step, hquit]
    rw [hstep, hreap, hmap, List.filter_map, List.map_map]
    rfl
  have hnumbers : (t.proceed codec env .reap).numbers =
      (t.table.filter fun e => !env.exited e.2.child.pid).map (·.1) := by
    unfold proceed
    dsimp only
    rw [renumber, if_pos rfl]
  constructor
  · rw [hnumbers, hservices, List.length_map, List.length_map]
  · intro e' he'
    unfold table at he'
    rw [hnumbers, hservices, List.zip_map'] at he'
    obtain ⟨e, he, rfl⟩ := List.mem_map.mp he'
    exact .old e (List.mem_filter.mp he).1 rfl (hkept e.2)

theorem follows_carries (hlength : t.numbers.length = t.loop.daemon.services.length)
    (hnumbers : t'.numbers = (t.numbers ++ [t.sections]).take t'.loop.daemon.services.length)
    (h : t.loop.daemon.Carries t'.loop.daemon) : Follows env part t t' := by
  obtain hnil | hkept := h
  · constructor
    · rw [hnumbers, hnil]
      rfl
    · intro e' he'
      unfold table at he'
      rw [hnil, List.zip_nil_right] at he'
      cases he'
  · have hsame : t'.numbers = t.numbers := by
      rw [hnumbers, ← hkept.length_eq, ← hlength, List.take_left]
    constructor
    · rw [hsame, hlength, hkept.length_eq]
    · intro e' he'
      unfold table at he'
      rw [hsame] at he'
      obtain ⟨e, he, hnumber, hentry⟩ := zip_kept hkept he'
      exact .old e he hnumber hentry

theorem follows_starts (hlength : t.numbers.length = t.loop.daemon.services.length)
    (hnumbers : t'.numbers = (t.numbers ++ [t.sections]).take t'.loop.daemon.services.length)
    {r : Request} {transport : ℕ} {s : Service} (hrequest : part.request = some r)
    (htransport : r.starts = some transport)
    (h : t.loop.daemon.Starts env transport t'.loop.daemon s) : Follows env part t t' := by
  have hall : t'.numbers = t.numbers ++ [t.sections] := by
    rw [hnumbers, h.services, List.take_of_length_le]
    rw [List.length_append, List.length_append, hlength]
    exact le_rfl
  constructor
  · rw [hall, h.services, List.length_append, List.length_append, hlength]
    rfl
  · intro e' he'
    unfold table at he'
    rw [hall, h.services, List.zip_append hlength] at he'
    obtain hold | hnew := List.mem_append.mp he'
    · exact .old e' hold rfl (.refl _)
    · obtain rfl := List.mem_singleton.mp hnew
      exact .new r hrequest (h.transport_eq ▸ htransport) h.spawned rfl h.closeAt

theorem follows_proceed (codec : KeyCodec) (hquit : t.loop.daemon.quit = false)
    (hlength : t.numbers.length = t.loop.daemon.services.length)
    (hcloses : ∀ r, part.request = some r → r.closes = false) :
    Follows env part t (t.proceed codec env part) := by
  by_cases hreap : part = .reap
  · subst hreap
    exact follows_reap codec hquit hlength
  · have hnumbers := @numbers_proceed env part t codec hreap
    obtain hcarries | ⟨r, transport, s, hrequest, htransport, hs⟩ :=
      @MainLoop.step_services codec env part t.loop hreap hcloses
    · exact follows_carries hlength hnumbers hcarries
    · exact follows_starts hlength hnumbers hrequest htransport hs

/-! ## The CloseService of a socket -/

/-- A service when CloseService names the one of `owner`. -/
def marked (env : Env) (owner : Owner) (s : Service) : Service :=
  if s.transport = owner.transport ∧ s.child.pid = owner.service ∧ s.binder = none then
    { s with closeAt := some (env.now + secs 1) }
  else s

theorem marked_spec (env : Env) (owner : Owner) (s : Service) :
    (marked env owner s).child.pid = s.child.pid ∧
      (marked env owner s).transport = s.transport ∧
      ((marked env owner s).closeAt ≠ s.closeAt →
        s.transport = owner.transport ∧ s.child.pid = owner.service) := by
  unfold marked
  split
  · next h => exact ⟨rfl, rfl, fun _ => ⟨h.1, h.2.1⟩⟩
  · exact ⟨rfl, rfl, fun hne => absurd rfl hne⟩

variable {id : ℕ} {owner : Owner}

theorem closing_services (codec : KeyCodec) (hquit : t.loop.daemon.quit = false)
    (hworker : t.loop.daemon.worker.isSome) :
    (t.proceed codec env (closing id owner)).loop.daemon.services =
      t.loop.daemon.services.map (marked env owner) := by
  obtain ⟨w, hworker⟩ := Option.isSome_iff_exists.mp hworker
  change (t.loop.step codec env (closing id owner)).daemon.services = _
  unfold closing
  rw [MainLoop.step_request hquit hworker, Daemon.serve_services]
  rfl

theorem closing_table (codec : KeyCodec) (hquit : t.loop.daemon.quit = false)
    (hworker : t.loop.daemon.worker.isSome)
    (hlength : t.numbers.length = t.loop.daemon.services.length) :
    (t.proceed codec env (closing id owner)).numbers = t.numbers ∧
      (t.proceed codec env (closing id owner)).table =
        t.table.map fun e => (e.1, marked env owner e.2) := by
  have hservices := @closing_services env t id owner codec hquit hworker
  have hnumbers : (t.proceed codec env (closing id owner)).numbers = t.numbers := by
    have hclosing : closing id owner ≠ .reap := fun h => by cases h
    rw [numbers_proceed codec hclosing, hservices, List.length_map, ← hlength,
      List.take_left]
  refine ⟨hnumbers, ?_⟩
  unfold table
  rw [hnumbers, hservices, List.zip_map_right]
  rfl

theorem mem_scheduled {f : Service → Service} {number : ℕ} :
    number ∈ t.scheduled (t.loop.daemon.services.map f) ↔
      ∃ e ∈ t.table, e.1 = number ∧ e.2.closeAt ≠ (f e.2).closeAt := by
  have hzip : t.numbers.zip (t.loop.daemon.services.zip (t.loop.daemon.services.map f)) =
      t.table.map fun e => (e.1, e.2, f e.2) := by
    have hpair : t.loop.daemon.services.zip (t.loop.daemon.services.map f) =
        t.loop.daemon.services.map fun s => (s, f s) := by
      conv_lhs => rw [← List.map_id t.loop.daemon.services, List.map_map, List.zip_map']
      rfl
    rw [hpair, List.zip_map_right]
    rfl
  unfold scheduled
  rw [hzip]
  simp only [List.mem_map, List.mem_filter, decide_eq_true_eq]
  constructor
  · rintro ⟨x, ⟨⟨e, he, rfl⟩, hne⟩, rfl⟩
    exact ⟨e, he, rfl, hne⟩
  · rintro ⟨e, he, rfl, hne⟩
    exact ⟨_, ⟨⟨e, he, rfl⟩, hne⟩, rfl⟩

/-! ## The invariant -/

/-- The socket of a Spawn reply names the service that the section has started. -/
theorem mem_issued (h : owner ∈ t.issued env part) :
    ∃ name, part.request = some (.spawn owner.transport name) ∧
      env.spawned = .ok owner.service ∧ owner.number = t.sections := by
  unfold issued at h
  split at h
  · next transport name hrequest =>
    have hspec := @Daemon.spawnService_starts env t.loop.daemon transport name false
    unfold wp at hspec
    cases hrun : Daemon.spawnService env transport name false t.loop.daemon with
    | error error d => simp [hrun] at h
    | ok reply d =>
        rw [hrun] at hspec
        obtain ⟨s, hs, hreply⟩ := hspec
        obtain ⟨id, fds⟩ := reply
        obtain rfl : id = toString s.child.pid.toNat := hreply rfl
        simp only [hrun, outcome_ok, parseU32_toString] at h
        obtain rfl := List.mem_singleton.mp h
        exact ⟨name, hrequest, hs.spawned, rfl⟩
  · cases h

/-- Each socket names the service that it was opened for, or none that is in the
table. -/
structure Settled (t : Tenancy) : Prop where
  length : t.numbers.length = t.loop.daemon.services.length
  started : ∀ e ∈ t.table, e.1 < t.sections
  below : ∀ owner ∈ t.held, owner.number < t.sections
  mine : ∀ owner ∈ t.held, ∀ e ∈ t.table, e.2.transport = owner.transport →
    e.2.child.pid = owner.service → e.1 = owner.number
  own : t.Own

theorem mem_held_proceed (h : owner ∈ (t.proceed codec env part).held) :
    owner ∈ t.held ∨ owner ∈ t.issued env part := by
  change owner ∈ ite _ _ _ at h
  split at h
  · exact List.mem_append.mp h
  · cases h

/-- A turn of the loop runs while the supervisor does, and drops no stream. -/
theorem act_run (hact : t.act codec (.run env part) = some t') :
    t.loop.daemon.quit = false ∧ (∀ r, part.request = some r → r.closes = false) ∧
      t' = t.proceed codec env part := by
  unfold act at hact
  dsimp only at hact
  split at hact
  · next hguard =>
    obtain ⟨hquit, -, hcloses⟩ := hguard
    refine ⟨hquit, fun r hr => ?_, (Option.some.inj hact).symm⟩
    rw [hr] at hcloses
    exact Bool.not_eq_true' _ ▸ hcloses
  · cases hact

theorem Settled.run (h : t.Settled) (hallowed : t.Unrecycled (.run env part))
    (hact : t.act codec (.run env part) = some t') : t'.Settled := by
  obtain ⟨hquit, hcloses, rfl⟩ := act_run hact
  have hfollows := @follows_proceed env part t codec hquit h.length hcloses
  constructor
  · exact hfollows.length
  · intro e' he'
    obtain ⟨e, he, hnumber, -⟩ | ⟨-, -, -, -, hnumber, -⟩ := hfollows.entries e' he'
    · exact hnumber ▸ (h.started e he).trans (Nat.lt_succ_self _)
    · exact hnumber ▸ Nat.lt_succ_self _
  · intro owner howner
    obtain hold | hnew := mem_held_proceed howner
    · exact (h.below owner hold).trans (Nat.lt_succ_self _)
    · obtain ⟨name, -, -, hnumber⟩ := mem_issued hnew
      exact hnumber ▸ Nat.lt_succ_self _
  · intro owner howner e' he' htransport hpid
    obtain hold | hnew := mem_held_proceed howner
    · obtain ⟨e, he, hnumber, hkept⟩ | ⟨r, hrequest, hstarts, hspawned, -, -⟩ :=
        hfollows.entries e' he'
      · exact hnumber ▸ h.mine owner hold e he (hkept.transport ▸ htransport)
          (hkept.pid ▸ hpid)
      · have hfree := hallowed e'.2.transport e'.2.child.pid
          ⟨env, part, r, rfl, hrequest, hstarts, hspawned⟩
        exact absurd hpid.symm (hfree.1 owner hold htransport.symm)
    · obtain ⟨name, hrequest, hspawned, hsections⟩ := mem_issued hnew
      have hfree := hallowed owner.transport owner.service
        ⟨env, part, _, rfl, hrequest, rfl, hspawned⟩
      obtain ⟨e, he, -, hkept⟩ | ⟨-, -, -, -, hnumber, -⟩ := hfollows.entries e' he'
      · have hmem : e.2 ∈ t.loop.daemon.services := (List.of_mem_zip he).2
        exact absurd (hkept.pid ▸ hpid) (hfree.2 e.2 hmem (hkept.transport ▸ htransport))
      · exact hnumber.trans hsections.symm
  · constructor
    · exact h.own.closings
    · intro e' he' hsome
      obtain ⟨e, he, hnumber, hkept⟩ | ⟨-, -, -, -, -, hcloseAt⟩ := hfollows.entries e' he'
      · exact hnumber ▸ h.own.scheduled e he (hkept.closeAt ▸ hsome)
      · rw [hcloseAt] at hsome
        cases hsome

theorem Settled.drop (h : t.Settled) (hact : t.act codec (.drop env id owner) = some t') :
    t'.Settled := by
  unfold act at hact
  dsimp only at hact
  split at hact
  · next hguard =>
    obtain rfl := Option.some.inj hact
    obtain ⟨hquit, -, hworker, hheld⟩ := hguard
    obtain ⟨hnumbers, htable⟩ := @closing_table env t id owner codec hquit hworker h.length
    have hservices := @closing_services env t id owner codec hquit hworker
    have hmem : ∀ o ∈ (t.proceed codec env (closing id owner)).held.erase owner, o ∈ t.held := by
      intro o ho
      obtain hold | hnew := mem_held_proceed (List.mem_of_mem_erase ho)
      · exact hold
      · cases hnew
    have hmarked : ∀ e' ∈ (t.proceed codec env (closing id owner)).table,
        ∃ e ∈ t.table, (e.1, marked env owner e.2) = e' := by
      intro e' he'
      rw [htable] at he'
      exact List.mem_map.mp he'
    constructor
    · change (t.proceed codec env (closing id owner)).numbers.length =
        (t.proceed codec env (closing id owner)).loop.daemon.services.length
      rw [hnumbers, hservices, List.length_map]
      exact h.length
    · intro e' he'
      obtain ⟨e, he, rfl⟩ := hmarked e' he'
      exact (h.started e he).trans (Nat.lt_succ_self _)
    · exact fun o ho => (h.below o (hmem o ho)).trans (Nat.lt_succ_self _)
    · intro o ho e' he' htransport hpid
      obtain ⟨e, he, rfl⟩ := hmarked e' he'
      obtain ⟨hsamePid, hsame, -⟩ := marked_spec env owner e.2
      exact h.mine o (hmem o ho) e he (hsame.symm.trans htransport) (hsamePid.symm.trans hpid)
    · constructor
      · intro c hc
        obtain hold | hnew := List.mem_append.mp hc
        · exact h.own.closings c hold
        · obtain ⟨number, hnumber, rfl⟩ := List.mem_map.mp hnew
          rw [hservices] at hnumber
          obtain ⟨e, he, rfl, hne⟩ := mem_scheduled.mp hnumber
          obtain ⟨htransport, hpid⟩ := (marked_spec env owner e.2).2.2 hne.symm
          exact h.mine owner hheld e he htransport hpid
      · intro e' he' hsome
        obtain ⟨e, he, rfl⟩ := hmarked e' he'
        by_cases hchange : e.2.closeAt = (marked env owner e.2).closeAt
        · obtain ⟨c, hc, hnumber⟩ := h.own.scheduled e he (hchange ▸ hsome)
          exact ⟨c, List.mem_append_left _ hc, hnumber⟩
        · refine ⟨(owner, e.1), List.mem_append_right _ ?_, rfl⟩
          rw [hservices]
          exact List.mem_map.mpr ⟨e.1, mem_scheduled.mpr ⟨e, he, rfl, hchange⟩, rfl⟩
  · cases hact

theorem Settled.lose (h : t.Settled) (owner : Owner) :
    Settled { t with held := t.held.erase owner } where
  length := h.length
  started := h.started
  below := fun o ho => h.below o (List.mem_of_mem_erase ho)
  mine := fun o ho => h.mine o (List.mem_of_mem_erase ho)
  own := ⟨h.own.closings, h.own.scheduled⟩

theorem Reachable.settled (h : Reachable codec Unrecycled t) : t.Settled := by
  refine h.invariant ?_ ?_
  · rintro t ⟨⟨store, test, now, hloop⟩, hnumbers, -, hheld, hclosings⟩
    have hservices : t.loop.daemon.services = [] := by rw [hloop]; rfl
    have htable : t.table = [] := by unfold table; rw [hnumbers]; rfl
    constructor
    · rw [hnumbers, hservices]
      rfl
    · rw [htable]
      exact fun e he => by cases he
    · rw [hheld]
      exact fun o ho => by cases ho
    · rw [hheld]
      exact fun o ho => by cases ho
    · constructor
      · rw [hclosings]
        exact fun c hc => by cases hc
      · rw [htable]
        exact fun e he => by cases he
  · rintro t t' - hsettled ⟨action, hallowed, hact⟩
    cases action with
    | run env part => exact hsettled.run hallowed hact
    | drop env id owner => exact hsettled.drop hact
    | lose owner =>
        obtain rfl := Option.some.inj hact
        exact hsettled.lose owner

/-- A stream whose id was given to another service of its transport closes that
service when it is dropped next. -/
theorem recycled_closes {t₁ t₂ : Tenancy} {env' : Env} {s : Service} (h : t.Settled)
    (hheld : owner ∈ t.held) (hact : t.act codec (.run env part) = some t₁)
    (hnew : (t.sections, s) ∈ t₁.table) (htransport : s.transport = owner.transport)
    (hpid : s.child.pid = owner.service) (hbinder : s.binder = none)
    (hdrop : t₁.act codec (.drop env' id owner) = some t₂) : ¬t₂.Own := by
  obtain ⟨hquit, hcloses, rfl⟩ := act_run hact
  have hfollows := @follows_proceed env part t codec hquit h.length hcloses
  unfold act at hdrop
  dsimp only at hdrop
  split at hdrop
  · next hguard =>
    obtain rfl := Option.some.inj hdrop
    obtain ⟨hquit, -, hworker, -⟩ := hguard
    have hcloseAt : s.closeAt = none := by
      obtain ⟨e, he, hnumber, -⟩ | ⟨-, -, -, -, -, hcloseAt⟩ := hfollows.entries _ hnew
      · exact absurd hnumber (h.started e he).ne
      · exact hcloseAt
    have hmarked : s.closeAt ≠ (marked env' owner s).closeAt := by
      rw [marked, if_pos ⟨htransport, hpid, hbinder⟩, hcloseAt]
      exact fun h => by cases h
    intro hown
    have hclosing := hown.closings (owner, t.sections) (List.mem_append_right _ (by
      rw [closing_services codec hquit hworker]
      exact List.mem_map.mpr ⟨_, mem_scheduled.mpr ⟨_, hnew, rfl, hmarked⟩, rfl⟩))
    exact absurd hclosing (h.below owner hheld).ne'
  · cases hdrop

/-- As long as no service gets an id that a stream of its transport still
carries, a dropped stream closes the service that it was opened for and no other
one.  Once one does, that stream closes it. -/
theorem closes_own (codec : KeyCodec) :
    (∀ t, Reachable codec Unrecycled t → t.Own) ∧
      ∀ t env part t₁ owner s env' id t₂, Reachable codec Unrecycled t → owner ∈ t.held →
        t.act codec (.run env part) = some t₁ → (t.sections, s) ∈ t₁.table →
        s.transport = owner.transport → s.child.pid = owner.service → s.binder = none →
        t₁.act codec (.drop env' id owner) = some t₂ → ¬t₂.Own :=
  ⟨fun _ h => h.settled.own, fun _ _ _ _ _ _ _ _ _ h hheld hact hnew htransport hpid hbinder
    hdrop => recycled_closes h.settled hheld hact hnew htransport hpid hbinder hdrop⟩

/-! ## Runs -/

/-- The actions one after the other, as long as they pass the check. -/
def perform (codec : KeyCodec) (check : Tenancy → Action → Bool) :
    List Action → Tenancy → Option Tenancy
  | [], t => some t
  | action :: rest, t =>
      if check t action then (t.act codec action).bind (perform codec check rest) else none

theorem perform_reachable {allowed : Tenancy → Action → Prop}
    {check : Tenancy → Action → Bool} (hcheck : ∀ t action, check t action → allowed t action)
    {actions : List Action} (h : Reachable codec allowed t)
    (hrun : t.perform codec check actions = some t') : Reachable codec allowed t' := by
  induction actions generalizing t with
  | nil =>
      obtain rfl := Option.some.inj hrun
      exact h
  | cons action rest ih =>
      unfold perform at hrun
      split at hrun
      · next hpass =>
        obtain ⟨next, hact, hrest⟩ := Option.bind_eq_some_iff.mp hrun
        exact ih (h.next ⟨action, hcheck t action hpass, hact⟩) hrest
      · cases hrun

/-- A check of the id that the next child gets. -/
def checkSpawned (free : Tenancy → UInt32 → Bool) (t : Tenancy) : Action → Bool
  | .run env _ =>
      match env.spawned with
      | .ok pid => free t pid
      | .error _ => true
  | .drop _ _ _ => true
  | .lose _ => true

/-- No child has the id. -/
def free (t : Tenancy) (pid : UInt32) : Bool :=
  t.loop.daemon.services.all (fun s => s.child.pid ≠ pid) &&
    t.loop.daemon.worker.all fun w => w.pid ≠ pid

/-- Neither a child nor a stream has the id. -/
def unused (t : Tenancy) (pid : UInt32) : Bool :=
  t.free pid && t.held.all fun owner => owner.service ≠ pid

theorem checkSpawned_starts {check : Tenancy → UInt32 → Bool} {action : Action}
    (h : checkSpawned check t action) {transport : ℕ} {pid : UInt32}
    (hstarts : action.Starts transport pid) : check t pid := by
  obtain ⟨env, part, r, rfl, -, -, hspawned⟩ := hstarts
  unfold checkSpawned at h
  simp only [hspawned] at h
  exact h

theorem free_spec {pid : UInt32} (h : t.free pid) :
    (∀ s ∈ t.loop.daemon.services, s.child.pid ≠ pid) ∧
      ∀ w, t.loop.daemon.worker = some w → w.pid ≠ pid := by
  unfold free at h
  simp only [Bool.and_eq_true, List.all_eq_true, decide_eq_true_eq] at h
  refine ⟨h.1, fun w hw => ?_⟩
  have hall := h.2
  rw [hw] at hall
  exact of_decide_eq_true hall

theorem lawful_of_free (t : Tenancy) (action : Action) (h : checkSpawned free t action) :
    t.Lawful action := by
  intro transport pid hstarts
  obtain ⟨hservices, hworker⟩ := free_spec (checkSpawned_starts h hstarts)
  exact ⟨fun s hs _ => hservices s hs, hworker⟩

theorem unrecycled_of_unused (t : Tenancy) (action : Action)
    (h : checkSpawned unused t action) : t.Unrecycled action := by
  intro transport pid hstarts
  have hunused := checkSpawned_starts h hstarts
  unfold unused at hunused
  simp only [Bool.and_eq_true, List.all_eq_true, decide_eq_true_eq] at hunused
  exact ⟨fun owner ho _ => hunused.2 owner ho,
    fun s hs _ => (free_spec hunused.1).1 s hs⟩

/-- A fresh supervisor with one paired host. -/
def fresh : Tenancy := ⟨.initial MainLoop.pairedStore true (secs 20), [], 0, [], []⟩

theorem fresh_reachable {allowed : Tenancy → Action → Prop} :
    Reachable codec allowed fresh :=
  .start ⟨⟨_, _, _, rfl⟩, rfl, rfl, rfl, rfl⟩

/-- Every call succeeds, and the next child gets the id 200. -/
def spawning : Env := { MainLoop.cooperative (secs 20) with spawned := .ok 200 }

/-- The worker starts and a host opens a service. -/
def opening : List Action :=
  [.run (MainLoop.cooperative (secs 20)) .checks,
    .run spawning (.worker (.message .ready [])),
    .run spawning (.worker (.message (.request 0 (.authenticated 7 "aa")) [])),
    .run spawning (.worker (.message (.request 1 (.spawn 7 "sync:")) []))]

/-- The service ends, another one of the transport gets its id, and then the
stream of the first one is dropped. -/
def reusing : List Action :=
  opening ++
    [.run { spawning with exited := fun _ => true, spawned := .error "" } .reap,
      .run spawning (.worker (.message (.request 2 (.spawn 7 "sync:")) [])),
      .drop spawning 3 ⟨7, 200, 3⟩]

/-- A stream that is dropped closes its service. -/
theorem closes_own_dropped :
    ∃ t, Reachable MainLoop.constantCodec Unrecycled t ∧
      t.closings = [(⟨7, 200, 3⟩, 3)] ∧ t.Own := by
  have hrun : (fresh.perform MainLoop.constantCodec (checkSpawned unused)
      (opening ++ [.drop spawning 3 ⟨7, 200, 3⟩])).map (·.closings) =
        some [(⟨7, 200, 3⟩, 3)] := by decide +kernel
  obtain ⟨t, ht, hclosings⟩ := Option.map_eq_some_iff.mp hrun
  have hreachable := perform_reachable unrecycled_of_unused fresh_reachable ht
  exact ⟨t, hreachable, hclosings, (closes_own MainLoop.constantCodec).1 t hreachable⟩

/-- The operating system gives the id of a reaped service again, and the stream
of that service closes the new one. -/
theorem closes_own_fails :
    ∃ t, Reachable MainLoop.constantCodec Lawful t ∧
      t.closings = [(⟨7, 200, 3⟩, 5)] ∧ ¬t.Own := by
  have hrun : (fresh.perform MainLoop.constantCodec (checkSpawned free) reusing).map
      (·.closings) = some [(⟨7, 200, 3⟩, 5)] := by decide +kernel
  obtain ⟨t, ht, hclosings⟩ := Option.map_eq_some_iff.mp hrun
  refine ⟨t, perform_reachable lawful_of_free fresh_reachable ht, hclosings, fun hown => ?_⟩
  have hwrong := hown.closings (⟨7, 200, 3⟩, 5) (hclosings ▸ List.mem_cons_self)
  exact absurd hwrong (by decide)

end Tenancy

end Altdb
