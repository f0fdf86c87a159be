import Altdb.System

/-!
# The system refines the exchange

In every run the calls of the worker and the replies on its socket form a run
of `Exchange`, so replies and calls match as there.  A replaced worker starts
a new exchange.
-/

namespace Altdb

open Fallible Relation

namespace System

variable {codec : KeyCodec} {allowed : System → Action → Prop}
  {s s' : System} {action : Action}

/-! ## The cases of a step -/

/-- A process after the supervisor has read a message that is no request. -/
def Drops (process process' : Option Process) : Prop :=
  process' = process ∨ ∃ p posted rest, process = some p ∧
    p.broker.outbox = posted :: rest ∧
    (∀ id r, posted.message ≠ .request id r) ∧
    process' = some { p with broker := { p.broker with outbox := rest } }

inductive Done (codec : KeyCodec) (s : System) : Action → System → Prop
  | idle (env : Env) (part : Section) (process : Option Process)
      (htime : s.loop.clock ≤ env.now) (hidle : part.Idle)
      (hprocess : Drops s.worker process) :
      Done codec s (.supervisor env part) (s.proceed codec env part process)
  | request (env : Env) (id : ℕ) (r : Request) (p : Process)
      (caller : Option ℕ) (rest : List Posted)
      (htime : s.loop.clock ≤ env.now) (hquit : s.loop.daemon.quit = false)
      (hworker : s.worker = some p)
      (houtbox : p.broker.outbox = ⟨.request id r, caller⟩ :: rest) :
      Done codec s (.supervisor env (.worker (.message (.request id r) [])))
        (s.proceed codec env (.worker (.message (.request id r) []))
          (some { p with broker := { p.broker with outbox := rest } }))
  | main (part : MainPart) (p p' : Process) (hworker : s.worker = some p)
      (hdone : p.MainDone s.inbox[p.received]? p') :
      Done codec s (.main part) { s with worker := some p' }
  | call (c : ℕ) (part : CallStep) (p : Process) (b : Broker)
      (hworker : s.worker = some p) (hadvance : p.broker.advance c part = some b) :
      Done codec s (.call c part)
        { s with worker := some { p with broker := b } }
  | transport (i : ℕ) (part : TransportPart) (p p' : Process)
      (thread : TransportThread) (hworker : s.worker = some p)
      (hthread : p.threads[i]? = some thread)
      (hdone : p.TransportDone i thread.stage p') :
      Done codec s (.transport i part) { s with worker := some p' }
  | pairing (j : ℕ) (part : PairingPart) (p p' : Process)
      (thread : PairingThread) (events : List Event)
      (hworker : s.worker = some p) (hthread : p.pairings[j]? = some thread)
      (hdone : p.PairingDone codec j thread part p')
      (hevents : events = ((p.acknowledged j part).map fun sent =>
        Event.acknowledged s.loop.daemon.stops j sent.1 sent.2).toList) :
      Done codec s (.pairing j part)
        { s with worker := some p', events := s.events ++ events }

theorem idle_of_message {message : Message} {fds : List Fd}
    (h : ∀ id r, message = .request id r → fds ≠ []) :
    Section.Idle (.worker (.message message fds)) := by
  rintro r ⟨id, heq⟩
  simp only [Section.worker.injEq, Arrival.message.injEq] at heq
  exact h id r heq.1 heq.2

theorem supervise_done {env : Env} {part : Section}
    (h : s.supervise codec env part = some s') :
    Done codec s (.supervisor env part) s' := by
  unfold supervise at h
  split at h
  · next hguard =>
    obtain ⟨hquit, htime⟩ := hguard
    split at h
    · next message fds =>
      cases hworker : s.worker with
      | none => simp [hworker] at h
      | some p =>
          simp only [hworker, Option.bind_eq_bind, Option.bind_some] at h
          split at h
          · next posted rest houtbox =>
            split at h
            · next hmessage =>
              obtain ⟨rfl, rfl⟩ := hmessage
              cases h
              by_cases hrequest : ∃ id r, posted.message = .request id r
              · obtain ⟨id, r, hmessage⟩ := hrequest
                obtain ⟨message, caller⟩ := posted
                obtain rfl : message = .request id r := hmessage
                exact .request env id r p caller rest htime hquit hworker houtbox
              · have hnone : ∀ id r, posted.message ≠ .request id r :=
                  fun id r heq => hrequest ⟨id, r, heq⟩
                refine .idle env _ _ htime (idle_of_message ?_)
                  (.inr ⟨p, posted, rest, hworker, houtbox, hnone, rfl⟩)
                exact fun id r heq => absurd heq (hnone id r)
            · cases h
          · cases h
    · next hother =>
      cases h
      refine .idle env part _ htime ?_ (.inl rfl)
      rintro r ⟨id, rfl⟩
      exact hother _ _ rfl
  · cases h

theorem act_done (h : s.act codec action = some s') :
    Done codec s action s' := by
  cases action with
  | supervisor env part => exact supervise_done h
  | main part =>
      simp only [act, withProcess, Option.bind_eq_bind,
        Option.bind_eq_some_iff, Option.map_eq_some_iff] at h
      obtain ⟨p, hworker, p', hp', rfl⟩ := h
      exact .main part p p' hworker (Process.main_done hp')
  | call c part =>
      simp only [act, withProcess, Option.bind_eq_bind,
        Option.bind_eq_some_iff, Option.map_eq_some_iff] at h
      obtain ⟨p, hworker, _, ⟨b, hb, rfl⟩, rfl⟩ := h
      exact .call c part p b hworker hb
  | transport i part =>
      simp only [act, withProcess, Option.bind_eq_bind,
        Option.bind_eq_some_iff, Option.map_eq_some_iff] at h
      obtain ⟨p, hworker, p', hp', rfl⟩ := h
      obtain ⟨thread, hthread, hdone⟩ := Process.transport_done hp'
      exact .transport i part p p' thread hworker hthread hdone
  | pairing j part =>
      simp only [act, withProcess, Option.bind_eq_bind,
        Option.bind_eq_some_iff, Option.map_eq_some_iff] at h
      obtain ⟨p, hworker, _, ⟨p', hp', rfl⟩, h⟩ := h
      cases h
      obtain ⟨thread, hthread, hdone⟩ := Process.pairing_done hp'
      exact .pairing j part p p' thread _ hworker hthread hdone rfl

/-! ## Messages and the exchange -/

variable {inbox messages : List (Message × List Fd)} {p p' : Process}

theorem replies_of_quiet (h : ∀ item ∈ messages, item.1.Quiet) :
    messages.filterMap replyOf = [] := by
  rw [List.filterMap_eq_nil_iff]
  rintro ⟨message, fds⟩ hitem
  have hquiet := h _ hitem
  cases message
  case reply id ok text => exact absurd rfl (hquiet id ok text)
  all_goals rfl

/-- New messages are on their way. -/
theorem exchange_append (hreceived : p.received ≤ inbox.length) :
    exchange (inbox ++ messages) p =
      { exchange inbox p with
        replies := (exchange inbox p).replies ++ messages.filterMap replyOf } := by
  simp only [exchange, List.drop_append_of_le_length hreceived,
    List.take_append_of_le_length hreceived, List.filterMap_append]

theorem exchange_append_quiet (hreceived : p.received ≤ inbox.length)
    (h : ∀ item ∈ messages, item.1.Quiet) :
    exchange (inbox ++ messages) p = exchange inbox p := by
  rw [exchange_append hreceived, replies_of_quiet h, List.append_nil]

/-- The next message is read. -/
theorem exchange_receive {item : Message × List Fd}
    (hitem : inbox[p.received]? = some item)
    (hreceived : p'.received = p.received + 1) :
    (exchange inbox p).replies = (replyOf item).toList ++
        (exchange inbox p').replies ∧
      (exchange inbox p').arrived =
        (exchange inbox p).arrived ++ (replyOf item).toList := by
  obtain ⟨hlt, hget⟩ := List.getElem?_eq_some_iff.mp hitem
  constructor
  · simp only [exchange, hreceived, List.drop_eq_getElem_cons hlt, hget,
      List.filterMap_cons]
    cases replyOf item <;> rfl
  · simp only [exchange, hreceived, List.take_add_one, hitem,
      Option.toList_some, List.filterMap_append, List.filterMap_cons,
      List.filterMap_nil]
    cases replyOf item <;> rfl

theorem exchange_receive_quiet {item : Message × List Fd}
    (hitem : inbox[p.received]? = some item) (hquiet : item.1.Quiet)
    (hreceived : p'.received = p.received + 1) :
    exchange inbox p' = { exchange inbox p with broker := p'.broker } := by
  obtain ⟨hreplies, harrived⟩ := exchange_receive hitem hreceived
  have hnone : replyOf item = none := by
    have hall := @replies_of_quiet [item] (by simpa using hquiet)
    cases hreply : replyOf item <;> simp [hreply] at hall ⊢
  rw [hnone] at hreplies harrived
  simp only [Option.toList_none, List.nil_append, List.append_nil] at hreplies harrived
  change Exchange.mk p'.broker (exchange inbox p').replies
    (exchange inbox p').arrived = _
  rw [← hreplies, harrived]

theorem receive_exchange_quiet {item : Message × List Fd}
    (hitem : inbox[p.received]? = some item) (hquiet : item.1.Quiet)
    (hreceived : p'.received = p.received + 1)
    (hrun : ReflTransGen Exchange.Step (exchange inbox p)
      { exchange inbox p with broker := p'.broker }) :
    p'.received ≤ inbox.length ∧
      ReflTransGen Exchange.Step (exchange inbox p) (exchange inbox p') := by
  refine ⟨?_, ?_⟩
  · rw [hreceived]
    exact (List.getElem?_eq_some_iff.mp hitem).1
  · rwa [exchange_receive_quiet hitem hquiet hreceived]

/-- The main loop makes steps of the exchange. -/
theorem main_exchange (hreceived : p.received ≤ inbox.length)
    (hdone : p.MainDone inbox[p.received]? p') :
    p'.received ≤ inbox.length ∧
      ReflTransGen Exchange.Step (exchange inbox p) (exchange inbox p') := by
  cases hdone with
  | boot message fds hosts hitem hquiet =>
      exact receive_exchange_quiet hitem hquiet rfl (.single (.ready _))
  | reply id ok text fds hitem =>
      refine ⟨(List.getElem?_eq_some_iff.mp hitem).1, .single ?_⟩
      obtain ⟨hreplies, harrived⟩ := @exchange_receive inbox p
        { p.advance with broker := p.broker.deliver id ⟨ok, text, fds⟩ } _ hitem
        rfl
      have hdeliver : exchange inbox
          { p.advance with broker := p.broker.deliver id ⟨ok, text, fds⟩ } =
            (exchange inbox p).deliver 0 ⟨id - 1, id, ⟨ok, text, fds⟩⟩ := by
        simp only [Exchange.deliver, hreplies]
        rw [Exchange.mk.injEq]
        exact ⟨rfl, rfl, harrived⟩
      rw [hdeliver]
      exact .deliver _ 0 _ (by rw [hreplies]; rfl)
  | hosts hosts fds hitem =>
      exact receive_exchange_quiet hitem (by simp [Message.Quiet]) rfl .refl
  | pairing message fds window hitem hquiet =>
      exact receive_exchange_quiet hitem hquiet rfl .refl
  | exit => exact ⟨hreceived, .single (.close _)⟩
  | sweep | expire | accept | window | acceptPairing => exact ⟨hreceived, .refl⟩

theorem transport_exchange {i : ℕ} {stage : TransportStage}
    (hdone : p.TransportDone i stage p') : p'.received = p.received ∧
      ReflTransGen Exchange.Step (exchange inbox p) (exchange inbox p') := by
  cases hdone with
  | authenticate _ b _ hcall | ask _ _ b _ _ hcall | leave _ b _ hcall =>
      exact ⟨rfl, .single (.call _ _ b hcall)⟩
  | fail | granted | refused | answered | left => exact ⟨rfl, .refl⟩

theorem pairing_exchange {j : ℕ} {thread : PairingThread} {part : PairingPart}
    (hdone : p.PairingDone codec j thread part p') : p'.received = p.received ∧
      ReflTransGen Exchange.Step (exchange inbox p) (exchange inbox p') := by
  cases hdone with
  | commit _ _ _ b _ _ hcall | report b _ hcall =>
      exact ⟨rfl, .single (.call _ _ b hcall)⟩
  | acknowledge | fail | granted | refused | reported => exact ⟨rfl, .refl⟩

/-! ## The invariant of the composition -/

/-- The parts fit together: a supervisor with a worker holds its socket, and
without one it has no connections. -/
structure Linked (codec : KeyCodec) (s : System) : Prop where
  reachable : s.loop.Reachable codec
  present : s.worker.isSome = s.loop.daemon.worker.isSome
  linked : ∀ p, s.worker = some p → p.received ≤ s.inbox.length ∧
    (exchange s.inbox p).Reachable

theorem Linked.worker_eq (h : Linked codec s) {p : Process}
    (hp : s.worker = some p) : ∃ w, s.loop.daemon.worker = some w ∧
      s.inbox = w.inbox := by
  have hsome : s.loop.daemon.worker.isSome := by
    rw [← h.present, hp]
    rfl
  obtain ⟨w, hw⟩ := Option.isSome_iff_exists.mp hsome
  exact ⟨w, hw, by simp [inbox, hw]⟩

theorem Linked.invariant (h : Linked codec s) (hp : s.worker = some p) :
    (exchange s.inbox p).Invariant :=
  (h.linked p hp).2.invariant

theorem initial_exchange (h : ∀ item ∈ inbox, item.1.Quiet) :
    exchange inbox .initial = .initial := by
  simp [exchange, Process.initial, Exchange.initial, replies_of_quiet h]

/-- A supervisor without a worker has no connections. -/
theorem Linked.fresh (h : Linked codec s) (hnone : s.worker = none) :
    s.loop.daemon.Fresh := by
  have hworker : s.loop.daemon.worker = none := by
    rw [← Option.not_isSome_iff_eq_none, ← h.present, hnone]
    simp
  exact .of_none (fun t => by simp [h.reachable.contained.transports hworker])
    hworker

/-- What a section makes of the process and its messages. -/
inductive Followed (codec : KeyCodec) (env : Env) (part : Section)
    (process : Option Process) (s : System) : Prop
  | kept (p : Process) (w : Worker) (messages : List (Message × List Fd))
      (hprocess : process = some p) (hworker : s.loop.daemon.worker = some w)
      (hkeeps : s.loop.daemon.Keeps env (s.loop.step codec env part).daemon w
        messages)
      (htransports : ∀ (t : ℕ) (fp : String),
        (s.loop.step codec env part).daemon.transports[t]? = some fp →
          s.loop.daemon.transports[t]? = some fp)
      (heq : (s.proceed codec env part process).worker = some p)
      (hinbox : (s.proceed codec env part process).inbox = s.inbox ++ messages)
  | replaced (hfresh : (s.loop.step codec env part).daemon.Fresh)
      (hstops : s.loop.daemon.stops ≤ (s.loop.step codec env part).daemon.stops)
      (hold : process.isSome →
        s.loop.daemon.stops < (s.loop.step codec env part).daemon.stops)
      (heq : (s.proceed codec env part process).worker =
        (s.loop.step codec env part).daemon.worker.map fun _ => .initial)

theorem follow_kept {d d' : Daemon} {process : Option Process} {w w' : Worker}
    (hw : d.worker = some w) (hw' : d'.worker = some w')
    (hstops : d'.stops = d.stops) : follow d d' process = process := by
  simp [follow, hw, hw', hstops]

theorem follow_replaced {d d' : Daemon} {process : Option Process}
    (h : d.worker = none ∨ d'.stops ≠ d.stops) :
    follow d d' process = d'.worker.map fun _ => .initial := by
  unfold follow
  cases hw' : d'.worker with
  | none => rfl
  | some w' =>
      rcases h with hnone | hstops
      · simp [hnone]
      · simp [hstops]

theorem inbox_eq {s : System} {w : Worker} (h : s.loop.daemon.worker = some w) :
    s.inbox = w.inbox := by
  simp [inbox, h]

theorem Linked.followed (h : Linked codec s) {env : Env} {part : Section}
    (hidle : part.Idle) {process : Option Process}
    (hprocess : process.isSome = s.worker.isSome) :
    Followed codec env part process s := by
  cases hworker : s.worker with
  | none =>
      have hfresh := h.fresh hworker
      have hnone : s.loop.daemon.worker = none := by
        rw [← Option.not_isSome_iff_eq_none, ← h.present, hworker]
        simp
      obtain ⟨hfresh', hstops⟩ := @MainLoop.step_fresh part env s.loop codec hidle hfresh
      refine .replaced hfresh' hstops ?_ (follow_replaced (.inl hnone))
      simp [hprocess, hworker]
  | some p₀ =>
      obtain ⟨w, hw, hinbox⟩ := h.worker_eq hworker
      obtain ⟨p, hp⟩ := Option.isSome_iff_exists.mp
        (by rw [hprocess, hworker]; rfl : process.isSome)
      rcases @MainLoop.step_keeps part env s.loop w codec hidle hw with
        ⟨messages, hkeeps, htransports⟩ | ⟨hstops, hfresh⟩
      · refine .kept p w messages hp hw hkeeps htransports ?_ ?_
        · exact (follow_kept hw hkeeps.worker_eq hkeeps.stops_eq).trans hp
        · rw [hinbox, @inbox_eq (s.proceed codec env part process) _
            hkeeps.worker_eq]
      · exact .replaced hfresh hstops.le (fun _ => hstops)
          (follow_replaced (.inr hstops.ne'))

/-- What serving a request makes of the process and its messages. -/
structure Replied (codec : KeyCodec) (env : Env) (id : ℕ) (r : Request)
    (p : Process) (s s' : System) (w : Worker)
    (outcome : Except String (String × List Fd)) (d : Daemon)
    (messages replies : List (Message × List Fd)) : Prop where
  worker_eq : s.loop.daemon.worker = some w
  handled : Daemon.Handled codec env r s.loop.daemon w outcome d messages
  process_eq : s'.worker = some p
  present : s'.loop.daemon.worker.isSome
  inbox_eq : s'.inbox = s.inbox ++ messages ++ replies
  store_eq : s'.loop.daemon.store = d.store
  transports_eq : s'.loop.daemon.transports = d.transports
  stops_eq : s'.loop.daemon.stops = s.loop.daemon.stops
  replies_eq : replies = [(.reply id (Daemon.replyTo outcome).ok
      (Daemon.replyTo outcome).message, (Daemon.replyTo outcome).fds)] ∨
    ¬Daemon.Reliable env ∧ replies = []

theorem Linked.replied (h : Linked codec s) {env : Env} {id : ℕ} {r : Request}
    {p₀ p : Process} (hworker : s.worker = some p₀)
    (hquit : s.loop.daemon.quit = false) :
    ∃ w outcome d messages replies, Replied codec env id r p s
      (s.proceed codec env (.worker (.message (.request id r) [])) (some p))
      w outcome d messages replies := by
  obtain ⟨w, hw, hinbox⟩ := h.worker_eq hworker
  obtain ⟨outcome, d, messages, hhandled, hserve⟩ :=
    @Daemon.serve_spec env s.loop.daemon w codec id r hw
  have hstep := @MainLoop.step_request codec env s.loop w hquit hw id r
  have hw' := hhandled.keeps.worker_eq
  have hstops := hhandled.keeps.stops_eq
  rcases hserve with ⟨w', hw'', hserve⟩ | ⟨hunreliable, hserve⟩
  · obtain rfl := Option.some_inj.mp (hw'.symm.trans hw'')
    have hdaemon := hstep.trans hserve
    refine ⟨w, outcome, d, messages, _, hw, hhandled, ?_, ?_, ?_, ?_, ?_, ?_,
      .inl rfl⟩
    · exact follow_kept hw (by rw [hdaemon]; rfl) (by rw [hdaemon]; exact hstops)
    · simp only [proceed, hdaemon]
      rfl
    · rw [hinbox]
      simp only [inbox, proceed, hdaemon]
      rfl
    · simp only [proceed, hdaemon]
      rfl
    · simp only [proceed, hdaemon]
      rfl
    · simp only [proceed, hdaemon]
      exact hstops
  · have hdaemon := hstep.trans hserve
    refine ⟨w, outcome, d, messages, [], hw, hhandled, ?_, ?_, ?_, ?_, ?_, ?_,
      .inr ⟨hunreliable, rfl⟩⟩
    · exact follow_kept hw (by rw [hdaemon]; exact hw')
        (by rw [hdaemon]; exact hstops)
    · simp only [proceed, hdaemon, hw']
      rfl
    · rw [hinbox, List.append_nil]
      simp only [inbox, proceed, hdaemon, hw']
    · simp only [proceed, hdaemon]
    · simp only [proceed, hdaemon]
    · simp only [proceed, hdaemon]
      exact hstops

theorem Drops.isSome {process process' : Option Process}
    (h : Drops process process') : process'.isSome = process.isSome := by
  rcases h with rfl | ⟨p, posted, rest, rfl, -, -, rfl⟩ <;> rfl

/-- Reading a message that is no request is a step of the exchange. -/
theorem Drops.steps {process process' : Option Process}
    (h : Drops process process') (hp : process = some p)
    (hp' : process' = some p') : p'.received = p.received ∧
      ReflTransGen Exchange.Step (exchange inbox p) (exchange inbox p') := by
  rcases h with rfl | ⟨p₀, posted, rest, hp₀, houtbox, -, rfl⟩
  · obtain rfl := Option.some_inj.mp (hp.symm.trans hp')
    exact ⟨rfl, .refl⟩
  · obtain rfl := Option.some_inj.mp (hp₀.symm.trans hp)
    obtain rfl := Option.some_inj.mp hp'
    refine ⟨rfl, .single ?_⟩
    have hserve : exchange inbox
        { p₀ with broker := { p₀.broker with outbox := rest } } =
          (exchange inbox p₀).serve 0 none := by
      simp [exchange, Exchange.serve, houtbox]
    rw [hserve]
    exact .ignore _ 0

theorem filterMap_replyOf_reply (id : ℕ) (answer : Answer) :
    [(Message.reply id answer.ok answer.message, answer.fds)].filterMap replyOf =
      [⟨id - 1, id, answer⟩] := rfl

/-- Serving a request is a step of the exchange. -/
theorem Replied.steps {env : Env} {id : ℕ} {r : Request} {p p₀ : Process}
    {w : Worker} {outcome : Except String (String × List Fd)} {d : Daemon}
    {messages replies : List (Message × List Fd)} {caller : Option ℕ}
    {rest : List Posted} (h : Replied codec env id r p s s' w outcome d messages
      replies)
    (hinv : (exchange s.inbox p₀).Invariant)
    (hreceived : p₀.received ≤ s.inbox.length)
    (houtbox : p₀.broker.outbox = ⟨.request id r, caller⟩ :: rest)
    (hp : p = { p₀ with broker := { p₀.broker with outbox := rest } }) :
    caller = some (id - 1) ∧
      Exchange.Step (exchange s.inbox p₀) (exchange s'.inbox p) := by
  have hhead : (exchange s.inbox p₀).broker.outbox[0]? =
      some ⟨.request id r, caller⟩ := by
    simp [exchange, houtbox]
  have hmem := List.mem_of_getElem? hhead
  have hcaller : caller = some (id - 1) := by
    cases hc : caller with
    | none => 
        have hready := hinv.unasked _ hmem hc
        cases hready
    | some c =>
        obtain ⟨call, hcall, hmessage⟩ := hinv.asked _ hmem c hc
        obtain ⟨hid, -⟩ := Message.request.inj hmessage
        have hsound := (hinv.consistent.sound c call hcall).id_eq
        rw [Option.some_inj]
        omega
  refine ⟨hcaller, ?_⟩
  have hquiet := @exchange_append_quiet s.inbox messages p
    (by rw [hp]; exact hreceived) h.handled.keeps.quiet
  have hlength : p.received ≤ (s.inbox ++ messages).length := by
    rw [hp, List.length_append]
    exact hreceived.trans (Nat.le_add_right _ _)
  have hserve (reply : Option Reply) (hreplies : replies.filterMap replyOf =
      reply.toList) : exchange s'.inbox p =
        (exchange s.inbox p₀).serve 0 reply := by
    rw [h.inbox_eq, exchange_append hlength, hquiet, hreplies, hp]
    simp [System.exchange, Exchange.serve, houtbox]
  rcases h.replies_eq with heq | ⟨-, heq⟩
  · rw [hserve (some ⟨id - 1, id, Daemon.replyTo outcome⟩) (by rw [heq]; rfl)]
    exact .answer _ 0 (id - 1) id r _ (hcaller ▸ hhead)
  · rw [hserve none (by rw [heq]; rfl)]
    exact .ignore _ 0

/-- A step of the worker keeps the supervisor and its messages. -/
theorem Linked.local_ (h : Linked codec s) {p p' : Process}
    (hworker : s.worker = some p) (events : List Event)
    (hstep : p'.received ≤ s.inbox.length ∧
      ReflTransGen Exchange.Step (exchange s.inbox p) (exchange s.inbox p')) :
    Linked codec { s with worker := some p', events := events } where
  reachable := h.reachable
  present := by
    rw [← h.present, hworker]
    rfl
  linked q hq := by
    obtain rfl := Option.some_inj.mp hq
    exact ⟨hstep.1, (h.linked p hworker).2.run hstep.2⟩

/-- A replaced process starts a new exchange. -/
theorem Linked.replaced (h : (s'.loop).Reachable codec)
    (hfresh : s'.loop.daemon.Fresh)
    (heq : s'.worker = s'.loop.daemon.worker.map fun _ => .initial) :
    Linked codec s' where
  reachable := h
  present := by simp [heq]
  linked p hp := by
    rw [heq, Option.map_eq_some_iff] at hp
    obtain ⟨w, hw, rfl⟩ := hp
    rw [inbox_eq hw, initial_exchange (hfresh.quiet w hw)]
    exact ⟨Nat.zero_le _, .start rfl⟩

theorem Done.linked (h : Linked codec s) (hdone : Done codec s action s') :
    Linked codec s' := by
  cases hdone with
  | idle env part process htime hidle hprocess =>
      have hreachable : (s.loop.step codec env part).Reachable codec :=
        h.reachable.next ⟨env, part, htime, rfl⟩
      cases @Linked.followed codec s h env part hidle process hprocess.isSome with
      | kept p w messages hp hw hkeeps _ heq hinbox =>
          have hw' : (s.proceed codec env part process).loop.daemon.worker =
              some _ := hkeeps.worker_eq
          refine ⟨hreachable, by rw [heq, hw']; rfl, fun q hq => ?_⟩
          obtain rfl := Option.some_inj.mp (heq.symm.trans hq)
          obtain ⟨p₀, hp₀⟩ := Option.isSome_iff_exists.mp
            (by rw [← hprocess.isSome, hp]; rfl : s.worker.isSome)
          obtain ⟨hlength, hreach⟩ := h.linked p₀ hp₀
          obtain ⟨hreceived, hsteps⟩ := @Drops.steps s.inbox p₀ p _ _ hprocess hp₀ hp
          have hle : p.received ≤ s.inbox.length := hreceived ▸ hlength
          rw [hinbox, exchange_append_quiet hle hkeeps.quiet, List.length_append]
          exact ⟨hle.trans (Nat.le_add_right _ _), hreach.run hsteps⟩
      | replaced hfresh _ _ heq => exact .replaced hreachable hfresh heq
  | request env id r p caller rest htime hquit hworker houtbox =>
      have hreachable : (s.loop.step codec env
          (.worker (.message (.request id r) []))).Reachable codec :=
        h.reachable.next ⟨env, _, htime, rfl⟩
      obtain ⟨w, outcome, d, messages, replies, hreplied⟩ :=
        @Linked.replied codec s h env id r p
          { p with broker := { p.broker with outbox := rest } } hworker hquit
      obtain ⟨hlength, hreach⟩ := h.linked p hworker
      obtain ⟨-, hstep⟩ := hreplied.steps (h.invariant hworker) hlength houtbox rfl
      refine ⟨hreachable, ?_, fun q hq => ?_⟩
      · rw [hreplied.process_eq, hreplied.present]
        rfl
      · obtain rfl := Option.some_inj.mp (hreplied.process_eq.symm.trans hq)
        rw [hreplied.inbox_eq] at hstep ⊢
        refine ⟨?_, hreach.next hstep⟩
        simp only [List.length_append]
        exact hlength.trans (by omega)
  | main part p p' hworker hdone =>
      exact h.local_ hworker s.events
        (main_exchange (h.linked p hworker).1 hdone)
  | call c part p b hworker hadvance =>
      refine h.local_ hworker s.events ⟨(h.linked p hworker).1, .single ?_⟩
      exact .advance (exchange s.inbox p) c part b hadvance
  | transport i part p p' thread hworker hthread hdone =>
      obtain ⟨hreceived, hsteps⟩ := transport_exchange hdone
      exact h.local_ hworker s.events
        ⟨hreceived ▸ (h.linked p hworker).1, hsteps⟩
  | pairing j part p p' thread events hworker hthread hdone =>
      obtain ⟨hreceived, hsteps⟩ := pairing_exchange hdone
      exact h.local_ hworker _ ⟨hreceived ▸ (h.linked p hworker).1, hsteps⟩

theorem Initial.linked (h : s.Initial) : Linked codec s := by
  obtain ⟨⟨store, test, now, hloop⟩, hworker, -⟩ := h
  have hnone : s.loop.daemon.worker = none := by rw [hloop]; rfl
  refine ⟨.start ⟨store, test, now, hloop⟩, by rw [hworker, hnone]; rfl, ?_⟩
  intro p hp
  rw [hworker] at hp
  cases hp

theorem Reachable.linked (h : Reachable codec allowed s) : Linked codec s := by
  refine @Transition.Reachable.invariant _ _ _ (Linked codec) ?_ ?_ s h
  · exact fun _ hinit => hinit.linked
  · rintro s s' - hlinked ⟨action, -, hact⟩
    exact (act_done hact).linked hlinked

end System

end Altdb
