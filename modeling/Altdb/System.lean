import Altdb.Worker
import Altdb.DaemonMessages

/-!
# The supervisor and its worker

`System` runs the main loop of the supervisor against the worker process whose
socket it holds.  Messages travel in order in both directions.  The supervisor
takes the oldest request, the worker the oldest message; threads, the main
loop of the worker and the supervisor are scheduled in any order.
-/

namespace Altdb

open Fallible Relation

/-- What is recorded of a run.  No step reads it. -/
inductive Event where
  /-- `Store::pair` returned in the window, which left the store. -/
  | paired (window : Window) (key fingerprint : String) (store : Store)
  /-- A pairing thread of the worker with the number sent the success answer. -/
  | acknowledged (worker thread epoch : ℕ) (key : String)
  deriving DecidableEq, Repr

structure System where
  loop : MainLoop
  worker : Option Process
  events : List Event

inductive Action where
  | supervisor (env : Env) (part : Section)
  | main (part : MainPart)
  | call (c : ℕ) (part : CallStep)
  | transport (i : ℕ) (part : TransportPart)
  | pairing (j : ℕ) (part : PairingPart)

/-- The successful call of `Store::pair` in a section, if there is one. -/
def Daemon.pairedIn (codec : KeyCodec) (env : Env) (part : Section)
    (d : Daemon) : Option Event :=
  match part, d.window with
  | .worker (.message (.request _ (.pairResult epoch (some key))) []), some w =>
      if w.epoch = epoch ∧ env.now < w.expires ∧ w.failures < maxPairFailures then
        match Store.pair codec env.saved env.unixTime key d.store with
        | .ok fp store => some (.paired w key fp store)
        | .error _ _ => none
      else none
  | _, _ => none

namespace System

/-- A fresh supervisor without a worker. -/
def Initial (s : System) : Prop :=
  s.loop.Initial ∧ s.worker = none ∧ s.events = []

/-- The worker process after a section: gone or replaced if the supervisor
stopped it. -/
def follow (d d' : Daemon) (process : Option Process) : Option Process :=
  match d'.worker with
  | none => none
  | some _ =>
      if d.worker.isSome ∧ d'.stops = d.stops then process
      else some .initial

def proceed (codec : KeyCodec) (env : Env) (part : Section)
    (process : Option Process) (s : System) : System :=
  let loop := s.loop.step codec env part
  { loop := loop
    worker := follow s.loop.daemon loop.daemon process
    events := s.events ++ (s.loop.daemon.pairedIn codec env part).toList }

/-- A section of the supervisor.  A message comes from the head of the outbox
of the worker; a broken socket may be found at any time. -/
def supervise (codec : KeyCodec) (env : Env) (part : Section) (s : System) :
    Option System :=
  if s.loop.daemon.quit = false ∧ s.loop.clock ≤ env.now then
    match part with
    | .worker (.message message fds) => do
        let p ← s.worker
        match p.broker.outbox with
        | posted :: rest =>
            if posted.message = message ∧ fds = [] then
              some (s.proceed codec env part
                (some { p with broker := { p.broker with outbox := rest } }))
            else none
        | [] => none
    | _ => some (s.proceed codec env part s.worker)
  else none

/-- The messages on the socket of the worker, read and unread. -/
def inbox (s : System) : List (Message × List Fd) :=
  match s.loop.daemon.worker with
  | some w => w.inbox
  | none => []

def withProcess (s : System) (process : Option Process) : Option System :=
  process.map fun p => { s with worker := some p }

/-- One step of one of the parties. -/
def act (codec : KeyCodec) (action : Action) (s : System) : Option System :=
  match action with
  | .supervisor env part => s.supervise codec env part
  | .main part => do
      let p ← s.worker
      s.withProcess (p.main s.inbox[p.received]? part)
  | .call c part => do
      let p ← s.worker
      s.withProcess ((p.broker.advance c part).map fun b => { p with broker := b })
  | .transport i part => do
      let p ← s.worker
      s.withProcess (p.transport i part)
  | .pairing j part => do
      let p ← s.worker
      let s' ← s.withProcess (p.pairing codec j part)
      let sent := (p.acknowledged j part).map fun (epoch, key) =>
        Event.acknowledged s.loop.daemon.stops j epoch key
      some { s' with events := s.events ++ sent.toList }

/-- The steps that satisfy a condition on the state before and the action. -/
def Step (codec : KeyCodec) (allowed : System → Action → Prop)
    (s s' : System) : Prop :=
  ∃ action, allowed s action ∧ s.act codec action = some s'

/-- The states of all runs whose steps satisfy the condition. -/
abbrev Reachable (codec : KeyCodec) (allowed : System → Action → Prop) :
    System → Prop :=
  Transition.Reachable Initial (Step codec allowed)

/-- No message of either side is lost on the way. -/
def Reliable (_ : System) : Action → Prop
  | .supervisor env _ => Daemon.Reliable env
  | .call _ (.send outcome) => outcome = .ok ()
  | _ => True

/-- Any failure of a send is possible. -/
def Unrestricted (_ : System) (_ : Action) : Prop := True

/-- A list of steps. -/
def perform (codec : KeyCodec) : List Action → System → Option System
  | [], s => some s
  | action :: rest, s => (s.act codec action).bind (perform codec rest)

theorem perform_reachable {codec : KeyCodec} {allowed : System → Action → Prop}
    {actions : List Action} (hallowed : ∀ action ∈ actions, ∀ s, allowed s action)
    {s s' : System} (h : Reachable codec allowed s)
    (hrun : s.perform codec actions = some s') : Reachable codec allowed s' := by
  induction actions generalizing s with
  | nil =>
      cases hrun
      exact h
  | cons action rest ih =>
      obtain ⟨next, hact, hrest⟩ := Option.bind_eq_some_iff.mp hrun
      refine ih (fun later hmem => hallowed later (List.mem_cons_of_mem _ hmem))
        ?_ hrest
      exact h.next ⟨action, hallowed action List.mem_cons_self s, hact⟩

/-- A supervisor with one paired host, before it starts its worker. -/
def paired : System where
  loop := .initial MainLoop.pairedStore true (secs 20)
  worker := none
  events := []

theorem paired_reachable {codec : KeyCodec} {allowed : System → Action → Prop} :
    Reachable codec allowed paired :=
  .start ⟨⟨_, _, _, rfl⟩, rfl, rfl⟩

/-- An environment in which every call succeeds, with a socket for each
endpoint. -/
def sound : Env :=
  { MainLoop.cooperative (secs 20) with
    listeners := fun endpoints port =>
      .ok (endpoints.map fun ep => { ep with port := port },
        List.replicate endpoints.length 8)
    mdnsSockets := fun endpoints =>
      .ok (endpoints, List.replicate endpoints.length 9) }

/-- The worker starts and accepts a connection, whose host sends its key. -/
def connecting : List Action :=
  [.supervisor sound .checks, .main .receive, .main .accept,
    .supervisor sound (.worker (.message .ready [])),
    .transport 0 (.authenticate "aa"), .call 0 .announce, .call 0 .enroll,
    .call 0 (.send (.ok ()))]

/-! ## The exchange behind a system -/

/-- The reply that a message is. -/
def replyOf : Message × List Fd → Option Reply
  | (.reply id ok message, fds) => some ⟨id - 1, id, ⟨ok, message, fds⟩⟩
  | _ => none

/-- A process and its messages as calls against a supervisor. -/
def exchange (inbox : List (Message × List Fd)) (p : Process) : Exchange where
  broker := p.broker
  replies := (inbox.drop p.received).filterMap replyOf
  arrived := (inbox.take p.received).filterMap replyOf

end System

end Altdb
