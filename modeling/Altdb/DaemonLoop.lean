import Altdb.Daemon
import Altdb.Transition

/-!
# The main loop of the supervisor

One iteration accepts a control request, expires the pairing window, rotates
the worker, takes one message from it, reaps services and checks the native
debugging state and the network.  Each of these sections is a step here, with
its own readings of the clock and its own failures.  A run takes the sections in
any order; by `passes_run` the loop of the source, which takes those of an
`iteration` again and again, makes such a run.  A termination signal leaves the
loop through `shutdown`.
-/

namespace Altdb

open Fallible

/-- What `poll` and `ipc::receive` find on the socket of the worker. -/
inductive Arrival where
  | message (message : Message) (fds : List Fd)
  | malformed
  | hangup
  deriving DecidableEq, Repr

inductive Section where
  | control (request : Control)
  | windowExpiry
  | rotation
  | worker (arrival : Arrival)
  | reap
  | checks
  | shutdown
  deriving DecidableEq, Repr

/-- The supervisor with the two timers of its loop and the last reading of the
clock. -/
structure MainLoop where
  daemon : Daemon
  propertyCheck : Instant
  networkCheck : Instant
  clock : Instant

/-- `ksu::SETTINGS_UNAVAILABLE`. -/
def settingsUnavailable : String :=
  "Debugging settings are temporarily unavailable; keeping connections"

namespace Daemon

def windowExpiry (env : Env) (d : Daemon) : Daemon :=
  match d.window with
  | none => d
  | some window =>
      if window.expires ≤ env.now then
        (final (pairStop env d)).log env "Pairing window expired"
      else d

def rotation (env : Env) (d : Daemon) : Daemon :=
  if d.rotate.any fun at_ => at_ ≤ env.now then
    match startWorker env { d with rotate := none }.stopWorker with
    | .ok _ d => d
    | .error _ d =>
        d.stop env "error" "Service failed to start after permission change"
  else d

/-- Serve a request of the worker and send the reply. -/
def serve (codec : KeyCodec) (env : Env) (id : ℕ) (r : Request) (d : Daemon) :
    Daemon :=
  match request codec env r d with
  | .ok (message, fds) d => final (send env (.reply id true message) fds d)
  | .error error d => final (send env (.reply id false error) [] d)

def receive (codec : KeyCodec) (env : Env) (arrival : Arrival) (d : Daemon) :
    Daemon :=
  if d.worker.isNone then d
  else
    match arrival with
    | .message .ready [] =>
        { d with state := "running", reason := "" }.log env "Service started"
    | .message (.request id r) [] => d.serve codec env id r
    | .message _ _ => d.stop env "error" "Network worker communication failed"
    | .malformed => d.stop env "error" "Network worker communication failed"
    | .hangup =>
        d.stop env "error" "Network worker exited; check SELinux and KernelSU"

def reap (env : Env) (d : Daemon) : Daemon :=
  let services := d.services.map fun s =>
    if s.closeAt.any fun at_ => at_ ≤ env.now then s.stop env else s
  { d with services := services.filter fun s => !env.exited s.child.pid }

/-- The reason to pause for native debugging, and whether the settings are
unreadable but bridged. -/
def nativePause (env : Env) (d : Daemon) : Option String × Bool :=
  if d.test then (none, false)
  else
    match env.nativeProperties with
    | .ok (some reason) => (some reason, false)
    | .ok none => env.nativeStatus (d.worker.isSome && d.state = "running")
    | .error error =>
        (some ("Cannot read system debugging state; service paused: " ++ error),
          false)

/-- The network part of the checks: follow the interfaces. -/
def networkCheck (env : Env) (d : Daemon) : Daemon :=
  match env.discovered with
  | .error _ => d.stop env "error" "Cannot read network interfaces"
  | .ok [] =>
      d.stop env "waiting_network" "Waiting for Wi-Fi, hotspot or Ethernet"
  | .ok addresses =>
      let changed : Bool := match d.bundle with
        | none => true
        | some b =>
            b.endpoints.map (fun ep => { ep with port := 0 }) ≠ addresses
      if changed then
        match start env addresses
            (d.stop env "starting" "Network changed; starting service") with
        | .ok _ d => d
        | .error _ d => d.stop env "error"
            "Cannot bind port or publish mDNS; check port availability and interface permissions"
      else d

end Daemon

namespace MainLoop

/-- The property, monitor and network checks. -/
def checks (env : Env) (l : MainLoop) : MainLoop :=
  if env.propertiesChanged ∨ millis 250 ≤ env.now - l.propertyCheck then
    let l := { l with propertyCheck := env.now }
    let d := l.daemon
    if ¬d.store.config.enabled then
      { l with daemon := d.stop env "disabled" "Disabled in WebUI" }
    else
      match d.nativePause env with
      | (some reason, _) =>
          { l with daemon := d.stop env "paused_native" reason }
      | (none, true) =>
          if d.reason ≠ settingsUnavailable then
            let d := { d with reason := settingsUnavailable }
            { l with daemon := d.log env settingsUnavailable }
          else l
      | (none, false) =>
          let d :=
            if d.reason = settingsUnavailable then
              { d with reason := "" }.log env
                "Debugging settings are available again"
            else d
          if secs 2 ≤ env.now - l.networkCheck ∧ d.retryAt ≤ env.now then
            { l with networkCheck := env.now, daemon := d.networkCheck env }
          else { l with daemon := d }
  else l

/-- One section of the loop.  Once `quit` is set the loop is left. -/
def step (codec : KeyCodec) (env : Env) (part : Section) (l : MainLoop) :
    MainLoop :=
  if l.daemon.quit then l
  else
    let l := { l with clock := env.now }
    match part with
    | .control request =>
        { l with daemon := final (l.daemon.control env request) }
    | .windowExpiry => { l with daemon := l.daemon.windowExpiry env }
    | .rotation => { l with daemon := l.daemon.rotation env }
    | .worker arrival => { l with daemon := l.daemon.receive codec env arrival }
    | .reap => { l with daemon := l.daemon.reap env }
    | .checks => l.checks env
    | .shutdown =>
        let d := { l.daemon with quit := true }
        { l with daemon := d.stop env "disabled" "Service stopped" }

/-- The sections of one iteration in the order of the source. -/
def iteration (request : Option Control) (arrival : Option Arrival) :
    List Section :=
  request.toList.map .control ++ [.windowExpiry, .rotation] ++
    arrival.toList.map .worker ++ [.reap, .checks]

/-- What one iteration finds on its two sockets, and the environment of each of
its sections. -/
structure Pass where
  request : Option Control
  arrival : Option Arrival
  envs : List Env

def Pass.sections (pass : Pass) : List (Env × Section) :=
  pass.envs.zip (iteration pass.request pass.arrival)

/-- Run a list of sections, each with its own environment. -/
def runSections (codec : KeyCodec) : List (Env × Section) → MainLoop → MainLoop
  | [], l => l
  | (env, part) :: rest, l => runSections codec rest (l.step codec env part)

/-- A fresh supervisor on an opened store. -/
def initial (store : Store) (test : Bool) (now : Instant) : MainLoop where
  daemon := {
    store := store
    test := test
    worker := none
    bundle := none
    services := []
    transports := ∅
    window := none
    root := false
    state := "starting"
    reason := ""
    logs := []
    epoch := 0
    quit := false
    rotate := none
    retryAt := now
    failures := 0
    stops := 0 }
  propertyCheck := now - secs 1
  networkCheck := now - secs 10
  clock := now

/-- A state from which a supervisor may start. -/
def Initial (l : MainLoop) : Prop :=
  ∃ store test now, l = initial store test now

/-- One section is run, at a time not before the last one. -/
def Step (codec : KeyCodec) (l l' : MainLoop) : Prop :=
  ∃ env part, l.clock ≤ env.now ∧ l' = l.step codec env part

/-- The states of all runs of the supervisor. -/
abbrev Reachable (codec : KeyCodec) : MainLoop → Prop :=
  Transition.Reachable Initial (Step codec)

theorem step_clock {codec : KeyCodec} {env : Env} {part : Section}
    {l : MainLoop} (htime : l.clock ≤ env.now) :
    (l.step codec env part).clock ≤ env.now := by
  unfold step
  split
  · exact htime
  · cases part <;> try exact le_rfl
    simp only [checks]
    repeat' split
    all_goals exact le_rfl

/-- Sections with clock readings in order form a run. -/
theorem runSections_run (codec : KeyCodec) (sections : List (Env × Section))
    (l : MainLoop)
    (hclock : (l.clock :: sections.map fun s => s.1.now).Pairwise (· ≤ ·)) :
    Relation.ReflTransGen (Step codec) l (runSections codec sections l) := by
  induction sections generalizing l with
  | nil => exact .refl
  | cons tick rest ih =>
      obtain ⟨env, part⟩ := tick
      simp only [List.map_cons, List.pairwise_cons, List.mem_cons,
        forall_eq_or_imp] at hclock
      obtain ⟨⟨hnow, _⟩, hlater, hrest⟩ := hclock
      have hstep : Step codec l (l.step codec env part) := ⟨env, part, hnow, rfl⟩
      refine .head hstep (ih _ ?_)
      refine List.pairwise_cons.mpr ⟨?_, hrest⟩
      intro time hmem
      exact (step_clock hnow).trans (hlater time hmem)

theorem Pass.sections_now (pass : Pass) :
    (pass.sections.map fun s => s.1.now).Sublist (pass.envs.map Env.now) := by
  have hzip (envs : List Env) (parts : List Section) :
      ((envs.zip parts).map fun s => s.1.now).Sublist (envs.map Env.now) := by
    induction envs generalizing parts with
    | nil => exact .slnil
    | cons env rest ih =>
        cases parts with
        | nil => exact List.nil_sublist _
        | cons part parts => exact (ih parts).cons_cons env.now
  exact hzip _ _

/-- The loop of the source, iteration after iteration, makes a run. -/
theorem passes_run (codec : KeyCodec) (passes : List Pass) (l : MainLoop)
    (hclock : (l.clock :: passes.flatMap fun pass => pass.envs.map Env.now).Pairwise
      (· ≤ ·)) :
    Relation.ReflTransGen (Step codec) l
      (runSections codec (passes.flatMap Pass.sections) l) := by
  apply runSections_run
  refine List.Pairwise.sublist (List.Sublist.cons_cons _ ?_) hclock
  clear hclock
  induction passes with
  | nil => exact .slnil
  | cons pass rest ih =>
      rw [List.flatMap_cons, List.flatMap_cons, List.map_append]
      exact pass.sections_now.append ih

/-! ## A run without failures -/

/-- An environment in which every call succeeds and one interface is found. -/
def cooperative (now : Instant) : Env where
  now := now
  unixTime := 0
  saved := .ok ()
  sent _ := .ok ()
  pair := .ok (3, 4)
  dataPair := .ok (5, 6)
  spawned := .ok 100
  startSent := .ok ()
  bindReady := true
  bindReply := .ok ("tcp:1", [])
  exited _ := false
  listeners endpoints port :=
    .ok (endpoints.map fun ep => { ep with port := port }, [])
  mdnsSockets endpoints := .ok (endpoints, [])
  pairingCode := .ok "123456"
  propertiesChanged := true
  nativeProperties := .ok none
  nativeStatus _ := (none, false)
  discovered := .ok [⟨"wlan0", 3, 0, 0⟩]

/-- A store with one paired host. -/
def pairedStore : Store where
  config := {
    enabled := true
    portMode := .fixed
    fixedPort := 5555
    allowAdbRoot := true
    allowShellRoot := false }
  identity := ⟨"", "", ""⟩
  hosts := [⟨"aa", "", "host", 0, none⟩]
  journal := []

/-- A codec that accepts every key under one fingerprint. -/
def constantCodec : KeyCodec where
  decode _ := .ok []
  fingerprint _ := some [0xbb]

/-- The worker starts, a paired host connects and starts a service. -/
def servingSections : List Section :=
  [.checks, .worker (.message .ready []),
    .worker (.message (.request 0 (.authenticated 7 "aa")) []),
    .worker (.message (.request 1 (.spawn 7 "sync:")) [])]

/-- The state after sections at one time from a fresh start. -/
def afterSections (now : Instant) (sections : List Section) : MainLoop :=
  runSections constantCodec (sections.map fun part => (cooperative now, part))
    (initial pairedStore true now)

theorem afterSections_reachable (now : Instant) (sections : List Section) :
    Reachable constantCodec (afterSections now sections) := by
  refine (Transition.Reachable.start ⟨_, _, _, rfl⟩).run
    (runSections_run _ _ _ ?_)
  have htimes : (initial pairedStore true now).clock ::
      (sections.map fun part => (cooperative now, part)).map (fun s => s.1.now) =
        List.replicate (sections.length + 1) now := by
    simp [initial, cooperative, List.replicate_succ, Function.comp_def]
  rw [htimes]
  exact List.pairwise_replicate_of_refl

end MainLoop

end Altdb
