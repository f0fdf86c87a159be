import Altdb.DaemonLoop

/-!
# What a step of the supervisor can do

The methods of the supervisor have many branches but few effects.  `Effect`
lists them once, each with the guard under which the source performs it, and
`step_effects` shows that a section of the main loop is a sequence of effects.
The one exception is `RegrantFails`.  Invariants are proved on `Effect`, where
no method is unfolded again.
-/

namespace Altdb

open Fallible Relation

/-! ## Projections of the bookkeeping functions -/

@[simp] theorem Service.stop_transport (env : Env) (s : Service) :
    (s.stop env).transport = s.transport := by
  unfold Service.stop
  repeat' split
  all_goals rfl

@[simp] theorem Service.stop_owner (env : Env) (s : Service) :
    (s.stop env).child.owner = s.child.owner := by
  unfold Service.stop
  repeat' split
  all_goals rfl

@[simp] theorem Service.stop_start (env : Env) (s : Service) :
    (s.stop env).child.start = s.child.start := by
  unfold Service.stop
  repeat' split
  all_goals rfl

@[simp] theorem Service.stop_closeAt (env : Env) (s : Service) :
    (s.stop env).closeAt = s.closeAt := by
  unfold Service.stop
  repeat' split
  all_goals rfl

@[simp] theorem Service.stop_stopped (env : Env) (s : Service) :
    (s.stop env).stopped = true := by
  unfold Service.stop
  repeat' split
  all_goals simp_all

/-- A pairing window after one more failed attempt. -/
def Window.failed (window : Window) : Window :=
  { window with failures := window.failures + 1 }

namespace Daemon

/-- The supervisor with other bookkeeping: texts, logs, the exit flag and the
retry timer. -/
def noting (d : Daemon) (reason : String) (logs : List LogEntry) (quit : Bool)
    (retryAt : Instant) (failures : ℕ) : Daemon :=
  { d with
    reason := reason
    logs := logs
    quit := quit
    retryAt := retryAt
    failures := failures }

/-- The supervisor after `w` was sent a message. -/
def delivered (d : Daemon) (w : Worker) (message : Message) (fds : List Fd) :
    Daemon :=
  { d with worker := some { w with inbox := w.inbox ++ [(message, fds)] } }

/-- A worker that has just been started. -/
def freshWorker (d : Daemon) (bundle : Bundle) (pid : UInt32) (fd : Fd) :
    Worker where
  pid := pid
  fd := fd
  inbox := [(d.boot bundle, bundle.tcp ++ bundle.mdns)]

/-- The supervisor with a new worker on its bundle. -/
def withWorker (d : Daemon) (bundle : Bundle) (pid : UInt32) (fd : Fd) :
    Daemon :=
  { d with
    worker := some (d.freshWorker bundle pid fd)
    state := "starting" }

/-- Whether the three calls that start a worker succeed. -/
def WorkerStarts (env : Env) (d : Daemon) (bundle : Bundle) : Prop :=
  (∃ fds, env.pair = .ok fds) ∧ (∃ pid, env.spawned = .ok pid) ∧
    env.sent (d.boot bundle) = .ok ()

/-- A change of settings that closes the listeners. -/
def EndpointChanged (previous current : Config) : Prop :=
  previous.portMode ≠ current.portMode ∨
    previous.fixedPort ≠ current.fixedPort ∨
    previous.enabled ≠ current.enabled

instance (previous current : Config) :
    Decidable (EndpointChanged previous current) :=
  inferInstanceAs (Decidable (_ ∨ _))

/-- The supervisor after new permission settings were saved and everything
that ran under the old ones was stopped. -/
def regranted (d : Daemon) (config : Config) : Daemon :=
  { { d with store := d.store.withConfig config }.stopWorker with root := false }

/-- New permission settings are saved for a supervisor with a bundle, but the
worker of the bundle cannot be started again. -/
structure RegrantFails (part : Section) (env : Env) (d : Daemon)
    (config : Config) (bundle : Bundle) : Prop where
  section_eq : part = .control (.configure config)
  valid : config.validate = .ok ()
  saved : env.saved = .ok ()
  changed : d.store.config ≠ config
  endpoint : ¬EndpointChanged d.store.config config
  bundle_eq : d.bundle = some bundle
  fails : ¬d.WorkerStarts env bundle

/-- The supervisor after the host list without `fp` was saved and the
connections of `fp` were dropped. -/
def revoked (env : Env) (d : Daemon) (fp : String) : Daemon :=
  let d := { d with store := d.store.withHosts (d.store.without fp) }
  (d.transportsOf fp).foldl (fun d id => d.disconnect env id) d

/-- What a saved revocation leaves: a worker is told the new host list, which
may fail. -/
inductive RevokeDone (env : Env) (d : Daemon) (fp : String) : Daemon → Prop
  | idle (hworker : d.worker = none) : RevokeDone env d fp (d.revoked env fp)
  | told (w : Worker) (hworker : d.worker = some w)
      (hsent : env.sent (.hosts (d.store.without fp)) = .ok ()) :
      RevokeDone env d fp
        ((d.revoked env fp).delivered w (.hosts (d.store.without fp)) [])
  | untold (w : Worker) (hworker : d.worker = some w)
      (hsent : env.sent (.hosts (d.store.without fp)) ≠ .ok ()) :
      RevokeDone env d fp (d.revoked env fp)

/-- A service as `spawn_service` starts it. -/
structure Spawned (d : Daemon) (transport : ℕ) (s : Service) : Prop where
  authorized : transport ∈ d.transports
  limit : (d.services.filter fun s => s.transport = transport).length <
    maxStreams + 16
  transport_eq : s.transport = transport
  owner_eq : s.child.owner = d.transports.getD transport ""
  root_eq : s.child.start.root = d.root
  allowSu_eq : s.child.start.allowSu = d.store.config.allowShellRoot
  closeAt_eq : s.closeAt = none

theorem Spawned.stop {env : Env} {d : Daemon} {t : ℕ} {s : Service}
    (h : d.Spawned t s) : d.Spawned t (s.stop env) := by
  obtain ⟨hauth, hlimit, ht, howner, hroot, hsu, hclose⟩ := h
  exact ⟨hauth, hlimit, by simpa, by simpa, by simpa, by simpa, by simpa⟩

/-- A section that serves a request of the worker. -/
def Requests (part : Section) (r : Request) : Prop :=
  ∃ id, part = .worker (.message (.request id r) [])

/-- A reply is sent by a section that serves the request with its id. -/
def Answers (part : Section) (message : Message) : Prop :=
  ∀ id ok text, message = .reply id ok text →
    ∃ r, part = .worker (.message (.request id r) [])

/-- The elementary effects of a section in an environment. -/
inductive Effect (part : Section) (env : Env) : Daemon → Daemon → Prop
  | note (d : Daemon) (reason : String) (logs : List LogEntry) (quit : Bool)
      (retryAt : Instant) (failures : ℕ) :
      Effect part env d (d.noting reason logs quit retryAt failures)
  | deliver (d : Daemon) (w : Worker) (message : Message) (fds : List Fd)
      (hworker : d.worker = some w) (hsent : env.sent message = .ok ())
      (hanswers : Answers part message) :
      Effect part env d (d.delivered w message fds)
  | ready (d : Daemon) (hworker : d.worker.isSome) :
      Effect part env d { d with state := "running" }
  | stop (d : Daemon) (state reason : String) (hstate : state ≠ "running") :
      Effect part env d (d.stop env state reason)
  | launch (d : Daemon) (bundle : Bundle) (pid : UInt32) (fd : Fd)
      (hworker : d.worker = none) (hstarts : d.WorkerStarts env bundle) :
      Effect part env d { d.withWorker bundle pid fd with bundle := some bundle }
  | rotate (d : Daemon) (bundle : Bundle) (pid : UInt32) (fd : Fd)
      (hbundle : d.bundle = some bundle) :
      Effect part env d
        ({ d with rotate := none }.stopWorker.withWorker bundle pid fd)
  | rotateFailed (d : Daemon) (reason : String) :
      Effect part env d ({ d with rotate := none }.stopWorker.stop env "error" reason)
  | configure (d : Daemon) (config : Config)
      (hvalid : config.validate = .ok ()) (hsame : config = d.store.config) :
      Effect part env d { d with store := d.store.withConfig config }
  | reconfigure (d : Daemon) (config : Config) (state reason : String)
      (hvalid : config.validate = .ok ())
      (hchanged : EndpointChanged d.store.config config)
      (hstate : state ≠ "running") :
      Effect part env d
        ({ d with store := d.store.withConfig config }.stop env state reason)
  | regrant (d : Daemon) (config : Config) (hvalid : config.validate = .ok ())
      (hbundle : d.bundle = none) :
      Effect part env d (d.regranted config)
  | regrantRestart (d : Daemon) (config : Config) (bundle : Bundle)
      (pid : UInt32) (fd : Fd) (hvalid : config.validate = .ok ())
      (hbundle : d.bundle = some bundle) :
      Effect part env d ((d.regranted config).withWorker bundle pid fd)
  | connect (d : Daemon) (transport : ℕ) (fp : String)
      (hrequest : Requests part (.authenticated transport fp))
      (hworker : d.worker.isSome)
      (hsize : d.transports.size < maxTransports)
      (hfresh : transport ∉ d.transports) (htrust : d.store.trusts fp) :
      Effect part env d
        { d with
          store := d.store.withHosts
            (Store.markConnected env.unixTime fp d.store.hosts)
          transports := d.transports.insert transport fp }
  | disconnect (d : Daemon) (transport : ℕ) :
      Effect part env d (d.disconnect env transport)
  | revoke (d d' : Daemon) (fp : String) (hsaved : env.saved = .ok ())
      (hdone : d.RevokeDone env fp d') : Effect part env d d'
  | spawn (d : Daemon) (transport : ℕ) (s : Service)
      (hspawned : d.Spawned transport s) :
      Effect part env d { d with services := d.services ++ [s] }
  | mark (d : Daemon) (f : Service → Service)
      (hf : ∀ s, f s = s ∨ f s = s.stop env ∨
        ∃ time, f s = { s with closeAt := time }) :
      Effect part env d { d with services := d.services.map f }
  | reap (d : Daemon) (keep : Service → Bool) :
      Effect part env d { d with services := d.services.filter keep }
  | root (d : Daemon) (transport : ℕ) (enable : Bool)
      (hauthorized : transport ∈ d.transports)
      (hallowed : enable = true → d.store.config.allowAdbRoot = true)
      (hchange : d.root ≠ enable) :
      Effect part env d
        { d with root := enable, rotate := some (env.now + millis 500) }
  | closeWindow (d : Daemon) : Effect part env d { d with window := none }
  | skipEpoch (d : Daemon) (hwindow : d.window = none) :
      Effect part env d { d with epoch := d.epoch + 1 }
  | openWindow (d : Daemon) (w : Worker) (window : Window) (fds : List Fd)
      (hpart : part = .control .pairStart) (hworker : d.worker = some w)
      (hstate : d.state = "running")
      (hwindow : d.window = none)
      (hsent : env.sent
        (.pairStart window.epoch window.code window.endpoints) = .ok ())
      (hepoch : window.epoch = d.epoch + 1)
      (hexpires : window.expires = env.now + secs pairSeconds)
      (hfailures : window.failures = 0) :
      Effect part env d
        ({ d with epoch := d.epoch + 1, window := some window }.delivered w
          (.pairStart window.epoch window.code window.endpoints) fds)
  | countFailure (d : Daemon) (window : Window)
      (hrequest : Requests part (.pairResult window.epoch none))
      (hwindow : d.window = some window) (htime : env.now < window.expires)
      (hfailures : window.failures < maxPairFailures) :
      Effect part env d
        { d with window := some window.failed }
  | pair (d : Daemon) (window : Window) (hosts : List Host) (key : String)
      (hrequest : Requests part (.pairResult window.epoch (some key)))
      (hwindow : d.window = some window) (htime : env.now < window.expires)
      (hfailures : window.failures < maxPairFailures)
      (hhosts : d.store.PairedHosts hosts) :
      Effect part env d
        { d with store := d.store.withHosts hosts, window := none }

/-- A sequence of effects. -/
abbrev Effects (part : Section) (env : Env) : Daemon → Daemon → Prop :=
  ReflTransGen (Effect part env)

/-- What a section does: a sequence of effects, or new permission settings
without a worker. -/
def Outcome (part : Section) (env : Env) (d d' : Daemon) : Prop :=
  Effects part env d d' ∨ ∃ config bundle,
    RegrantFails part env d config bundle ∧ d' = d.regranted config

variable {part : Section} {env : Env} {d d' : Daemon}

/-- A property that effects and new permission settings keep survives every
section. -/
theorem Outcome.stable {prop : Daemon → Prop} (h : Outcome part env d d')
    (heffect : ∀ d d', prop d → Effect part env d d' → prop d')
    (hregrant : ∀ config, prop d → prop (d.regranted config)) (hd : prop d) :
    prop d' := by
  rcases h with heffects | ⟨config, bundle, -, rfl⟩
  · exact Transition.stable heffect hd heffects
  · exact hregrant config hd

/-! ## Effects of the helper methods -/

theorem Effects.log (h : Effects part env d d') (message : String) :
    Effects part env d (d'.log env message) :=
  h.tail (.note d' d'.reason _ d'.quit d'.retryAt d'.failures)

@[simp] theorem log_store (message : String) :
    (d.log env message).store = d.store := by
  simp only [Daemon.log]

@[simp] theorem log_window (message : String) :
    (d.log env message).window = d.window := by
  simp only [Daemon.log]

@[simp] theorem log_services (message : String) :
    (d.log env message).services = d.services := by
  simp only [Daemon.log]

@[simp] theorem log_transports (message : String) :
    (d.log env message).transports = d.transports := by
  simp only [Daemon.log]

theorem wp_onStore {α : Type} {method : EStateM String Store α}
    {post : α → Daemon → Prop} {fail : String → Daemon → Prop} :
    wp (onStore method) post fail d ↔
      wp method (fun value store => post value { d with store := store })
        (fun error store => fail error { d with store := store }) d.store := by
  unfold wp onStore
  cases method d.store <;> rfl

theorem send_spec (message : Message) (fds : List Fd) :
    wp (send env message fds)
      (fun _ d' => ∃ w, d.worker = some w ∧ env.sent message = .ok () ∧
        d' = d.delivered w message fds)
      (fun _ d' => d' = d ∧
        (d.worker = none ∨ env.sent message ≠ .ok ())) d := by
  unfold send delivered
  cases hworker : d.worker with
  | none => simp [hworker]
  | some w => 
      simp [hworker]
      grind

theorem send_effects (message : Message) (fds : List Fd)
    (hanswers : Answers part message) :
    wp (send env message fds) (fun _ => Effects part env d)
      (fun _ => Effects part env d) d := by
  refine wp_mono (send_spec message fds) ?_ ?_
  · rintro _ d' ⟨w, hworker, hsent, rfl⟩
    exact .single (.deliver d w message fds hworker hsent hanswers)
  · rintro _ d' ⟨rfl, _⟩
    exact .refl

theorem pairStop_spec :
    wp (pairStop env)
      (fun _ d' => (∀ part, Effects part env { d with window := none } d') ∧
        d'.window = none ∧ d'.state = d.state ∧ d'.stops = d.stops ∧
        d'.store = d.store)
      (fun _ _ => False) d := by
  simp only [pairStop, wp_bind, wp_modify, wp_attempt]
  refine wp_mono (send_spec .pairStop []) ?_ ?_
  · rintro _ d' ⟨w, hworker, hsent, rfl⟩
    exact ⟨fun _ => .single (.deliver _ w _ _ hworker hsent (by simp [Answers])),
      rfl, rfl, rfl, rfl⟩
  · rintro _ d' ⟨rfl, _⟩
    exact ⟨fun _ => .refl, rfl, rfl, rfl, rfl⟩

theorem startWorker_spec :
    wp (startWorker env)
      (fun _ d' => ∃ bundle pid fd, d.bundle = some bundle ∧
        d.WorkerStarts env bundle ∧
        d' = (d.withWorker bundle pid fd).noting
          "Checking network worker permissions" d.logs d.quit d.retryAt
          d.failures)
      (fun _ d' => d' = d ∧
        ∀ bundle, d.bundle = some bundle → ¬d.WorkerStarts env bundle) d := by
  unfold startWorker
  cases hbundle : d.bundle with
  | none => simp [hbundle]
  | some bundle =>
      simp only [wp_bind, wp_get, hbundle, wp_lift, wp_modify]
      refine ⟨?_, fun e he => ⟨trivial, by simp [WorkerStarts, he]⟩⟩
      rintro ⟨a, b⟩ hpair
      refine ⟨?_, fun e he => ⟨trivial, by simp [WorkerStarts, he]⟩⟩
      intro pid hpid
      refine ⟨?_, fun e he => ⟨trivial, by simp [WorkerStarts, he]⟩⟩
      intro _ hsent
      refine ⟨bundle, pid, a, rfl, ⟨⟨_, hpair⟩, ⟨_, hpid⟩, hsent⟩, ?_⟩
      simp only [noting, withWorker, freshWorker, hbundle]

/-! ## Effects of the control requests -/

theorem controlPairStart_effects (hpart : part = .control .pairStart) :
    wp (controlPairStart env) (fun _ => Effects part env d) (fun _ => Effects part env d)
      d := by
  simp only [controlPairStart, wp_bind, wp_get, wp_ensure]
  refine ⟨fun hstate => ⟨fun _ => ?_, fun _ => .refl⟩, fun _ => .refl⟩
  refine wp_mono pairStop_spec ?_ (fun _ _ h => h.elim)
  rintro _ d₁ ⟨hrun, hwindow, hstate₁, -⟩
  have hclosed : Effects part env d d₁ := .head (.closeWindow d) (hrun part)
  simp only [wp_bind, wp_get]
  cases d₁.bundle with
  | none => exact hclosed
  | some bundle =>
      simp only [wp_bind, wp_lift, wp_modify, wp_get]
      refine ⟨fun _ _ => ⟨fun code _ => ?_, fun _ _ => hclosed⟩,
        fun _ _ => hclosed⟩
      refine wp_mono (send_spec _ _) ?_ ?_
      · rintro _ d₂ ⟨w, hworker, hsent, rfl⟩
        refine Effects.log (hclosed.tail ?_) _
        exact .openWindow d₁ w {
            epoch := d₁.epoch + 1
            code := code
            expires := env.now + secs pairSeconds
            expiresAt := env.unixTime + pairSeconds
            failures := 0
            endpoints := _ } _ hpart hworker (hstate₁.trans hstate) hwindow hsent
          rfl rfl rfl
      · rintro _ d₂ ⟨rfl, _⟩
        exact hclosed.tail (.skipEpoch d₁ hwindow)

theorem controlConfigure_effects (config : Config)
    (hpart : part = .control (.configure config)) :
    wp (controlConfigure env config) (fun _ => Effects part env d)
      (fun _ => Outcome part env d) d := by
  simp only [controlConfigure, wp_bind, wp_get, wp_onStore]
  refine wp_mono (Store.configure_spec config) ?_ ?_
  · rintro _ store ⟨hvalid, hsaved, rfl⟩
    simp only [wp_ite, wp_bind, wp_modify, wp_get, wp_pure]
    refine ⟨fun hne => ⟨fun hchanged => ?_, fun hkept => ⟨fun hbundle => ?_,
      fun hbundle => ?_⟩⟩, fun hsame => ?_⟩
    · refine Effects.log (.single ?_) _
      exact .reconfigure d config _ _ hvalid hchanged (by decide)
    · obtain ⟨bundle, hsome⟩ := Option.isSome_iff_exists.mp hbundle
      refine wp_mono (startWorker_spec (d := d.regranted config)) ?_ ?_
      · rintro _ d' ⟨b, pid, fd, hb, _, rfl⟩
        refine Effects.log (.tail (.single ?_) (.note _ _ _ _ _ _)) _
        exact .regrantRestart d config b pid fd hvalid hb
      · rintro _ d' ⟨rfl, hfails⟩
        exact .inr ⟨config, bundle, ⟨hpart, hvalid, hsaved, hne, hkept, hsome,
          hfails bundle hsome⟩, rfl⟩
    · refine Effects.log (.single ?_) _
      exact .regrant d config hvalid (by simpa [stopWorker] using hbundle)
    · have hconfig : config = d.store.config := by
        simpa using (not_not.mp hsame).symm
      exact .single (.configure d config hvalid hconfig)
  · rintro _ store ⟨-, rfl⟩
    exact .inl .refl

@[simp] theorem disconnect_store (t : ℕ) :
    (d.disconnect env t).store = d.store := rfl

@[simp] theorem disconnect_worker (t : ℕ) :
    (d.disconnect env t).worker = d.worker := rfl

theorem foldl_disconnect_store (ids : List ℕ) :
    (ids.foldl (fun d id => d.disconnect env id) d).store = d.store := by
  induction ids generalizing d with
  | nil => rfl
  | cons id rest ih => exact ih

theorem foldl_disconnect_worker (ids : List ℕ) :
    (ids.foldl (fun d id => d.disconnect env id) d).worker = d.worker := by
  induction ids generalizing d with
  | nil => rfl
  | cons id rest ih => exact ih

@[simp] theorem revoked_store (fp : String) :
    (d.revoked env fp).store = d.store.withHosts (d.store.without fp) :=
  foldl_disconnect_store _

@[simp] theorem revoked_worker (fp : String) :
    (d.revoked env fp).worker = d.worker :=
  foldl_disconnect_worker _

theorem controlRevoke_spec (fp : String) :
    wp (controlRevoke env fp)
      (fun _ d' => env.saved = .ok () ∧ ∃ d₁, d.RevokeDone env fp d₁ ∧
        d' = d₁.log env "Host authorization revoked")
      (fun _ d' => env.saved ≠ .ok () ∧ d' = d ∨
        env.saved = .ok () ∧ d.RevokeDone env fp d') d := by
  simp only [controlRevoke, wp_bind, wp_get, wp_onStore]
  refine wp_mono (Store.revoke_spec fp) ?_ ?_
  · rintro _ store ⟨hsaved, rfl⟩
    simp only [wp_modify, wp_bind, wp_get, wp_ite]
    change ((d.revoked env fp).worker.isSome = true → _) ∧
      (¬(d.revoked env fp).worker.isSome = true → _)
    have hhosts : (d.revoked env fp).store.hosts = d.store.without fp := by
      rw [revoked_store, Store.withHosts_hosts]
    refine ⟨fun hworker => ?_, fun hworker => ?_⟩
    · obtain ⟨w, hw⟩ := Option.isSome_iff_exists.mp hworker
      refine wp_mono (send_spec (d := d.revoked env fp) _ _) ?_ ?_
      · rintro _ d' ⟨w', hw', hsent, rfl⟩
        change env.sent (.hosts (d.revoked env fp).store.hosts) = _ at hsent
        rw [revoked_worker] at hw'
        rw [hhosts] at hsent
        refine ⟨hsaved, _, .told w' hw' hsent, ?_⟩
        exact congrArg (fun hosts => ((d.revoked env fp).delivered w'
          (.hosts hosts) []).log env "Host authorization revoked") hhosts
      · rintro _ d' ⟨rfl, hunsent⟩
        change _ ∨ env.sent (.hosts (d.revoked env fp).store.hosts) ≠ _
          at hunsent
        rw [hhosts, hw] at hunsent
        rw [revoked_worker] at hw
        exact .inr ⟨hsaved, .untold w hw (by simpa using hunsent)⟩
    · exact ⟨hsaved, _, .idle (by simpa using hworker), rfl⟩
  · rintro _ store ⟨hunsaved, rfl⟩
    exact .inl ⟨hunsaved, rfl⟩

theorem controlRevoke_effects (fp : String) :
    wp (controlRevoke env fp) (fun _ => Effects part env d)
      (fun _ => Effects part env d) d := by
  refine wp_mono (controlRevoke_spec fp) ?_ ?_
  · rintro _ d' ⟨hsaved, d₁, hdone, rfl⟩
    exact Effects.log (.single (.revoke d d₁ fp hsaved hdone)) _
  · rintro _ d' (⟨_, rfl⟩ | ⟨hsaved, hdone⟩)
    · exact .refl
    · exact .single (.revoke d d' fp hsaved hdone)

theorem control_effects (request : Control) (hpart : part = .control request) :
    wp (control env request) (fun _ => Effects part env d)
      (fun _ => Outcome part env d) d := by
  cases request with
  | status => exact .refl
  | logs => exact .refl
  | pairStart =>
      simp only [control, wp_bind]
      exact wp_mono (controlPairStart_effects hpart) (fun _ _ h => h)
        (fun _ _ h => .inl h)
  | pairStop =>
      simp only [control, wp_bind]
      refine wp_mono pairStop_spec ?_ (fun _ _ h => h.elim)
      rintro _ d' ⟨hrun, -⟩
      exact Effects.log (.head (.closeWindow d) (hrun part)) _
  | configure config =>
      simp only [control, wp_bind]
      exact controlConfigure_effects config hpart
  | revoke fp =>
      simp only [control, wp_bind]
      exact wp_mono (controlRevoke_effects fp) (fun _ _ h => h)
        (fun _ _ h => .inl h)
  | stop =>
      simp only [control, wp_bind, wp_modify, wp_get, wp_pure]
      exact .head (.note d d.reason d.logs true d.retryAt d.failures)
        (.single (.stop _ _ _ (by decide)))

/-! ## Effects of the requests of the worker -/

/-- A service is started on return.  A reverse binder that fails leaves a
stopped service, any earlier failure leaves none. -/
theorem spawnService_spec (t : ℕ) (name : String) (bind : Bool) :
    wp (spawnService env t name bind)
      (fun _ d' => ∃ s, d.Spawned t s ∧
        d' = { d with services := d.services ++ [s] })
      (fun _ d' => d' = d ∨ ∃ s, d.Spawned t s ∧ s.stopped = true ∧
        d' = { d with services := d.services ++ [s] }) d := by
  simp only [spawnService, wp_bind, wp_get, wp_ensure, wp_lift, wp_ite,
    wp_modify, wp_throw, wp_pure]
  refine ⟨fun hauth => ⟨fun hlimit => ⟨fun _ => ?_, ?_⟩, ?_⟩, ?_⟩
  case refine_2 | refine_3 | refine_4 => exact fun _ => .inl trivial
  refine ⟨fun _ _ => ⟨fun _ _ => ⟨fun data _ => ⟨fun pid _ => ⟨fun _ _ => ?_, ?_⟩,
    ?_⟩, ?_⟩, ?_⟩, ?_⟩
  case refine_2 | refine_3 | refine_4 | refine_5 | refine_6 =>
    exact fun _ _ => .inl trivial
  have hspawned (binder : Option (String × Fd)) : d.Spawned t {
      child := {
        pid := pid
        start := {
          name := name
          root := d.root
          allowSu := d.store.config.allowShellRoot
          test := d.test
          bind := bind }
        owner := d.transports.getD t ""
        signal := none }
      transport := t
      binder := binder
      stopped := false
      closeAt := none } := ⟨hauth, hlimit, rfl, rfl, rfl, rfl, rfl⟩
  refine ⟨fun _ => ⟨fun _ => .inr ?_, fun _ => ?_⟩, fun _ => ?_⟩
  · exact ⟨_, (hspawned none).stop, Service.stop_stopped _ _, rfl⟩
  · cases env.bindReply with
    | ok reply => exact ⟨_, hspawned _, rfl⟩
    | error error =>
        exact .inr ⟨_, (hspawned none).stop, Service.stop_stopped _ _, rfl⟩
  · exact ⟨_, hspawned none, rfl⟩

theorem spawnService_effects (t : ℕ) (name : String) (bind : Bool) :
    wp (spawnService env t name bind) (fun _ => Effects part env d)
      (fun _ => Effects part env d) d := by
  refine wp_mono (spawnService_spec t name bind) ?_ ?_
  · rintro _ d' ⟨s, hspawned, rfl⟩
    exact .single (.spawn d t s hspawned)
  · rintro _ d' (rfl | ⟨s, hspawned, -, rfl⟩)
    · exact .refl
    · exact .single (.spawn d t s hspawned)

theorem requestAuthenticated_spec (t : ℕ) (fp : String) :
    wp (requestAuthenticated env t fp)
      (fun _ d' => d.transports.size < maxTransports ∧ t ∉ d.transports ∧
        d.store.trusts fp ∧ ∃ logs,
        d' = { d with
          store := d.store.withHosts
            (Store.markConnected env.unixTime fp d.store.hosts)
          transports := d.transports.insert t fp
          logs := logs })
      (fun _ d' => d' = d) d := by
  simp only [requestAuthenticated, wp_bind, wp_get, wp_ensure, wp_onStore]
  refine ⟨fun hlimit => ?_, fun _ => trivial⟩
  obtain ⟨hsize, hfresh⟩ := hlimit
  refine wp_mono (Store.connected_spec env.unixTime fp) ?_ ?_
  · rintro _ store ⟨htrust, -, rfl⟩
    exact ⟨hsize, hfresh, htrust, _, rfl⟩
  · rintro _ store rfl
    rfl

theorem requestRoot_effects (t : ℕ) (enable : Bool) :
    wp (requestRoot env t enable) (fun _ => Effects part env d)
      (fun _ => Effects part env d) d := by
  simp only [requestRoot, wp_bind, wp_get, wp_ensure, wp_ite, wp_pure,
    wp_modify]
  refine ⟨fun hauth => ⟨fun hallowed => ⟨fun _ => .refl, fun hchange => ?_⟩,
    fun _ => .refl⟩, fun _ => .refl⟩
  refine .single (.root d t enable hauth ?_ hchange)
  intro henable
  simpa [henable] using hallowed

/-- The guard of a pairing result. -/
structure Admitted (env : Env) (d : Daemon) (epoch : ℕ) (window : Window) :
    Prop where
  window_eq : d.window = some window
  epoch_eq : window.epoch = epoch
  time : env.now < window.expires
  failures : window.failures < maxPairFailures

/-- What a pairing result does to the store and the window. -/
inductive PairResultDone (env : Env) (d : Daemon) (epoch : ℕ) :
    Option String → Daemon → Prop
  | refused (d' : Daemon) (key : Option String) (hstore : d'.store = d.store)
      (hwindow : d'.window = d.window)
      (hrefused : key = none → ¬∃ window, d.Admitted env epoch window) :
      PairResultDone env d epoch key d'
  | committed (d' : Daemon) (key : String) (window : Window) (hosts : List Host)
      (hadmitted : d.Admitted env epoch window)
      (hhosts : d.store.PairedHosts hosts)
      (hstore : d'.store = d.store.withHosts hosts)
      (hwindow : d'.window = none) : PairResultDone env d epoch (some key) d'
  | counted (d' : Daemon) (window : Window)
      (hadmitted : d.Admitted env epoch window) (hstore : d'.store = d.store)
      (hwindow : d'.window =
        if maxPairFailures ≤ window.failures + 1 then none
        else some window.failed) : PairResultDone env d epoch none d'

theorem requestPairResult_spec (codec : KeyCodec) (epoch : ℕ)
    (key : Option String) :
    wp (requestPairResult codec env epoch key)
      (fun _ => d.PairResultDone env epoch key)
      (fun _ => d.PairResultDone env epoch key) d := by
  simp only [requestPairResult, wp_bind, wp_get]
  cases hwindow : d.window with
  | none =>
      refine .refused d key rfl rfl ?_
      rintro - ⟨window, hadmitted⟩
      simpa [hwindow] using hadmitted.window_eq
  | some window =>
      simp only [wp_bind, wp_ensure]
      refine ⟨fun hopen => ?_, fun hclosed => ?_⟩
      · obtain ⟨hepoch, htime, hfailures⟩ := hopen
        have hadmitted : d.Admitted env epoch window :=
          ⟨hwindow, hepoch, htime, hfailures⟩
        cases key with
        | some key =>
            simp only [wp_bind, wp_onStore]
            refine wp_mono (Store.pair_spec codec env.unixTime key) ?_ ?_
            · rintro fp store ⟨-, hosts, hhosts, rfl, -⟩
              simp only [wp_modify, wp_bind]
              have hcommitted (d' : Daemon)
                  (hstore : d'.store = d.store.withHosts hosts)
                  (hclosed : d'.window = none) :
                  d.PairResultDone env epoch (some key) d' :=
                .committed d' key window hosts hadmitted hhosts hstore hclosed
              refine wp_mono (send_spec _ _) ?_ ?_
              · rintro _ d₁ ⟨w, -, -, rfl⟩
                simp only [wp_get, wp_bind]
                refine wp_mono (send_spec _ _) ?_ ?_
                · rintro _ d₂ ⟨w', -, -, rfl⟩
                  exact hcommitted _ (log_store _) (log_window _)
                · rintro _ d₂ ⟨rfl, -⟩
                  exact hcommitted _ rfl rfl
              · rintro _ d₁ ⟨rfl, -⟩
                exact hcommitted _ rfl rfl
            · rintro _ store rfl
              exact .refused _ _ rfl rfl (by simp)
        | none =>
            simp only [wp_bind, wp_modify, wp_ite]
            refine ⟨fun hlast => ?_, fun hmore => ?_⟩
            · refine wp_mono pairStop_spec ?_ (fun _ _ h => h.elim)
              rintro _ d' ⟨-, hclosed, -, -, hstore⟩
              refine .counted _ window hadmitted ?_ ?_
              · rw [log_store, hstore]
              · rw [log_window, hclosed, if_pos hlast]
            · refine .counted _ window hadmitted (log_store _) ?_
              rw [log_window, if_neg hmore]
              rfl
      · refine .refused d key rfl rfl ?_
        rintro - ⟨other, hadmitted⟩
        obtain rfl := Option.some_inj.mp (hwindow.symm.trans hadmitted.window_eq)
        exact hclosed ⟨hadmitted.epoch_eq, hadmitted.time, hadmitted.failures⟩

theorem requestPairResult_effects (codec : KeyCodec) (epoch : ℕ)
    (key : Option String) (hrequest : Requests part (.pairResult epoch key)) :
    wp (requestPairResult codec env epoch key) (fun _ => Effects part env d)
      (fun _ => Effects part env d) d := by
  simp only [requestPairResult, wp_bind, wp_get]
  cases hwindow : d.window with
  | none => exact .refl
  | some window =>
      simp only [wp_bind, wp_ensure]
      refine ⟨fun hopen => ?_, fun _ => .refl⟩
      obtain ⟨rfl, htime, hfailures⟩ := hopen
      cases key with
      | some key =>
          simp only [wp_bind, wp_onStore]
          refine wp_mono (Store.pair_spec codec env.unixTime key) ?_ ?_
          · rintro fp store ⟨-, hosts, hhosts, rfl, -⟩
            have hpaired : Effects part env d
                { d with store := d.store.withHosts hosts, window := none } :=
              .single (.pair d window hosts key hrequest hwindow htime hfailures hhosts)
            simp only [wp_modify, wp_bind]
            refine wp_mono (send_effects _ _ (by simp [Answers]))
              (fun _ d₁ h₁ => ?_) (fun _ _ h => hpaired.trans h)
            simp only [wp_get, wp_bind]
            refine wp_mono (send_effects _ _ (by simp [Answers]))
              (fun _ d₂ h₂ => ?_) (fun _ _ h => hpaired.trans (h₁.trans h))
            exact Effects.log (hpaired.trans (h₁.trans h₂)) _
          · rintro _ store rfl
            exact .refl
      | none =>
          simp only [wp_bind, wp_modify, wp_ite]
          have hcounted : Effects part env d { d with window := some window.failed } :=
            .single (.countFailure d window hrequest hwindow htime hfailures)
          refine ⟨fun _ => ?_, fun _ => hcounted.log _⟩
          refine wp_mono pairStop_spec ?_ (fun _ _ h => h.elim)
          rintro _ d' ⟨hrun, -⟩
          exact Effects.log
            (hcounted.trans (.head (.closeWindow _) (hrun part))) _

theorem request_effects (codec : KeyCodec) (r : Request)
    (hrequest : Requests part r) (hworker : d.worker.isSome) :
    wp (request codec env r) (fun _ => Effects part env d) (fun _ => Effects part env d)
      d := by
  cases r with
  | authenticated t fp =>
      simp only [request, wp_bind]
      refine wp_mono (requestAuthenticated_spec t fp) ?_ ?_
      · rintro _ d' ⟨hsize, hfresh, htrust, logs, rfl⟩
        exact .head (.connect d t fp hrequest hworker hsize hfresh htrust)
          (.single (.note _ d.reason logs d.quit d.retryAt d.failures))
      · rintro _ d' rfl
        exact .refl
  | disconnected t => exact .single (.disconnect d t)
  | spawn t name => exact spawnService_effects t name false
  | closeService t service =>
      refine .single (.mark d _ fun s => ?_)
      split
      · exact .inr (.inr ⟨_, rfl⟩)
      · exact .inl rfl
  | bindReverse t spec => exact spawnService_effects t spec true
  | closeReverse t spec =>
      refine .single (.mark d _ fun s => ?_)
      split
      · exact .inr (.inl rfl)
      · exact .inl rfl
  | root t enable =>
      simp only [request, wp_bind]
      exact requestRoot_effects t enable
  | pairResult epoch key =>
      simp only [request, wp_bind]
      exact requestPairResult_effects codec epoch key hrequest

/-! ## Effects of the sections -/

theorem windowExpiry_effects : Effects part env d (d.windowExpiry env) := by
  unfold windowExpiry
  split
  · exact .refl
  · split
    · refine Effects.log (.head (.closeWindow d) ?_) _
      exact wp_final (wp_mono pairStop_spec (fun _ _ h => h.1 part)
        (fun _ _ h => h.elim))
    · exact .refl

theorem rotation_effects : Effects part env d (d.rotation env) := by
  unfold rotation
  split
  · have hstart := @startWorker_spec env { d with rotate := none }.stopWorker
    unfold wp at hstart
    split
    · next _ d' hrun =>
      rw [hrun] at hstart
      obtain ⟨bundle, pid, fd, hbundle, _, rfl⟩ := hstart
      exact .head (.rotate d bundle pid fd hbundle)
        (.single (.note _ _ _ _ _ _))
    · next _ d' hrun =>
      rw [hrun] at hstart
      obtain ⟨rfl, _⟩ := hstart
      exact .single (.rotateFailed d _)
  · exact .refl

theorem serve_effects (codec : KeyCodec) (id : ℕ) (r : Request)
    (hpart : part = .worker (.message (.request id r) []))
    (hworker : d.worker.isSome) :
    Effects part env d (d.serve codec env id r) := by
  have heffects := @request_effects part env d codec r ⟨id, hpart⟩ hworker
  have hanswers (ok : Bool) (text : String) :
      Answers part (.reply id ok text) := by
    intro id' ok' text' heq
    cases heq
    exact ⟨r, hpart⟩
  unfold serve
  unfold wp at heffects
  split <;> next hrun =>
    rw [hrun] at heffects
    exact heffects.trans (wp_final (send_effects _ _ (hanswers _ _)))

theorem receive_effects (codec : KeyCodec) (arrival : Arrival)
    (hpart : part = .worker arrival) :
    Effects part env d (d.receive codec env arrival) := by
  unfold receive
  split
  · exact .refl
  · next hnone =>
    have hworker : d.worker.isSome := by
      cases h : d.worker <;> simp [h] at hnone ⊢
    split
    · refine Effects.log (.head (.ready d hworker) (.single ?_)) _
      exact .note _ "" _ _ _ _
    · exact serve_effects codec _ _ hpart hworker
    all_goals exact .single (.stop d _ _ (by decide))

theorem reap_effects : Effects part env d (d.reap env) := by
  refine .head (.mark d _ fun s => ?_) (.single (.reap _ _))
  split
  · exact .inr (.inl rfl)
  · exact .inl rfl

/-- `stop` up to the bookkeeping. -/
theorem stop_eq (state reason : String) :
    ∃ logs retryAt failures, d.stop env state reason =
      { if d.worker.isSome then d.stopWorker else d with
        bundle := none
        root := false
        rotate := none
        state := state
        reason := reason
        logs := logs
        retryAt := retryAt
        failures := failures } := by
  unfold stop log stopWorker
  dsimp only
  split_ifs <;> exact ⟨_, _, _, rfl⟩

@[simp] theorem stop_worker (state reason : String) :
    (d.stop env state reason).worker = none := by
  obtain ⟨_, _, _, h⟩ := @stop_eq env d state reason
  rw [h]
  cases hworker : d.worker <;> simp [hworker, stopWorker]

/-- `stop` gives up the bundle, whatever it was. -/
theorem stop_of_bundle (bundle : Option Bundle) (state reason : String) :
    { d with bundle := bundle }.stop env state reason =
      d.stop env state reason := by
  unfold stop log stopWorker
  dsimp only
  split_ifs <;> rfl

theorem start_spec (addresses : List Endpoint) (hworker : d.worker = none) :
    wp (start env addresses) (fun _ => Effects part env d)
      (fun _ d' => ∃ bundle, d' = { d with bundle := bundle }) d := by
  simp only [start, wp_bind, wp_get, wp_lift, wp_modify]
  refine ⟨fun _ _ => ⟨fun _ _ => ?_, fun _ _ => ⟨d.bundle, rfl⟩⟩,
    fun _ _ => ⟨d.bundle, rfl⟩⟩
  refine wp_mono startWorker_spec ?_ ?_
  · rintro _ d' ⟨bundle, pid, fd, hbundle, hstarts, rfl⟩
    obtain rfl := Option.some_inj.mp hbundle
    refine .head (.launch d _ pid fd hworker hstarts) (.single ?_)
    exact .note { d.withWorker _ pid fd with bundle := some _ } _ d.logs d.quit
      d.retryAt d.failures
  · rintro _ d' ⟨rfl, _⟩
    exact ⟨_, rfl⟩

theorem networkCheck_effects : Effects part env d (d.networkCheck env) := by
  unfold networkCheck
  split
  · exact .single (.stop d _ _ (by decide))
  · exact .single (.stop d _ _ (by decide))
  · next addresses _ _ =>
    have hstop : Effects part env d (d.stop env "starting"
        "Network changed; starting service") :=
      .single (.stop d _ _ (by decide))
    have hstart := @start_spec part env _ addresses
      (@stop_worker env d "starting" "Network changed; starting service")
    unfold wp at hstart
    dsimp only
    split_ifs
    · cases hrun : start env addresses
          (d.stop env "starting" "Network changed; starting service") with
      | ok _ d' =>
          rw [hrun] at hstart
          exact hstop.trans hstart
      | error _ d' =>
          rw [hrun] at hstart
          obtain ⟨bundle, rfl⟩ := hstart
          dsimp only
          rw [stop_of_bundle]
          exact hstop.tail (.stop _ _ _ (by decide))
    · exact .refl

end Daemon

namespace MainLoop

open Daemon

theorem checks_effects (part : Section) (env : Env) (l : MainLoop) :
    Effects part env l.daemon (l.checks env).daemon := by
  unfold checks
  split
  · dsimp only
    split
    · exact .single (.stop _ _ _ (by decide))
    · split
      · exact .single (.stop _ _ _ (by decide))
      · split
        · exact Effects.log (.single (.note _ _ _ _ _ _)) _
        · exact .refl
      · have hnote : Effects part env l.daemon
            (if l.daemon.reason = settingsUnavailable then
              { l.daemon with reason := "" }.log env
                "Debugging settings are available again"
            else l.daemon) := by
          split
          · exact Effects.log (.single (.note _ "" _ _ _ _)) _
          · exact .refl
        revert hnote
        generalize (if l.daemon.reason = settingsUnavailable then _
          else l.daemon) = d
        intro hnote
        split
        · exact hnote.trans networkCheck_effects
        · exact hnote
  · exact .refl

theorem step_effects (codec : KeyCodec) (env : Env) (part : Section)
    (l : MainLoop) :
    Outcome part env l.daemon (l.step codec env part).daemon := by
  unfold step
  split
  · exact .inl .refl
  · cases part with
    | control request =>
        exact wp_final (wp_mono (control_effects request rfl)
          (fun _ _ h => .inl h) (fun _ _ h => h))
    | windowExpiry => exact .inl windowExpiry_effects
    | rotation => exact .inl rotation_effects
    | worker arrival => exact .inl (receive_effects codec arrival rfl)
    | reap => exact .inl reap_effects
    | checks => exact .inl (checks_effects _ env { l with clock := env.now })
    | shutdown =>
        exact .inl (.head (.note l.daemon l.daemon.reason l.daemon.logs true
          l.daemon.retryAt l.daemon.failures)
          (.single (.stop _ _ _ (by decide))))

/-- The invariant rule of the supervisor: what every effect keeps holds in
every reachable state. -/
theorem Reachable.invariant_of_effects {codec : KeyCodec}
    {inv : Daemon → Prop}
    (hinit : ∀ store test now, inv (initial store test now).daemon)
    (heffect : ∀ part env d d', inv d → Effect part env d d' → inv d')
    (hregrant : ∀ d config, inv d → inv (d.regranted config))
    {l : MainLoop} (h : Reachable codec l) : inv l.daemon := by
  refine @Transition.Reachable.invariant _ _ _ (fun l => inv l.daemon) ?_ ?_ l h
  · rintro l ⟨store, test, now, rfl⟩
    exact hinit store test now
  · rintro l l' - hinv ⟨env, part, -, rfl⟩
    exact (step_effects codec env part l).stable (heffect part env)
      (hregrant l.daemon) hinv

end MainLoop

end Altdb
