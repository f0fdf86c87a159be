import Altdb.DaemonAuthorization

/-!
# The worker and the permission policy

Services, connections and the pairing window exist only while there is a
worker, so that `stop`, which clears them through `stop_worker`, leaves none
behind.  On this rests the permission policy: every running service was started
under the settings that hold now.
-/

namespace Altdb

open Fallible Relation

namespace Daemon

/-- Without a worker nothing runs. -/
structure Contained (d : Daemon) : Prop where
  services : d.worker = none → d.services = []
  transports : d.worker = none → d.transports = ∅
  window : d.worker = none → d.window = none

variable {part : Section} {env : Env} {d d' : Daemon}

theorem Contained.of_worker (hworker : d.worker.isSome) : d.Contained := by
  have hne : d.worker ≠ none := Option.isSome_iff_ne_none.mp hworker
  constructor
  · intro hnone
    exact absurd hnone hne
  · intro hnone
    exact absurd hnone hne
  · intro hnone
    exact absurd hnone hne

theorem Contained.of_empty (hservices : d.services = [])
    (htransports : d.transports = ∅) (hwindow : d.window = none) : d.Contained :=
  ⟨fun _ => hservices, fun _ => htransports, fun _ => hwindow⟩

/-- A change that leaves what runs without a worker alone. -/
theorem Contained.congr (h : d.Contained) (hworker : d'.worker = d.worker)
    (hservices : d.services = [] → d'.services = [])
    (htransports : d.transports = ∅ → d'.transports = ∅)
    (hwindow : d.window = none → d'.window = none) : d'.Contained := by
  constructor
  · intro hnone
    exact hservices (h.services (hworker ▸ hnone))
  · intro hnone
    exact htransports (h.transports (hworker ▸ hnone))
  · intro hnone
    exact hwindow (h.window (hworker ▸ hnone))

/-- A connection, a service or a window has a worker. -/
theorem Contained.worker_of_transport (h : d.Contained) {t : ℕ}
    (ht : t ∈ d.transports) : d.worker.isSome := by
  by_contra hnone
  rw [h.transports (by simpa using hnone)] at ht
  simp at ht

theorem Contained.worker_of_window (h : d.Contained) {window : Window}
    (hwindow : d.window = some window) : d.worker.isSome := by
  by_contra hnone
  rw [h.window (by simpa using hnone)] at hwindow
  cases hwindow

/-- After `stop` nothing is left but the store. -/
structure Stopped (d d' : Daemon) : Prop where
  worker : d'.worker = none
  bundle : d'.bundle = none
  services : d'.services = []
  transports : d'.transports = ∅
  window : d'.window = none
  root : d'.root = false
  rotate : d'.rotate = none
  store : d'.store = d.store

theorem Contained.stop (h : d.Contained) (env : Env) (state reason : String) :
    Stopped d (d.stop env state reason) := by
  obtain ⟨logs, retryAt, failures, heq⟩ := @stop_eq env d state reason
  rw [heq]
  cases hworker : d.worker with
  | some w => exact ⟨rfl, rfl, rfl, rfl, rfl, rfl, rfl, rfl⟩
  | none =>
      exact ⟨hworker, rfl, h.services hworker, h.transports hworker,
        h.window hworker, rfl, rfl, rfl⟩

theorem Stopped.contained (h : Stopped d d') : d'.Contained :=
  .of_empty h.services h.transports h.window

theorem Contained.disconnect (h : d.Contained) (t : ℕ) :
    (d.disconnect env t).Contained := by
  apply h.congr
  · rfl
  · intro hnil
    simp [Daemon.disconnect, hnil]
  · intro hnil
    simp [Daemon.disconnect, hnil]
  · exact id

theorem Contained.revoked (h : d.Contained) (fp : String) :
    (d.revoked env fp).Contained := by
  have hfold (ids : List ℕ) (d : Daemon) (h : d.Contained) :
      (ids.foldl (fun d id => d.disconnect env id) d).Contained := by
    induction ids generalizing d with
    | nil => exact h
    | cons id rest ih => exact ih _ (h.disconnect id)
  apply hfold
  exact h.congr rfl id id id

theorem Contained.step (h : d.Contained) (heffect : Effect part env d d') :
    d'.Contained := by
  cases heffect with
  | note | ready | configure | root | skipEpoch => exact h.congr rfl id id id
  | deliver | launch | rotate | regrantRestart | openWindow => exact .of_worker rfl
  | stop state reason => exact (h.stop env state reason).contained
  | rotateFailed reason =>
      have hempty : { d with rotate := none }.stopWorker.Contained :=
        .of_empty rfl rfl rfl
      exact (hempty.stop env "error" reason).contained
  | reconfigure config state reason =>
      have hsaved : { d with store := d.store.withConfig config }.Contained :=
        h.congr rfl id id id
      exact (hsaved.stop env state reason).contained
  | regrant => exact .of_empty rfl rfl rfl
  | connect t fp _ hworker => exact .of_worker hworker
  | disconnect t => exact h.disconnect t
  | revoke d' fp _ hdone =>
      cases hdone with
      | idle | untold => exact h.revoked fp
      | told => exact .of_worker rfl
  | spawn t s hspawned => exact .of_worker (h.worker_of_transport hspawned.authorized)
  | mark f =>
      refine h.congr rfl ?_ id id
      intro hnil
      simp [hnil]
  | reap keep =>
      refine h.congr rfl ?_ id id
      intro hnil
      simp [hnil]
  | closeWindow =>
      refine h.congr rfl id id ?_
      intro _
      rfl
  | countFailure window _ hwindow | pair window _ _ _ hwindow =>
      exact .of_worker (h.worker_of_window hwindow)

/-! ## The permission policy -/

/-- What runs was started under the present settings, up to a pending rotation
to the other adb identity. -/
structure Policy (d : Daemon) : Prop where
  root : d.root = true → d.store.config.allowAdbRoot = true
  services : ∀ s ∈ d.services, s.stopped = false →
    (s.child.start.root = true → d.store.config.allowAdbRoot = true) ∧
      s.child.start.allowSu = d.store.config.allowShellRoot ∧
      (d.rotate = none → s.child.start.root = d.root)

/-- Running services stay as they are, and neither the settings nor the adb
identity change. -/
theorem Policy.congr (h : d.Policy) (hconfig : d'.store.config = d.store.config)
    (hroot : d'.root = d.root) (hrotate : d'.rotate = d.rotate)
    (hservices : ∀ s ∈ d'.services, s.stopped = false →
      ∃ old ∈ d.services, old.stopped = false ∧ old.child.start = s.child.start) :
    d'.Policy := by
  constructor
  · rw [hroot, hconfig]
    exact h.root
  · intro s hs hrun
    obtain ⟨old, hold, hrun', hstart⟩ := hservices s hs hrun
    rw [hconfig, hrotate, hroot, ← hstart]
    exact h.services old hold hrun'

theorem Policy.of_stopped (hroot : d.root = true → d.store.config.allowAdbRoot = true)
    (hservices : d.services = []) : d.Policy := by
  constructor
  · exact hroot
  · intro s hs
    rw [hservices] at hs
    cases hs

theorem Stopped.policy (h : Stopped d d') : d'.Policy := by
  apply Policy.of_stopped
  · intro hroot
    rw [h.root] at hroot
    cases hroot
  · exact h.services

theorem Policy.mark (h : d.Policy) {f : Service → Service}
    (hf : ∀ s, f s = s ∨ f s = s.stop env ∨ ∃ time, f s = { s with closeAt := time }) :
    { d with services := d.services.map f }.Policy := by
  refine h.congr rfl rfl rfl ?_
  intro s hs hrun
  obtain ⟨old, hold, rfl⟩ := List.mem_map.mp hs
  rcases hf old with heq | heq | ⟨time, heq⟩
  · rw [heq] at hrun ⊢
    exact ⟨old, hold, hrun, rfl⟩
  · simp [heq] at hrun
  · rw [heq] at hrun ⊢
    exact ⟨old, hold, hrun, rfl⟩

theorem Policy.disconnect (h : d.Policy) (t : ℕ) : (d.disconnect env t).Policy := by
  have hmarked : { d with services := d.services.map fun (service : Service) =>
      if service.transport = t then service.stop env else service }.Policy := by
    apply h.mark
    intro s
    split
    · right
      left
      rfl
    · left
      rfl
  exact ⟨hmarked.root, hmarked.services⟩

theorem Policy.revoked (h : d.Policy) (fp : String) : (d.revoked env fp).Policy := by
  have hfold (ids : List ℕ) (d : Daemon) (h : d.Policy) :
      (ids.foldl (fun d id => d.disconnect env id) d).Policy := by
    induction ids generalizing d with
    | nil => exact h
    | cons id rest ih => exact ih _ (h.disconnect id)
  apply hfold
  exact ⟨h.root, h.services⟩

theorem Policy.spawn (h : d.Policy) {t : ℕ} {s : Service}
    (hspawned : d.Spawned t s) :
    { d with services := d.services ++ [s] }.Policy := by
  constructor
  · exact h.root
  · intro s' hs' hrun
    rcases List.mem_append.mp hs' with hold | hnew
    · exact h.services s' hold hrun
    · obtain rfl := List.mem_singleton.mp hnew
      refine ⟨?_, hspawned.allowSu_eq, fun _ => hspawned.root_eq⟩
      intro hroot
      rw [hspawned.root_eq] at hroot
      exact h.root hroot

theorem Policy.step (hcontained : d.Contained) (h : d.Policy)
    (heffect : Effect part env d d') : d'.Policy := by
  have hsame : ∀ s ∈ d.services, s.stopped = false →
      ∃ old ∈ d.services, old.stopped = false ∧ old.child.start = s.child.start :=
    fun s hs hrun => ⟨s, hs, hrun, rfl⟩
  cases heffect with
  | note | deliver | ready | launch | connect | closeWindow | skipEpoch | openWindow
  | countFailure | pair => exact h.congr rfl rfl rfl hsame
  | configure config _ heq => exact h.congr heq rfl rfl hsame
  | stop state reason => exact (hcontained.stop env state reason).policy
  | rotate => exact .of_stopped h.root rfl
  | rotateFailed reason =>
      have hempty : { d with rotate := none }.stopWorker.Contained :=
        .of_empty rfl rfl rfl
      exact (hempty.stop env "error" reason).policy
  | reconfigure config state reason =>
      have hsaved : { d with store := d.store.withConfig config }.Contained :=
        hcontained.congr rfl id id id
      exact (hsaved.stop env state reason).policy
  | regrant | regrantRestart =>
      apply Policy.of_stopped _ rfl
      intro hroot
      cases hroot
  | disconnect t => exact h.disconnect t
  | revoke d' fp _ hdone =>
      cases hdone with
      | idle | untold => exact h.revoked fp
      | told =>
          have hrevoked := @Policy.revoked env d h fp
          exact ⟨hrevoked.root, hrevoked.services⟩
  | spawn t s hspawned => exact h.spawn hspawned
  | mark f hf => exact h.mark hf
  | reap keep =>
      refine h.congr rfl rfl rfl ?_
      intro s hs hrun
      exact ⟨s, (List.mem_filter.mp hs).1, hrun, rfl⟩
  | root t enable _ hallowed =>
      constructor
      · exact hallowed
      · intro s hs hrun
        obtain ⟨hroot, hsu, -⟩ := h.services s hs hrun
        exact ⟨hroot, hsu, fun hnone => by cases hnone⟩

/-- New settings that are saved leave no service behind. -/
theorem Contained.configure (h : d.Contained) {config : Config}
    (hvalid : config.validate = .ok ()) (hsaved : env.saved = .ok ())
    (hchanged : config ≠ d.store.config) :
    (final (control env (.configure config) d)).services = [] := by
  refine @wp_final _ _ _ _ _ (fun d' : Daemon => d'.services = []) ?_
  simp only [control, controlConfigure, wp_bind, wp_get, wp_onStore]
  refine wp_mono (Store.configure_spec config) ?_ ?_
  · rintro _ store ⟨-, -, rfl⟩
    have hcontained : { d with store := d.store.withConfig config }.Contained :=
      h.congr rfl id id id
    simp only [wp_ite, wp_bind, wp_modify, wp_get, wp_pure]
    refine ⟨fun _ => ⟨fun _ => ?_, fun _ => ⟨fun _ => ?_, fun _ => ?_⟩⟩, fun hsame => ?_⟩
    · rw [log_services]
      exact (hcontained.stop env _ _).services
    · refine wp_mono (startWorker_spec (d := d.regranted config)) ?_ ?_
      · rintro _ d' ⟨bundle, pid, fd, -, -, rfl⟩
        simp only [wp_modify, wp_bind, wp_get, wp_pure, log_services]
        rfl
      · rintro _ d' ⟨rfl, -⟩
        rfl
    · rw [log_services]
      rfl
    · exact absurd (not_not.mp hsame).symm hchanged
  · rintro _ store ⟨hunsaved, -⟩
    exact absurd ⟨hvalid, hsaved⟩ hunsaved

/-- A rotation leaves no service behind. -/
theorem rotation_services {time : Instant} (hrotate : d.rotate = some time)
    (htime : time ≤ env.now) : (d.rotation env).services = [] := by
  have hstart := @startWorker_spec env { d with rotate := none }.stopWorker
  unfold rotation
  rw [hrotate, if_pos (by simpa using htime)]
  cases hrun : startWorker env { d with rotate := none }.stopWorker with
  | ok _ d' =>
      obtain ⟨bundle, pid, fd, -, -, rfl⟩ := wp_of_ok hstart hrun
      rfl
  | error _ d' =>
      obtain ⟨rfl, -⟩ := wp_of_error hstart hrun
      have hempty : { d with rotate := none }.stopWorker.Contained :=
        .of_empty rfl rfl rfl
      exact (hempty.stop env "error" _).services

theorem Contained.regranted (config : Config) : (d.regranted config).Contained :=
  .of_empty rfl rfl rfl

theorem Policy.regranted (config : Config) : (d.regranted config).Policy := by
  apply Policy.of_stopped _ rfl
  intro hroot
  cases hroot

end Daemon

namespace MainLoop

open Daemon

variable {codec : KeyCodec} {l : MainLoop}

theorem Reachable.contained (h : Reachable codec l) : l.daemon.Contained := by
  apply h.invariant_of_effects
  · intro store test now
    exact .of_empty rfl rfl rfl
  · intro part env d d' hinv heffect
    exact hinv.step heffect
  · intro d config _
    exact .regranted config

/-- Whatever happened before, `stop` leaves nothing but the store, and nothing
runs without a worker. -/
theorem stop_clears (h : Reachable codec l) :
    (∀ env state reason, Stopped l.daemon (l.daemon.stop env state reason)) ∧
      (l.daemon.worker = none → l.daemon.services = [] ∧
        l.daemon.transports = ∅ ∧ l.daemon.window = none) := by
  have hcontained := h.contained
  constructor
  · intro env state reason
    exact hcontained.stop env state reason
  · intro hnone
    exact ⟨hcontained.services hnone, hcontained.transports hnone,
      hcontained.window hnone⟩

theorem stop_clears_serving :
    let d := (afterSections (secs 100) servingSections).daemon
    d.worker.isSome ∧ d.services ≠ [] ∧
      Stopped d (d.stop (cooperative (secs 200)) "paused_native" "adbd is running") := by
  intro d
  have hclears := stop_clears (afterSections_reachable (secs 100) servingSections)
  exact ⟨by decide +kernel, by decide +kernel, hclears.1 _ _ _⟩

/-- The permission policy holds in every reachable state, and neither a change
of the settings nor a rotation leaves a service behind. -/
theorem permission_policy (h : Reachable codec l) :
    l.daemon.Policy ∧
      (∀ env config, l.daemon.quit = false → config.validate = .ok () →
        env.saved = .ok () → config ≠ l.daemon.store.config →
        (l.step codec env (.control (.configure config))).daemon.services = []) ∧
      ∀ env time, l.daemon.quit = false → l.daemon.rotate = some time →
        time ≤ env.now → (l.step codec env .rotation).daemon.services = [] := by
  have hinv : l.daemon.Contained ∧ l.daemon.Policy := by
    refine @Reachable.invariant_of_effects _ (fun d => d.Contained ∧ d.Policy)
      ?_ ?_ ?_ l h
    · intro store test now
      refine ⟨.of_empty rfl rfl rfl, .of_stopped ?_ rfl⟩
      intro hroot
      cases hroot
    · rintro part env d d' ⟨hcontained, hpolicy⟩ heffect
      exact ⟨hcontained.step heffect, hpolicy.step hcontained heffect⟩
    · intro d config _
      exact ⟨.regranted config, .regranted config⟩
  refine ⟨hinv.2, ?_, ?_⟩
  · intro env config hquit hvalid hsaved hchanged
    unfold step
    rw [if_neg (by simp [hquit])]
    exact hinv.1.configure hvalid hsaved hchanged
  · intro env time hquit hrotate htime
    unfold step
    rw [if_neg (by simp [hquit])]
    exact rotation_services hrotate htime

/-- A host that is connected turns on root and starts a service. -/
theorem permission_policy_root :
    let l := afterSections (secs 100) (servingSections ++
      [.worker (.message (.request 2 (.root 7 true)) []),
        .worker (.message (.request 3 (.spawn 7 "sync:")) [])])
    l.daemon.root = true ∧ l.daemon.Policy ∧
      (l.step constantCodec (cooperative (secs 200)) .rotation).daemon.services = [] := by
  intro l
  have hpolicy := permission_policy (afterSections_reachable (secs 100) (servingSections ++
    [.worker (.message (.request 2 (.root 7 true)) []),
      .worker (.message (.request 3 (.spawn 7 "sync:")) [])]))
  refine ⟨by decide +kernel, hpolicy.1, ?_⟩
  exact hpolicy.2.2 (cooperative (secs 200)) (secs 100 + millis 500) (by decide +kernel)
    (by decide +kernel) (by decide +kernel)

end MainLoop

end Altdb
