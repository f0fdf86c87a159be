import Altdb.DaemonEffects

/-!
# The worker and the listeners

The supervisor holds a bundle of listening sockets exactly while it has a
worker for them, and it reports `running` only with a worker.  A rotation and a
network start restore this when the worker cannot be started: they stop.  A
change of the permission settings does not, and the network check, which
restarts only when the interfaces changed, never starts a worker afterwards.
The invariant holds in the runs in which no such change fails, and every
failing change breaks it.
-/

namespace Altdb

open Fallible Relation

namespace Daemon

/-- Listeners and worker come and go together. -/
structure Supervised (d : Daemon) : Prop where
  bundle_iff : d.bundle.isSome ↔ d.worker.isSome
  running : d.state = "running" → d.worker.isSome

variable {part : Section} {env : Env} {d d' : Daemon}

/-- Only the bundle, the worker and the state matter. -/
theorem Supervised.congr (h : d.Supervised) (hbundle : d'.bundle = d.bundle)
    (hworker : d'.worker = d.worker) (hstate : d'.state = d.state) :
    d'.Supervised where
  bundle_iff := by rw [hbundle, hworker]; exact h.bundle_iff
  running := by rw [hstate, hworker]; exact h.running

/-- A supervisor without worker and listeners. -/
theorem Supervised.of_none (hbundle : d.bundle = none) (hworker : d.worker = none)
    (hstate : d.state ≠ "running") : d.Supervised where
  bundle_iff := by simp [hbundle, hworker]
  running h := absurd h hstate

/-- A supervisor with worker and listeners. -/
theorem Supervised.of_some (hbundle : d.bundle.isSome) (hworker : d.worker.isSome) :
    d.Supervised where
  bundle_iff := by simp [hbundle, hworker]
  running _ := hworker

theorem Supervised.stop (d : Daemon) (env : Env) {state : String}
    (reason : String) (hstate : state ≠ "running") :
    (d.stop env state reason).Supervised := by
  have hworker := @stop_worker env d state reason
  obtain ⟨logs, retryAt, failures, heq⟩ := @stop_eq env d state reason
  refine .of_none ?_ hworker ?_
  · rw [heq]
  · rw [heq]
    exact hstate

/-- A worker is sent a message but not replaced. -/
theorem Supervised.deliver (h : d.Supervised) {w : Worker}
    (hworker : d.worker = some w) (message : Message) (fds : List Fd) :
    (d.delivered w message fds).Supervised where
  bundle_iff := by
    rw [show (d.delivered w message fds).bundle = d.bundle from rfl,
      h.bundle_iff, hworker]
    rfl
  running _ := rfl

theorem revoked_bundle_state (fp : String) :
    (d.revoked env fp).bundle = d.bundle ∧
      (d.revoked env fp).state = d.state := by
  have hfold (ids : List ℕ) (d : Daemon) :
      (ids.foldl (fun d id => d.disconnect env id) d).bundle = d.bundle ∧
        (ids.foldl (fun d id => d.disconnect env id) d).state = d.state := by
    induction ids generalizing d with
    | nil => exact ⟨rfl, rfl⟩
    | cons id rest ih => exact ih (d.disconnect env id)
  exact hfold _ _

theorem Supervised.revoked (h : d.Supervised) (fp : String) :
    (d.revoked env fp).Supervised :=
  h.congr (revoked_bundle_state fp).1 (revoked_worker fp)
    (revoked_bundle_state fp).2

theorem Supervised.step (h : d.Supervised) (heffect : Effect part env d d') :
    d'.Supervised := by
  cases heffect with
  | note | configure | connect | disconnect | spawn | mark | reap | root
  | closeWindow | skipEpoch | countFailure | pair =>
      exact h.congr rfl rfl rfl
  | deliver w message fds hworker => exact h.deliver hworker message fds
  | ready hworker =>
      exact .of_some (h.bundle_iff.mpr hworker) hworker
  | stop state reason hstate => exact .stop d env reason hstate
  | launch => exact .of_some rfl rfl
  | rotate bundle pid fd hbundle =>
      exact .of_some (by simp [withWorker, stopWorker, hbundle]) rfl
  | rotateFailed reason => exact .stop _ env reason (by decide)
  | reconfigure config state reason _ _ hstate => exact .stop _ env reason hstate
  | regrant config _ hbundle =>
      refine .of_none hbundle rfl fun hrunning => ?_
      have := h.bundle_iff.mpr (h.running hrunning)
      simp [hbundle] at this
  | regrantRestart config bundle pid fd _ hbundle =>
      exact .of_some (by simp [withWorker, regranted, stopWorker, hbundle]) rfl
  | revoke d' fp _ hdone =>
      cases hdone with
      | idle | untold => exact h.revoked fp
      | told w hworker =>
          exact (h.revoked fp).deliver ((revoked_worker fp).trans hworker) _ _
  | openWindow w window fds _ hworker =>
      have hopened : { d with
          epoch := d.epoch + 1
          window := some window }.Supervised := h.congr rfl rfl rfl
      exact hopened.deliver hworker _ _

/-- New permission settings leave the listeners without a worker. -/
theorem RegrantFails.stranded {config : Config} {bundle : Bundle}
    (h : RegrantFails part env d config bundle) :
    ¬(d.regranted config).Supervised := fun hs => by
  have := hs.bundle_iff.mp (by simp [regranted, stopWorker, h.bundle_eq])
  simp [regranted, stopWorker] at this

theorem RegrantFails.final_eq {config : Config} {bundle : Bundle}
    (h : RegrantFails part env d config bundle) :
    final (control env (.configure config) d) = d.regranted config := by
  refine @wp_final _ _ _ _ _ (fun d' => d' = d.regranted config) ?_
  simp only [control, controlConfigure, wp_bind, wp_get, wp_onStore]
  refine wp_mono (Store.configure_spec config) ?_ ?_
  · rintro _ store ⟨-, -, rfl⟩
    simp only [wp_ite, wp_bind, wp_modify, wp_get]
    refine ⟨fun _ => ⟨fun hchanged => absurd hchanged h.endpoint,
      fun _ => ⟨fun _ => ?_, fun hbundle => ?_⟩⟩, fun hsame => ?_⟩
    · refine wp_mono (startWorker_spec (d := d.regranted config)) ?_ ?_
      · rintro _ d' ⟨b, pid, fd, hb, hstarts, -⟩
        have hbundle : b = bundle :=
          Option.some_inj.mp (hb.symm.trans h.bundle_eq)
        exact absurd (hbundle ▸ hstarts) h.fails
      · rintro _ d' ⟨rfl, -⟩
        rfl
    · simp [stopWorker, h.bundle_eq] at hbundle
    · exact absurd (not_not.mp hsame) h.changed
  · rintro _ store ⟨hunsaved, -⟩
    exact absurd ⟨h.valid, h.saved⟩ hunsaved

end Daemon

namespace MainLoop

open Daemon

/-- New permission settings are saved in the step, but the worker cannot be
started again. -/
def RegrantFailure (env : Env) (part : Section) (l : MainLoop) : Prop :=
  ∃ config bundle, RegrantFails part env l.daemon config bundle

/-- A step in which no regrant fails. -/
def RegrantingStep (codec : KeyCodec) (l l' : MainLoop) : Prop :=
  ∃ env part, ¬RegrantFailure env part l ∧ l.clock ≤ env.now ∧
    l' = l.step codec env part

theorem initial_supervised (store : Store) (test : Bool) (now : Instant) :
    (initial store test now).daemon.Supervised :=
  .of_none rfl rfl (by simp [initial])

/-- A step keeps listeners and worker together exactly when no regrant
fails. -/
theorem step_supervised_iff {codec : KeyCodec} {env : Env} {part : Section}
    {l : MainLoop} (h : l.daemon.Supervised) (hquit : l.daemon.quit = false) :
    (l.step codec env part).daemon.Supervised ↔ ¬RegrantFailure env part l := by
  constructor
  · rintro hnext ⟨config, bundle, hfails⟩
    obtain rfl := hfails.section_eq
    simp only [step, hquit, Bool.false_eq_true, if_false] at hnext
    exact hfails.stranded (hfails.final_eq ▸ hnext)
  · intro hregrant
    rcases step_effects codec env part l with heffects | ⟨config, bundle, hf, -⟩
    · exact Transition.stable (fun _ _ h he => h.step he) h heffects
    · exact absurd ⟨config, bundle, hf⟩ hregrant

/-- In the runs in which no regrant fails, listeners and worker come and go
together; the first failing regrant ends this. -/
theorem supervised_unless_regrant_fails {codec : KeyCodec} {l : MainLoop}
    (h : Transition.Reachable Initial (RegrantingStep codec) l) :
    l.daemon.Supervised ∧ ∀ env part, l.daemon.quit = false →
      ((l.step codec env part).daemon.Supervised ↔
        ¬RegrantFailure env part l) := by
  have hinv : l.daemon.Supervised := by
    refine @Transition.Reachable.invariant _ _ _ (fun l => l.daemon.Supervised)
      ?_ ?_ l h
    · rintro l ⟨store, test, now, rfl⟩
      exact initial_supervised store test now
    · rintro l l' - hinv ⟨env, part, hregrant, -, rfl⟩
      rcases step_effects codec env part l with heffects | ⟨config, bundle, hf, -⟩
      · exact Transition.stable (fun _ _ h he => h.step he) hinv heffects
      · exact absurd ⟨config, bundle, hf⟩ hregrant
  exact ⟨hinv, fun env part hquit => step_supervised_iff hinv hquit⟩

theorem supervised_after_start :
    let l := (initial pairedStore true (secs 100)).step constantCodec
      (cooperative (secs 100)) .checks
    l.daemon.worker.isSome ∧ l.daemon.Supervised := by
  intro l
  have hstart : Transition.Reachable Initial (RegrantingStep constantCodec)
      (initial pairedStore true (secs 100)) :=
    .start ⟨_, _, _, rfl⟩
  have hchecks : ¬RegrantFailure (cooperative (secs 100)) .checks
      (initial pairedStore true (secs 100)) := by
    rintro ⟨config, bundle, h⟩
    cases h.section_eq
  have hreach := hstart.next ⟨_, _, hchecks, le_rfl, rfl⟩
  exact ⟨by decide +kernel, (supervised_unless_regrant_fails hreach).1⟩

/-- Permission settings that revoke `adb root`. -/
def rootlessConfig : Config := { pairedStore.config with allowAdbRoot := false }

/-- The supervisor after it saved `rootlessConfig` and could not start a new
worker process. -/
def strandedLoop : MainLoop :=
  (afterSections (secs 100) servingSections).step constantCodec
    { cooperative (secs 101) with spawned := .error "fork failed" }
    (.control (.configure rootlessConfig))

/-- The supervisor reports that it is running and holds its listeners, has no
worker, and a later network check starts none. -/
theorem regrant_failure_strands :
    Reachable constantCodec strandedLoop ∧ ¬strandedLoop.daemon.Supervised ∧
      strandedLoop.daemon.state = "running" ∧
      (strandedLoop.step constantCodec (cooperative (secs 200))
        .checks).daemon.worker = none := by
  have hreach : Reachable constantCodec strandedLoop :=
    (afterSections_reachable _ _).next ⟨_, _, by decide +kernel, rfl⟩
  refine ⟨hreach, fun h => ?_, by decide +kernel, by decide +kernel⟩
  have hworker := h.bundle_iff.mp (by decide +kernel)
  have hnone : strandedLoop.daemon.worker.isSome = false := by decide +kernel
  simp [hnone] at hworker

end MainLoop

end Altdb
