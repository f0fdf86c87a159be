import Altdb.DaemonEffects

/-!
# The pairing window

A pairing window is known by its epoch.  A pairing result of the worker names
an epoch, and the supervisor acts on it only while the window of that epoch is
open, has not expired and has counted fewer than ten failures.  An epoch is
retired once no result of it can be admitted any more; every way to close a
window retires its epoch, and a retired epoch stays retired, because a later
window has a later epoch.
-/

namespace Altdb

open Fallible Relation

namespace Daemon

variable {part : Section} {env : Env} {d d' : Daemon}

/-- No window of a later epoch than the last one is open, and none without a
worker. -/
structure WindowInvariant (d : Daemon) : Prop where
  epoch_le : ∀ window, d.window = some window → window.epoch ≤ d.epoch
  served : d.window.isSome → d.worker.isSome

/-- No result of the epoch is admitted at the time or later. -/
def Retired (epoch : ℕ) (time : Instant) (d : Daemon) : Prop :=
  epoch ≤ d.epoch ∧ ∀ window, d.window = some window → window.epoch = epoch →
    window.expires ≤ time ∨ maxPairFailures ≤ window.failures

/-! ## What effects do to the window -/

/-- A stop closes the window together with the worker. -/
theorem stop_window (state reason : String) :
    (d.stop env state reason).epoch = d.epoch ∧
      (d.worker.isSome ∧ (d.stop env state reason).window = none ∧
          (d.stop env state reason).stops = d.stops + 1 ∨
        d.worker = none ∧ (d.stop env state reason).window = d.window ∧
          (d.stop env state reason).stops = d.stops) := by
  obtain ⟨logs, retryAt, failures, heq⟩ := @stop_eq env d state reason
  rw [heq]
  cases hworker : d.worker with
  | none => exact ⟨rfl, .inr ⟨rfl, rfl, rfl⟩⟩
  | some w => exact ⟨rfl, .inl ⟨rfl, rfl, rfl⟩⟩

theorem revoked_window (fp : String) :
    (d.revoked env fp).epoch = d.epoch ∧ (d.revoked env fp).window = d.window ∧
      (d.revoked env fp).stops = d.stops := by
  have hfold (ids : List ℕ) (d : Daemon) :
      (ids.foldl (fun d id => d.disconnect env id) d).epoch = d.epoch ∧
        (ids.foldl (fun d id => d.disconnect env id) d).window = d.window ∧
        (ids.foldl (fun d id => d.disconnect env id) d).stops = d.stops := by
    induction ids generalizing d with
    | nil => exact ⟨rfl, rfl, rfl⟩
    | cons id rest ih => exact ih (d.disconnect env id)
  exact hfold _ _

/-- The four things that an effect can do to the window. -/
inductive WindowChange (part : Section) (env : Env) (d d' : Daemon) : Prop
  | kept (hwindow : d'.window = d.window) (hepoch : d.epoch ≤ d'.epoch)
      (hstops : d'.stops = d.stops)
      (hworker : d.window.isSome → d.worker.isSome → d'.worker.isSome)
  | closed (hwindow : d'.window = none) (hepoch : d.epoch ≤ d'.epoch)
  | opened (window : Window) (hpart : part = .control .pairStart)
      (hwindow : d'.window = some window) (hepoch : d'.epoch = d.epoch + 1)
      (hnew : window.epoch = d'.epoch) (hfailures : window.failures = 0)
      (hworker : d'.worker.isSome)
  | counted (window : Window) (hepoch : d'.epoch = d.epoch)
      (hstops : d'.stops = d.stops) (hworker : d'.worker = d.worker)
      (hadmitted : d.Admitted env window.epoch window)
      (hrequest : Requests part (.pairResult window.epoch none))
      (hwindow : d'.window = some window.failed)

theorem WindowChange.of_stop {d₀ : Daemon} (state reason : String)
    (hwindow : d₀.window = d.window) (hepoch : d₀.epoch = d.epoch)
    (hstops : d₀.stops = d.stops) (hworker : d₀.worker = d.worker) :
    WindowChange part env d (d₀.stop env state reason) := by
  obtain ⟨hsame, ⟨-, hclosed, -⟩ | ⟨hnone, hkept, hnot⟩⟩ :=
    @stop_window env d₀ state reason
  · exact .closed hclosed (hsame.trans hepoch).ge
  · refine .kept (hkept.trans hwindow) (hsame.trans hepoch).ge
      (hnot.trans hstops) fun _ hsome => ?_
    rw [← hworker, hnone] at hsome
    cases hsome

theorem Effect.window (heffect : Effect part env d d') :
    WindowChange part env d d' := by
  cases heffect with
  | note | ready | configure | connect | disconnect | spawn | mark | reap
  | root => exact .kept rfl le_rfl rfl fun _ h => h
  | deliver | launch => exact .kept rfl le_rfl rfl fun _ _ => rfl
  | stop => exact .of_stop _ _ rfl rfl rfl rfl
  | reconfigure => exact .of_stop _ _ rfl rfl rfl rfl
  | rotate | regrant | regrantRestart | closeWindow | pair =>
      exact .closed rfl le_rfl
  | rotateFailed reason =>
      obtain ⟨hepoch, ⟨h, -⟩ | ⟨-, hwindow, -⟩⟩ :=
        @stop_window env { d with rotate := none }.stopWorker "error" reason
      · cases h
      · exact .closed hwindow hepoch.ge
  | revoke d' fp _ hdone =>
      obtain ⟨hepoch, hwindow, hstops⟩ := @revoked_window env d fp
      have hworker := @revoked_worker env d fp
      cases hdone with
      | idle | untold =>
          exact .kept hwindow hepoch.ge hstops fun _ h => hworker ▸ h
      | told => exact .kept hwindow hepoch.ge hstops fun _ _ => rfl
  | skipEpoch hwindow =>
      exact .kept rfl (Nat.le_succ _) rfl fun _ h => h
  | openWindow w window fds hpart _ _ _ _ hepoch _ hfailures =>
      exact .opened window hpart rfl rfl hepoch hfailures rfl
  | countFailure window hrequest hwindow htime hfailures =>
      exact .counted window rfl rfl rfl ⟨hwindow, rfl, htime, hfailures⟩ hrequest
        rfl

/-! ## Invariants of the window -/

theorem WindowInvariant.of_closed (hwindow : d.window = none) :
    d.WindowInvariant where
  epoch_le window hw := by simp [hwindow] at hw
  served hsome := by simp [hwindow] at hsome

theorem WindowInvariant.step (h : d.WindowInvariant)
    (heffect : Effect part env d d') : d'.WindowInvariant := by
  cases heffect.window with
  | kept hwindow hepoch hstops hworker =>
      refine ⟨fun window hw => ?_, fun hsome => ?_⟩
      · exact (h.epoch_le window (hwindow ▸ hw)).trans hepoch
      · rw [hwindow] at hsome
        exact hworker hsome (h.served hsome)
  | closed hwindow => exact .of_closed hwindow
  | opened window hpart hwindow hepoch hnew hfailures hworker =>
      refine ⟨fun other hw => ?_, fun _ => hworker⟩
      obtain rfl := Option.some_inj.mp (hwindow.symm.trans hw)
      exact hnew.le
  | counted window hepoch hstops hworker hadmitted hrequest hwindow =>
      refine ⟨fun other hw => ?_, fun _ => ?_⟩
      · obtain rfl := Option.some_inj.mp (hwindow.symm.trans hw)
        exact hepoch ▸ h.epoch_le window hadmitted.window_eq
      · rw [hworker]
        exact h.served (by rw [hadmitted.window_eq]; rfl)

theorem Retired.step {epoch : ℕ} (h : d.Retired epoch env.now)
    (heffect : Effect part env d d') : d'.Retired epoch env.now := by
  obtain ⟨hle, hdead⟩ := h
  cases heffect.window with
  | kept hwindow hepoch =>
      exact ⟨hle.trans hepoch, fun window hw => hdead window (hwindow ▸ hw)⟩
  | closed hwindow hepoch =>
      exact ⟨hle.trans hepoch, fun window hw => by simp [hwindow] at hw⟩
  | opened window hpart hwindow hepoch hnew =>
      refine ⟨by omega, fun other hw hother => ?_⟩
      obtain rfl := Option.some_inj.mp (hwindow.symm.trans hw)
      omega
  | counted window hepoch hstops hworker hadmitted hrequest hwindow =>
      refine ⟨hle.trans hepoch.ge, fun other hw hother => ?_⟩
      obtain rfl := Option.some_inj.mp (hwindow.symm.trans hw)
      -- A window of a retired epoch admits no failure either.
      rcases hdead window hadmitted.window_eq hother with hexpired | hfailed
      · exact absurd hadmitted.time hexpired.not_gt
      · exact absurd hadmitted.failures hfailed.not_gt

theorem Retired.mono {epoch : ℕ} {time time' : Instant}
    (h : d.Retired epoch time) (hle : time ≤ time') : d.Retired epoch time' :=
  ⟨h.1, fun window hw he => (h.2 window hw he).imp_left hle.trans'⟩

theorem Retired.of_closed {epoch : ℕ} {time : Instant} (hle : epoch ≤ d.epoch)
    (hwindow : d.window = none) : d.Retired epoch time :=
  ⟨hle, fun window hw => by simp [hwindow] at hw⟩

theorem Retired.not_admitted {epoch : ℕ} {window : Window}
    (h : d.Retired epoch env.now) : ¬d.Admitted env epoch window := by
  intro hadmitted
  rcases h.2 window hadmitted.window_eq hadmitted.epoch_eq with hexpired | hfailed
  · exact absurd hadmitted.time hexpired.not_gt
  · exact absurd hadmitted.failures hfailed.not_gt

/-- Once the worker was stopped in a section, the window stays closed. -/
theorem Effect.closed_of_stops {stops : ℕ} (hpart : part ≠ .control .pairStart)
    (h : d.stops ≠ stops → d.window = none) (heffect : Effect part env d d')
    (hstops : d'.stops ≠ stops) : d'.window = none := by
  cases heffect.window with
  | kept hwindow _ hsame => exact hwindow.trans (h (hsame ▸ hstops))
  | closed hwindow => exact hwindow
  | opened window hstart => exact absurd hstart hpart
  | counted window _ hsame _ hadmitted =>
      have := hadmitted.window_eq.symm.trans (h (hsame ▸ hstops))
      cases this

/-- Only the store and the window matter. -/
theorem PairResultDone.congr {epoch : ℕ} {key : Option String} {d₁ d₂ : Daemon}
    (h : d.PairResultDone env epoch key d₁) (hstore : d₂.store = d₁.store)
    (hwindow : d₂.window = d₁.window) :
    d.PairResultDone env epoch key d₂ := by
  cases h with
  | refused _ _ hstore₁ hwindow₁ hrefused =>
      exact .refused _ _ (hstore.trans hstore₁) (hwindow.trans hwindow₁) hrefused
  | committed _ value window hosts hadmitted hhosts hstore₁ hwindow₁ =>
      exact .committed _ value window hosts hadmitted hhosts
        (hstore.trans hstore₁) (hwindow.trans hwindow₁)
  | counted _ window hadmitted hstore₁ hwindow₁ =>
      exact .counted _ window hadmitted (hstore.trans hstore₁)
        (hwindow.trans hwindow₁)

theorem controlPairStart_stops :
    wp (controlPairStart env) (fun _ d' => d'.stops = d.stops)
      (fun _ d' => d'.stops = d.stops) d := by
  simp only [controlPairStart, wp_bind, wp_get, wp_ensure]
  refine ⟨fun _ => ⟨fun _ => ?_, fun _ => trivial⟩, fun _ => trivial⟩
  refine wp_mono pairStop_spec ?_ (fun _ _ h => h.elim)
  rintro _ d₁ ⟨-, -, -, hstops, -⟩
  simp only [wp_bind, wp_get]
  cases d₁.bundle with
  | none => exact hstops
  | some bundle =>
      simp only [wp_bind, wp_lift, wp_modify, wp_get]
      refine ⟨fun _ _ => ⟨fun _ _ => ?_, fun _ _ => hstops⟩, fun _ _ => hstops⟩
      refine wp_mono (send_spec _ _) ?_ ?_
      · rintro _ d₂ ⟨w, -, -, rfl⟩
        exact hstops
      · rintro _ d₂ ⟨rfl, -⟩
        exact hstops

end Daemon

namespace MainLoop

open Daemon

variable {codec : KeyCodec} {env : Env} {part : Section} {l l' : MainLoop}

/-- The section that serves a pairing result of the worker. -/
def pairResult (id epoch : ℕ) (key : Option String) : Section :=
  .worker (.message (.request id (.pairResult epoch key)) [])

/-- Serving a pairing result writes the paired hosts. -/
def Saves (codec : KeyCodec) (env : Env) (l : MainLoop) (id epoch : ℕ)
    (key : Option String) : Prop :=
  (l.step codec env (pairResult id epoch key)).daemon.store ≠ l.daemon.store

theorem Reachable.windowInvariant (h : Reachable codec l) :
    l.daemon.WindowInvariant := by
  refine h.invariant_of_effects ?_ (fun _ _ _ _ h heffect => h.step heffect) ?_
  · exact fun _ _ _ => .of_closed rfl
  · exact fun _ _ _ => .of_closed rfl

theorem step_of_quit (hquit : l.daemon.quit = true) :
    l.step codec env part = l := by
  simp [step, hquit]

theorem step_clock_of_running (hquit : l.daemon.quit = false) :
    (l.step codec env part).clock = env.now := by
  simp only [step, hquit, Bool.false_eq_true, if_false]
  cases part <;> try rfl
  simp only [checks]
  repeat' split
  all_goals rfl

/-- A retired epoch stays retired. -/
theorem step_retired {epoch : ℕ} (h : l.daemon.Retired epoch l.clock)
    (hstep : Step codec l l') : l'.daemon.Retired epoch l'.clock := by
  obtain ⟨env, part, htime, rfl⟩ := hstep
  cases hquit : l.daemon.quit with
  | true =>
      rw [step_of_quit hquit]
      exact h
  | false =>
      rw [step_clock_of_running hquit]
      exact (step_effects codec env part l).stable
        (fun _ _ h heffect => h.step heffect)
        (fun config h => .of_closed h.1 rfl) (h.mono htime)

/-! ## Serving a pairing result -/

theorem pairResult_step (hinv : l.daemon.WindowInvariant)
    (hquit : l.daemon.quit = false) (id epoch : ℕ) (key : Option String) :
    l.daemon.PairResultDone env epoch key
      (l.step codec env (pairResult id epoch key)).daemon := by
  have hreply (d d' : Daemon) (message : Message) (fds : List Fd)
      (h : d.PairResultDone env epoch key d') :
      d.PairResultDone env epoch key (final (send env message fds d')) := by
    refine wp_final (wp_mono (send_spec message fds) ?_ ?_)
    · rintro _ d₁ ⟨w, -, -, rfl⟩
      exact h.congr rfl rfl
    · rintro _ d₁ ⟨rfl, -⟩
      exact h
  simp only [step, hquit, Bool.false_eq_true, if_false, pairResult, receive]
  cases hworker : l.daemon.worker with
  | none =>
      refine .refused _ _ rfl rfl ?_
      rintro - ⟨window, hadmitted⟩
      have := hinv.served (by rw [hadmitted.window_eq]; rfl)
      simp [hworker] at this
  | some w =>
      simp only [Option.isNone_some, Bool.false_eq_true, if_false, serve]
      have hrequest : wp (request codec env (.pairResult epoch key))
          (fun _ => l.daemon.PairResultDone env epoch key)
          (fun _ => l.daemon.PairResultDone env epoch key) l.daemon := by
        simp only [request, wp_bind]
        exact requestPairResult_spec codec epoch key
      unfold wp at hrequest
      split <;> next hrun =>
        rw [hrun] at hrequest
        exact hreply _ _ _ _ hrequest

theorem Saves.done {id epoch : ℕ} {key : Option String}
    (hinv : l.daemon.WindowInvariant) (h : Saves codec env l id epoch key) :
    (∃ value window, key = some value ∧ l.daemon.Admitted env epoch window) ∧
      (l.step codec env (pairResult id epoch key)).daemon.window = none := by
  cases hquit : l.daemon.quit with
  | true =>
      unfold Saves at h
      rw [step_of_quit hquit] at h
      exact absurd rfl h
  | false =>
      cases @pairResult_step codec env l hinv hquit id epoch key with
      | refused _ _ hstore => exact absurd hstore h
      | committed _ value window _ hadmitted _ _ hwindow =>
          exact ⟨⟨value, window, rfl, hadmitted⟩, hwindow⟩
      | counted _ _ _ hstore => exact absurd hstore h

/-- A failing result that is admitted counts one failure in its window, and the
tenth failure closes the window. -/
theorem pairResult_counted {window : Window} (hinv : l.daemon.WindowInvariant)
    (hquit : l.daemon.quit = false) (id epoch : ℕ)
    (hadmitted : l.daemon.Admitted env epoch window) :
    (l.step codec env (pairResult id epoch none)).daemon.window =
      if maxPairFailures ≤ window.failures + 1 then none
      else some window.failed := by
  have hdone := @pairResult_step codec env l hinv hquit id epoch none
  cases hdone with
  | refused _ _ _ _ hrefused =>
      exact absurd ⟨window, hadmitted⟩ (hrefused rfl)
  | counted _ other hother _ hwindow =>
      have hsame : some other = some window :=
        hother.window_eq.symm.trans hadmitted.window_eq
      rw [hwindow, Option.some_inj.mp hsame]

/-- A retired epoch saves no host. -/
theorem not_saves_of_retired {id epoch : ℕ} {key : Option String}
    (hinv : l.daemon.WindowInvariant) (h : l.daemon.Retired epoch env.now) :
    ¬Saves codec env l id epoch key := by
  intro hsaves
  obtain ⟨⟨_, window, -, hadmitted⟩, -⟩ := hsaves.done hinv
  exact h.not_admitted hadmitted

/-! ## The ways in which a window ends -/

/-- The window that is open in the first state ends on the way to the
second. -/
inductive WindowEnd (codec : KeyCodec) (l : MainLoop) (window : Window) :
    MainLoop → Prop
  | tenthFailure (env : Env) (id : ℕ) (htime : l.clock ≤ env.now)
      (hadmitted : l.daemon.Admitted env window.epoch window)
      (hlast : window.failures + 1 = maxPairFailures)
      (hquit : l.daemon.quit = false) :
      WindowEnd codec l window
        (l.step codec env (pairResult id window.epoch none))
  | expired (hexpired : window.expires ≤ l.clock) : WindowEnd codec l window l
  | pairStop (env : Env) (htime : l.clock ≤ env.now)
      (hquit : l.daemon.quit = false) :
      WindowEnd codec l window (l.step codec env (.control .pairStop))
  | committed (env : Env) (id : ℕ) (key : Option String)
      (htime : l.clock ≤ env.now)
      (hsaves : Saves codec env l id window.epoch key) :
      WindowEnd codec l window
        (l.step codec env (pairResult id window.epoch key))
  | workerStopped (env : Env) (part : Section) (htime : l.clock ≤ env.now)
      (hstops : (l.step codec env part).daemon.stops ≠ l.daemon.stops) :
      WindowEnd codec l window (l.step codec env part)

theorem step_epoch_le (codec : KeyCodec) (env : Env) (part : Section)
    (l : MainLoop) : l.daemon.epoch ≤ (l.step codec env part).daemon.epoch := by
  refine @Outcome.stable _ _ _ _ (fun d => l.daemon.epoch ≤ d.epoch)
    (step_effects codec env part l) ?_ (fun _ h => h) le_rfl
  intro d d' h heffect
  cases heffect.window <;> omega

theorem step_stops (hstops : (l.step codec env part).daemon.stops ≠
      l.daemon.stops) : (l.step codec env part).daemon.window = none := by
  by_cases hpart : part = .control .pairStart
  · -- Opening a window stops no worker.
    subst hpart
    refine absurd ?_ hstops
    unfold step
    split
    · rfl
    · refine @wp_final _ _ _ _ _ (fun d : Daemon => d.stops = l.daemon.stops) ?_
      simp only [Daemon.control, wp_bind]
      exact controlPairStart_stops
  · refine @Outcome.stable _ _ _ _
      (fun d => d.stops ≠ l.daemon.stops → d.window = none)
      (step_effects codec env part l) ?_ (fun _ _ _ => rfl) (fun h => absurd rfl h) hstops
    exact fun d d' h heffect => heffect.closed_of_stops hpart h

theorem WindowEnd.retired {window : Window} (hinv : l.daemon.WindowInvariant)
    (hwindow : l.daemon.window = some window)
    (h : WindowEnd codec l window l') :
    l'.daemon.Retired window.epoch l'.clock := by
  have hepoch := hinv.epoch_le window hwindow
  have hclosed (env : Env) (part : Section)
      (hnone : (l.step codec env part).daemon.window = none) :
      (l.step codec env part).daemon.Retired window.epoch
        (l.step codec env part).clock :=
    .of_closed (hepoch.trans (step_epoch_le codec env part l)) hnone
  cases h with
  | tenthFailure env id _ hadmitted hlast hquit =>
      refine hclosed _ _ ?_
      cases @pairResult_step codec env l hinv hquit id window.epoch none with
      | refused _ _ _ _ hrefused => exact absurd ⟨_, hadmitted⟩ (hrefused rfl)
      | counted _ other hother _ hleft =>
          obtain rfl := Option.some_inj.mp
            (hadmitted.window_eq.symm.trans hother.window_eq)
          rw [hleft, if_pos hlast.ge]
  | expired hexpired =>
      refine ⟨hepoch, fun other hother _ => .inl ?_⟩
      obtain rfl := Option.some_inj.mp (hwindow.symm.trans hother)
      exact hexpired
  | pairStop env _ hquit =>
      refine hclosed _ _ ?_
      simp only [step, hquit, Bool.false_eq_true, if_false]
      refine @wp_final _ _ _ _ _ (fun d : Daemon => d.window = none) ?_
      simp only [Daemon.control, wp_bind]
      refine wp_mono pairStop_spec ?_ (fun _ _ h => h.elim)
      rintro _ d' ⟨-, hnone, -⟩
      exact (log_window _).trans hnone
  | committed env id key _ hsaves =>
      exact hclosed _ _ (hsaves.done hinv).2
  | workerStopped env part _ hstops =>
      exact hclosed _ _ (step_stops hstops)

/-! ## The guarantee of the pairing window -/

/-- After a section the window is the one before it, a new one without
failures, or one whose own failing result was served. -/
theorem step_window (codec : KeyCodec) (env : Env) (part : Section)
    (l : MainLoop) (window : Window)
    (hwindow : (l.step codec env part).daemon.window = some window) :
    l.daemon.window = some window ∨
      l.daemon.epoch < window.epoch ∧ window.failures = 0 ∨
      Requests part (.pairResult window.epoch none) := by
  refine (@Outcome.stable _ _ _ _
    (fun d => l.daemon.epoch ≤ d.epoch ∧ ∀ window,
      d.window = some window → l.daemon.window = some window ∨
        l.daemon.epoch < window.epoch ∧ window.failures = 0 ∨
        Requests part (.pairResult window.epoch none))
    (step_effects codec env part l) ?_ ?_ ?_).2 window hwindow
  · rintro d d' ⟨hle, h⟩ heffect
    cases heffect.window with
    | kept hkept hepoch =>
        exact ⟨hle.trans hepoch, fun window hw => h window (hkept ▸ hw)⟩
    | closed hclosed hepoch =>
        exact ⟨hle.trans hepoch, fun window hw => by simp [hclosed] at hw⟩
    | opened new hpart hopened hepoch hnew hfailures =>
        refine ⟨by omega, fun window hw => .inr (.inl ?_)⟩
        obtain rfl := Option.some_inj.mp (hopened.symm.trans hw)
        exact ⟨by omega, hfailures⟩
    | counted old hepoch _ _ _ hrequest hcounted =>
        refine ⟨hle.trans hepoch.ge, fun window hw => .inr (.inr ?_)⟩
        obtain rfl := Option.some_inj.mp (hcounted.symm.trans hw)
        exact hrequest
  · exact fun config h => ⟨h.1, fun window hw => by cases hw⟩
  · exact ⟨le_rfl, fun window hw => .inl hw⟩

/-- No result of an epoch saves a host after its window has ended. -/
theorem WindowEnd.not_saves {window : Window} {l₁ l₂ : MainLoop}
    (h : Reachable codec l) (hwindow : l.daemon.window = some window)
    (hend : WindowEnd codec l window l₁)
    (hrun : ReflTransGen (Step codec) l₁ l₂) (htime : l₂.clock ≤ env.now)
    (id : ℕ) (key : Option String) :
    ¬Saves codec env l₂ id window.epoch key := by
  have hreach : Reachable codec l₂ := by
    refine Transition.Reachable.run ?_ hrun
    cases hend with
    | expired => exact h
    | tenthFailure env id hnow => exact h.next ⟨env, _, hnow, rfl⟩
    | pairStop env hnow => exact h.next ⟨env, _, hnow, rfl⟩
    | committed env id key hnow => exact h.next ⟨env, _, hnow, rfl⟩
    | workerStopped env part hnow => exact h.next ⟨env, _, hnow, rfl⟩
  have hretired : l₂.daemon.Retired window.epoch l₂.clock :=
    @Transition.stable _ _
      (fun l : MainLoop => l.daemon.Retired window.epoch l.clock)
      (fun _ _ h hstep => step_retired h hstep) _ _
      (hend.retired h.windowInvariant hwindow) hrun
  exact not_saves_of_retired hreach.windowInvariant (hretired.mono htime)

/-- In every reachable state a pairing result saves a host only for the open
window of its epoch, before the window expires and before its tenth failure;
a failure is counted only against the window of its own epoch, and an admitted
failing result does count there; an epoch commits at most one pairing; and once
a window has ended, no later result of its epoch saves a host. -/
theorem pairing_window (h : Reachable codec l) :
    (∀ env id epoch key, Saves codec env l id epoch key →
      ∃ value window, key = some value ∧
        l.daemon.Admitted env epoch window) ∧
    (∀ env part window,
      (l.step codec env part).daemon.window = some window →
        l.daemon.window = some window ∨
        l.daemon.epoch < window.epoch ∧ window.failures = 0 ∨
        Requests part (.pairResult window.epoch none)) ∧
    (∀ env id epoch window, l.daemon.quit = false →
      l.daemon.Admitted env epoch window →
      (l.step codec env (pairResult id epoch none)).daemon.window =
        if maxPairFailures ≤ window.failures + 1 then none
        else some window.failed) ∧
    (∀ env id epoch key, l.clock ≤ env.now → Saves codec env l id epoch key →
      ∀ l', ReflTransGen (Step codec)
        (l.step codec env (pairResult id epoch key)) l' →
      ∀ env' id' key', l'.clock ≤ env'.now →
        ¬Saves codec env' l' id' epoch key') ∧
    ∀ window l₁ l₂, l.daemon.window = some window →
      WindowEnd codec l window l₁ → ReflTransGen (Step codec) l₁ l₂ →
      ∀ env id key, l₂.clock ≤ env.now →
        ¬Saves codec env l₂ id window.epoch key := by
  have hinv := h.windowInvariant
  refine ⟨fun env id epoch key hsaves => (hsaves.done hinv).1,
    fun env part window hw => step_window codec env part l window hw,
    fun env id epoch window hquit hadmitted =>
      pairResult_counted hinv hquit id epoch hadmitted, ?_,
    fun window l₁ l₂ hwindow hend hrun env id key htime =>
      hend.not_saves h hwindow hrun htime id key⟩
  intro env id epoch key hnow hsaves l' hrun env' id' key' htime
  obtain ⟨⟨value, window, -, hadmitted⟩, -⟩ := hsaves.done hinv
  obtain rfl := hadmitted.epoch_eq
  exact (WindowEnd.committed env id key hnow hsaves).not_saves h
    hadmitted.window_eq hrun htime id' key'

/-- The worker starts and a window is opened. -/
def windowLoop : MainLoop :=
  afterSections (secs 100)
    [.checks, .worker (.message .ready []), .control .pairStart]

theorem pairing_window_committed_once :
    Saves constantCodec (cooperative (secs 101)) windowLoop 0 1 (some "key") ∧
      ¬Saves constantCodec (cooperative (secs 102))
        (windowLoop.step constantCodec (cooperative (secs 101))
          (pairResult 0 1 (some "key"))) 1 1 (some "key") := by
  have hsaves : Saves constantCodec (cooperative (secs 101)) windowLoop 0 1
      (some "key") := by
    unfold Saves
    decide +kernel
  have hreach : Reachable constantCodec windowLoop := afterSections_reachable _ _
  exact ⟨hsaves, (pairing_window hreach).2.2.2.1 _ 0 1 _ (by decide +kernel) hsaves
    _ .refl _ 1 _ (by decide +kernel)⟩

end MainLoop

end Altdb
