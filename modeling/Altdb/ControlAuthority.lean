import Altdb.ControlChannel
import Altdb.DaemonEffects

/-!
# Who controls the supervisor

Any process may connect to the control socket at any time and send any bytes.
`Changes` says how far a part of the loop may move what the owner of the device
decides: the settings, the list of hosts, the pairing window and the end of the
service.  Only a request that the socket has admitted moves it further.
-/

namespace Altdb

open Fallible JsonText

namespace Daemon

/-- From one state to a later one, the supervisor has taken the settings `config`, has
left its loop only if `quits`, has opened a pairing window only if `opens`, and has
forgotten only hosts in `gone`. -/
structure Changes (quits opens : Prop) (gone : String → Prop) (config : Config)
    (d d' : Daemon) : Prop where
  test : d'.test = d.test
  config : d'.store.config = config
  quit : d'.quit = true → d.quit = true ∨ quits
  kept : ∀ fp, d.store.trusts fp → d'.store.trusts fp ∨ gone fp
  paired : ∀ fp, d'.store.trusts fp → d.store.trusts fp ∨ d.window.isSome
  window : d'.window.isSome → d.window.isSome ∨ opens

/-- Nothing of it. -/
abbrev Retains (d : Daemon) : Daemon → Prop :=
  Changes False False (fun _ => False) d.store.config d

variable {quits opens : Prop} {gone : String → Prop} {config : Config} {env : Env}
  {d d' d'' : Daemon}

theorem Retains.refl (d : Daemon) : d.Retains d where
  test := rfl
  config := rfl
  quit := .inl
  kept _ := .inl
  paired _ := .inl
  window := .inl

theorem Changes.congr (h : Changes quits opens gone config d d')
    (htest : d''.test = d'.test) (hstore : d''.store = d'.store) (hquit : d''.quit = d'.quit)
    (hwindow : d''.window = none ∨ d''.window = d'.window) :
    Changes quits opens gone config d d'' where
  test := htest.trans h.test
  config := by rw [hstore, h.config]
  quit hd := h.quit (hquit ▸ hd)
  kept fp hfp := by
    rw [hstore]
    exact h.kept fp hfp
  paired fp hfp := by
    rw [hstore] at hfp
    exact h.paired fp hfp
  window hd := by
    rcases hwindow with hnone | hsame
    · rw [hnone] at hd
      cases hd
    · rw [hsame] at hd
      exact h.window hd

/-! ## Methods -/

theorem Changes.log (h : Changes quits opens gone config d d') (message : String) :
    Changes quits opens gone config d (d'.log env message) := by
  unfold Daemon.log
  exact h.congr rfl rfl rfl (.inr rfl)

theorem Changes.stop (h : Changes quits opens gone config d d') (state reason : String) :
    Changes quits opens gone config d (d'.stop env state reason) := by
  obtain ⟨logs, retryAt, failures, heq⟩ := @stop_eq env d' state reason
  rw [heq]
  cases d'.worker.isSome with
  | true => exact h.congr rfl rfl rfl (.inl rfl)
  | false => exact h.congr rfl rfl rfl (.inr rfl)

theorem log_changes (message : String) :
    Preserves (Changes quits opens gone config d)
      (modify (log env message) : EStateM String Daemon Unit) :=
  .modify fun _ h => h.log message

theorem send_changes (message : Message) (fds : List Fd) :
    Preserves (Changes quits opens gone config d) (send env message fds) := by
  intro d₁ h
  apply wp_mono (send_spec message fds)
  · rintro _ d₂ ⟨w, -, -, rfl⟩
    exact h.congr rfl rfl rfl (.inr rfl)
  · rintro _ d₂ ⟨rfl, -⟩
    exact h

theorem pairStop_changes : Preserves (Changes quits opens gone config d) (pairStop env) := by
  apply Preserves.bind
  · exact .modify fun _ h => h.congr rfl rfl rfl (.inl rfl)
  · intro _
    exact (send_changes _ _).attempt.bind fun _ => .pure _

theorem startWorker_changes : Preserves (Changes quits opens gone config d) (startWorker env) := by
  intro d₁ h
  apply wp_mono startWorker_spec
  · rintro _ d₂ ⟨bundle, pid, fd, -, -, rfl⟩
    exact h.congr rfl rfl rfl (.inr rfl)
  · rintro _ d₂ ⟨rfl, -⟩
    exact h

theorem start_changes (addresses : List Endpoint) :
    Preserves (Changes quits opens gone config d) (start env addresses) := by
  apply Preserves.get_bind
  intro d₁ _
  apply (Preserves.lift _).bind
  intro bound
  apply (Preserves.lift _).bind
  intro published
  apply Preserves.bind
  · exact .modify fun _ h => h.congr rfl rfl rfl (.inr rfl)
  · exact fun _ => startWorker_changes

theorem spawnService_changes (transport : ℕ) (name : String) (bind : Bool) :
    Preserves (Changes quits opens gone config d) (spawnService env transport name bind) := by
  intro d₁ h
  apply wp_mono (spawnService_spec transport name bind)
  · rintro _ d₂ ⟨s, -, rfl⟩
    exact h.congr rfl rfl rfl (.inr rfl)
  · rintro _ d₂ (rfl | ⟨s, -, -, rfl⟩)
    · exact h
    · exact h.congr rfl rfl rfl (.inr rfl)

/-! ## Requests of the worker -/

theorem requestAuthenticated_changes (transport : ℕ) (fp : String) :
    Preserves d.Retains (requestAuthenticated env transport fp) := by
  intro d₁ h
  apply wp_mono (requestAuthenticated_spec transport fp)
  · rintro _ d₂ ⟨-, -, -, logs, rfl⟩
    constructor
    · exact h.test
    · exact h.config
    · exact h.quit
    · intro other hother
      rw [Store.withHosts_markConnected_trusts]
      exact h.kept other hother
    · intro other hother
      rw [Store.withHosts_markConnected_trusts] at hother
      exact h.paired other hother
    · exact h.window
  · rintro _ d₂ rfl
    exact h

theorem requestRoot_changes (transport : ℕ) (enable : Bool) :
    Preserves (Changes quits opens gone config d) (requestRoot env transport enable) := by
  apply Preserves.get_bind
  intro d₁ _
  apply (Preserves.ensure _ _).bind
  intro _
  apply (Preserves.ensure _ _).bind
  intro _
  apply Preserves.ite (.pure _)
  apply Preserves.bind
  · exact .modify fun _ h => h.congr rfl rfl rfl (.inr rfl)
  · exact fun _ => .pure _

/-- A host is paired only through an open window. -/
theorem pair_changes (codec : KeyCodec) (now : ℕ) (key : String) {d₁ : Daemon}
    (hwindow : d₁.window.isSome) (h : d.Retains d₁) :
    wp (onStore (Store.pair codec env.saved now key)) (fun _ => d.Retains) (fun _ => d.Retains)
      d₁ := by
  rw [wp_onStore]
  have hopen : d.window.isSome := by
    rcases h.window hwindow with hopen | hfalse
    · exact hopen
    · exact hfalse.elim
  apply wp_mono (Store.pair_spec codec now key)
  · rintro _ store ⟨-, hosts, hhosts, rfl, -⟩
    constructor
    · exact h.test
    · exact h.config
    · exact h.quit
    · intro fp hfp
      rcases h.kept fp hfp with hkept | hfalse
      · exact .inl (hhosts.trusts hkept)
      · exact hfalse.elim
    · exact fun _ _ => .inr hopen
    · exact h.window
  · rintro _ store rfl
    exact h

theorem requestPairResult_changes (codec : KeyCodec) (epoch : ℕ) (key : Option String) :
    Preserves d.Retains (requestPairResult codec env epoch key) := by
  intro d₁ h
  rw [requestPairResult, wp_bind, wp_get]
  cases hwindow : d₁.window with
  | none => exact h
  | some w =>
      rw [wp_bind, wp_ensure]
      constructor
      · intro _
        cases key with
        | some key =>
            dsimp only
            rw [wp_bind]
            apply wp_mono (pair_changes codec env.unixTime key (by rw [hwindow]; rfl) h)
            · intro fp d₂ h₂
              have hrest : Preserves d.Retains (do
                  modify fun d => { d with window := none }
                  send env .pairCommitted []
                  send env (.hosts (← get).store.hosts) []
                  modify (log env "Host paired successfully")) := by
                apply Preserves.bind
                · exact .modify fun _ h => h.congr rfl rfl rfl (.inl rfl)
                · intro _
                  apply (send_changes _ _).bind
                  intro _
                  apply Preserves.get_bind
                  intro d₃ _
                  exact (send_changes _ _).bind fun _ => log_changes _
              exact hrest d₂ h₂
            · exact fun _ _ h₂ => h₂
        | none =>
            have hrest : Preserves d.Retains (do
                if maxPairFailures ≤ w.failures + 1 then pairStop env
                modify (log env "Pairing authentication failed")) := by
              apply Preserves.ite
              · exact pairStop_changes.bind fun _ => log_changes _
              · exact log_changes _
            dsimp only
            rw [wp_bind, wp_modify]
            apply hrest
            exact ⟨h.test, h.config, h.quit, h.kept, h.paired, fun _ =>
              h.window (by rw [hwindow]; rfl)⟩
      · intro _
        exact h

theorem request_changes (codec : KeyCodec) (r : Request) :
    Preserves d.Retains (request codec env r) := by
  cases r with
  | authenticated transport fp =>
      exact (requestAuthenticated_changes transport fp).bind fun _ => .pure _
  | disconnected transport =>
      apply Preserves.bind
      · exact .modify fun _ h => h.congr rfl rfl rfl (.inr rfl)
      · exact fun _ => .pure _
  | spawn transport name => exact spawnService_changes transport name false
  | closeService transport service =>
      apply Preserves.bind
      · exact .modify fun _ h => h.congr rfl rfl rfl (.inr rfl)
      · exact fun _ => .pure _
  | bindReverse transport spec => exact spawnService_changes transport spec true
  | closeReverse transport spec =>
      apply Preserves.bind
      · exact .modify fun _ h => h.congr rfl rfl rfl (.inr rfl)
      · exact fun _ => .pure _
  | root transport enable => exact (requestRoot_changes transport enable).bind fun _ => .pure _
  | pairResult epoch key => exact (requestPairResult_changes codec epoch key).bind fun _ => .pure _

/-! ## Parts of the loop -/

theorem windowExpiry_retains (d : Daemon) : d.Retains (d.windowExpiry env) := by
  unfold windowExpiry
  split
  · exact .refl d
  · split
    · exact (pairStop_changes.final (Retains.refl d)).log _
    · exact .refl d

theorem rotation_retains (d : Daemon) : d.Retains (d.rotation env) := by
  unfold rotation
  split
  · have hstopped : d.Retains { d with rotate := none }.stopWorker :=
      (Retains.refl d).congr rfl rfl rfl (.inl rfl)
    have hstart : wp (startWorker env) (fun _ => d.Retains) (fun _ => d.Retains)
        { d with rotate := none }.stopWorker := startWorker_changes _ hstopped
    unfold wp at hstart
    split
    · next hrun =>
      rw [hrun] at hstart
      exact hstart
    · next hrun =>
      rw [hrun] at hstart
      exact hstart.stop _ _
  · exact .refl d

theorem receive_retains (codec : KeyCodec) (arrival : Arrival) (d : Daemon) :
    d.Retains (d.receive codec env arrival) := by
  unfold receive
  split
  · exact .refl d
  · split
    · apply Changes.log
      exact (Retains.refl d).congr rfl rfl rfl (.inr rfl)
    · next id r =>
      have hrequest : wp (request codec env r) (fun _ => d.Retains) (fun _ => d.Retains) d :=
        request_changes codec r d (Retains.refl d)
      unfold serve
      unfold wp at hrequest
      split <;> next hrun =>
        rw [hrun] at hrequest
        exact (send_changes _ _).final hrequest
    all_goals exact (Retains.refl d).stop _ _

theorem reap_retains (d : Daemon) : d.Retains (d.reap env) :=
  (Retains.refl d).congr rfl rfl rfl (.inr rfl)

theorem networkCheck_retains (h : d.Retains d') : d.Retains (d'.networkCheck env) := by
  unfold networkCheck
  split
  · exact h.stop _ _
  · exact h.stop _ _
  · next addresses _ _ =>
    dsimp only
    split_ifs
    · have hstopped : d.Retains (d'.stop env "starting" "Network changed; starting service") :=
        h.stop _ _
      have hstart : wp (start env addresses) (fun _ => d.Retains) (fun _ => d.Retains)
          (d'.stop env "starting" "Network changed; starting service") :=
        start_changes addresses _ hstopped
      unfold wp at hstart
      split <;> rename_i hrun <;> rw [hrun] at hstart
      · exact hstart
      · exact hstart.stop _ _
    · exact h

end Daemon

namespace MainLoop

variable {codec : KeyCodec} {env : Env}

theorem checks_retains (l : MainLoop) : l.daemon.Retains (l.checks env).daemon := by
  have h := Daemon.Retains.refl l.daemon
  unfold checks
  split
  · dsimp only
    split
    · exact h.stop _ _
    · split
      · exact h.stop _ _
      · split
        · apply Daemon.Changes.log
          exact h.congr rfl rfl rfl (.inr rfl)
        · exact h
      · have hnote : l.daemon.Retains (if l.daemon.reason = settingsUnavailable then
            { l.daemon with reason := "" }.log env "Debugging settings are available again"
            else l.daemon) := by
          split
          · apply Daemon.Changes.log
            exact h.congr rfl rfl rfl (.inr rfl)
          · exact h
        revert hnote
        generalize (if l.daemon.reason = settingsUnavailable then _ else l.daemon) = d
        intro hnote
        split
        · exact Daemon.networkCheck_retains hnote
        · exact hnote
  · exact h

/-- A part of the loop that serves no control request decides nothing; a signal ends
the service. -/
theorem step_changes {part : Section} (hpart : ∀ request, part ≠ .control request) (l : MainLoop) :
    Daemon.Changes (part = .shutdown) False (fun _ => False) l.daemon.store.config l.daemon
      (l.step codec env part).daemon := by
  have hweaken : ∀ d' : Daemon, l.daemon.Retains d' →
      Daemon.Changes (part = .shutdown) False (fun _ => False) l.daemon.store.config l.daemon
        d' := by
    intro d' h
    exact ⟨h.test, h.config, fun hquit => .inl ((h.quit hquit).resolve_right id), h.kept,
      h.paired, h.window⟩
  unfold step
  split
  · exact hweaken _ (Daemon.Retains.refl _)
  · cases part with
    | control request => exact absurd rfl (hpart request)
    | windowExpiry => exact hweaken _ (Daemon.windowExpiry_retains _)
    | rotation => exact hweaken _ (Daemon.rotation_retains _)
    | worker arrival => exact hweaken _ (Daemon.receive_retains codec arrival _)
    | reap => exact hweaken _ (Daemon.reap_retains _)
    | checks => exact hweaken _ (checks_retains { l with clock := env.now })
    | shutdown =>
        apply Daemon.Changes.stop
        exact ⟨rfl, rfl, fun _ => .inr rfl, fun _ => .inl, fun _ => .inl, .inl⟩

end MainLoop

/-! ## Control requests -/

namespace Daemon

variable {env : Env} {d d' : Daemon}

/-- The settings after a request, which must be valid and saved. -/
def applied (env : Env) (request : Control) (config : Config) : Config :=
  match request with
  | .configure new => if new.validate.isOk ∧ env.saved.isOk then new else config
  | _ => config

/-- The host that a saved revocation forgets. -/
def AsksRevoke (env : Env) (request : Control) (fp : String) : Prop :=
  request = .revoke fp ∧ env.saved = .ok ()

/-- What a control request may decide. -/
abbrev Obeys (env : Env) (request : Control) (opens : Prop) (d : Daemon) : Daemon → Prop :=
  Changes (request = .stop) opens (AsksRevoke env request) (applied env request d.store.config) d

theorem Changes.obeys (h : d.Retains d') {request : Control} {opens : Prop}
    (hconfig : applied env request d.store.config = d.store.config) :
    d.Obeys env request opens d' where
  test := h.test
  config := h.config.trans hconfig.symm
  quit hquit := .inl ((h.quit hquit).resolve_right id)
  kept fp hfp := .inl ((h.kept fp hfp).resolve_right id)
  paired := h.paired
  window hwindow := .inl ((h.window hwindow).resolve_right id)

theorem controlPairStart_obeys :
    wp (controlPairStart env) (fun _ => d.Obeys env .pairStart True)
      (fun _ => d.Obeys env .pairStart False) d := by
  have hrefl : d.Obeys env .pairStart False d := (Retains.refl d).obeys rfl
  rw [controlPairStart, wp_bind, wp_get, wp_bind, wp_ensure]
  refine ⟨fun _ => ?_, fun _ => hrefl⟩
  rw [wp_bind, wp_ensure]
  refine ⟨fun _ => ?_, fun _ => hrefl⟩
  rw [wp_bind]
  apply wp_mono (pairStop_changes d (Retains.refl d))
  · intro _ d₁ h
    rw [wp_bind, wp_get]
    cases d₁.bundle with
    | none => exact h.obeys rfl
    | some bundle =>
        simp only [wp_bind, wp_lift, wp_modify, wp_get]
        refine ⟨fun bound _ => ⟨fun code _ => ?_, fun _ _ => h.obeys rfl⟩, fun _ _ => h.obeys rfl⟩
        have hepoch : d.Retains { d₁ with epoch := d₁.epoch + 1 } :=
          h.congr rfl rfl rfl (.inr rfl)
        apply wp_mono (send_changes _ _ _ hepoch)
        · intro _ d₂ h₂
          apply Changes.log
          have hobeys : d.Obeys env .pairStart True d₂ := h₂.obeys rfl
          exact ⟨hobeys.test, hobeys.config, hobeys.quit, hobeys.kept, hobeys.paired,
            fun _ => .inr trivial⟩
        · intro _ d₂ h₂
          exact h₂.obeys rfl
  · exact fun _ d₁ h => h.obeys rfl

theorem controlConfigure_obeys (config : Config) :
    wp (controlConfigure env config) (fun _ => d.Obeys env (.configure config) False)
      (fun _ => d.Obeys env (.configure config) False) d := by
  rw [controlConfigure, wp_bind, wp_get]
  dsimp only
  rw [wp_bind, wp_onStore]
  apply wp_mono (Store.configure_spec config)
  · rintro _ store ⟨hvalid, hsaved, rfl⟩
    have happlied : applied env (.configure config) d.store.config = config := by
      rw [applied, hvalid, hsaved]
      rfl
    have htaken : d.Obeys env (.configure config) False
        { d with store := d.store.withConfig config } :=
      ⟨rfl, happlied.symm, .inl, fun _ => .inl, fun _ => .inl, .inl⟩
    have hrest : Preserves (d.Obeys env (.configure config) False)
        (do
          let current := (← get).store.config
          if d.store.config ≠ current then
            if d.store.config.portMode ≠ current.portMode ∨
                d.store.config.fixedPort ≠ current.fixedPort ∨
                d.store.config.enabled ≠ current.enabled then
              modify (stop env "disabled" "Configuration updated; checking startup conditions")
            else
              modify stopWorker
              modify fun d => { d with root := false }
              if (← get).bundle.isSome then startWorker env
            modify (log env "Configuration saved")) := by
      apply Preserves.get_bind
      intro d₁ _
      apply Preserves.ite
      · apply Preserves.ite
        · apply Preserves.bind
          · exact .modify fun _ h => h.stop _ _
          · exact fun _ => log_changes _
        · apply Preserves.bind
          · exact .modify fun _ h => h.congr rfl rfl rfl (.inl rfl)
          · intro _
            apply Preserves.bind
            · exact .modify fun _ h => h.congr rfl rfl rfl (.inr rfl)
            · intro _
              apply Preserves.get_bind
              intro d₂ _
              apply Preserves.ite
              · exact startWorker_changes.bind fun _ => log_changes _
              · exact log_changes _
      · exact .pure _
    exact hrest _ htaken
  · rintro _ store ⟨hrefused, rfl⟩
    have happlied : applied env (.configure config) d.store.config = d.store.config := by
      apply if_neg
      intro hboth
      apply hrefused
      constructor
      · cases hvalid : config.validate with
        | ok _ => rfl
        | error e => simp [hvalid, Except.isOk, Except.toBool] at hboth
      · cases hsaved : env.saved with
        | ok _ => rfl
        | error e => simp [hsaved, Except.isOk, Except.toBool] at hboth
    exact (Retains.refl d).obeys happlied

theorem foldl_disconnect_changes {quits opens : Prop} {gone : String → Prop} {config : Config}
    (h : Changes quits opens gone config d d') (ids : List ℕ) :
    Changes quits opens gone config d (ids.foldl (fun d id => d.disconnect env id) d') := by
  induction ids generalizing d' with
  | nil => exact h
  | cons id rest ih => exact ih (h.congr rfl rfl rfl (.inr rfl))

theorem controlRevoke_obeys (fp : String) :
    wp (controlRevoke env fp) (fun _ => d.Obeys env (.revoke fp) False)
      (fun _ => d.Obeys env (.revoke fp) False) d := by
  rw [controlRevoke, wp_bind, wp_onStore]
  apply wp_mono (Store.revoke_spec fp)
  · rintro _ store ⟨hsaved, rfl⟩
    have htaken : d.Obeys env (.revoke fp) False
        { d with store := d.store.withHosts (d.store.without fp) } := by
      constructor
      · rfl
      · rfl
      · exact .inl
      · intro other hother
        rw [Store.withHosts_without_trusts]
        by_cases heq : other = fp
        · exact .inr ⟨by rw [heq], hsaved⟩
        · exact .inl ⟨hother, heq⟩
      · intro other hother
        rw [Store.withHosts_without_trusts] at hother
        exact .inl hother.1
      · exact .inl
    have hrest : Preserves (d.Obeys env (.revoke fp) False)
        (do
          let ids := (← get).transportsOf fp
          modify fun d => ids.foldl (fun d id => d.disconnect env id) d
          if (← get).worker.isSome then
            send env (.hosts (← get).store.hosts) []
          modify (log env "Host authorization revoked")) := by
      apply Preserves.get_bind
      intro d₁ _
      apply Preserves.bind
      · exact .modify fun _ h => foldl_disconnect_changes h _
      · intro _
        apply Preserves.get_bind
        intro d₂ _
        apply Preserves.ite
        · apply Preserves.get_bind
          intro d₃ _
          exact (send_changes _ _).bind fun _ => log_changes _
        · exact log_changes _
    exact hrest _ htaken
  · rintro _ store ⟨-, rfl⟩
    exact (Retains.refl d).obeys rfl

theorem control_obeys (request : Control) :
    wp (control env request) (fun _ => d.Obeys env request (request = .pairStart))
      (fun _ => d.Obeys env request False) d := by
  have hweaken : ∀ {opens : Prop} {d' : Daemon}, d.Obeys env request False d' →
      d.Obeys env request opens d' := by
    intro opens d' h
    exact ⟨h.test, h.config, h.quit, h.kept, h.paired, fun hd =>
      .inl ((h.window hd).resolve_right id)⟩
  cases request with
  | status => exact (Retains.refl d).obeys rfl
  | logs => exact (Retains.refl d).obeys rfl
  | pairStart =>
      rw [control, wp_bind]
      apply wp_mono controlPairStart_obeys
      · intro _ d₁ h
        exact ⟨h.test, h.config, h.quit, h.kept, h.paired, fun hd =>
          (h.window hd).imp id fun _ => rfl⟩
      · exact fun _ _ h => h
  | pairStop =>
      rw [control, wp_bind]
      apply wp_mono (pairStop_changes d (Retains.refl d))
      · intro _ d₁ h
        exact Changes.obeys (h.log _) rfl
      · exact fun _ _ h => h.obeys rfl
  | configure config =>
      rw [control, wp_bind]
      apply wp_mono (controlConfigure_obeys config)
      · exact fun _ _ h => hweaken h
      · exact fun _ _ h => h
  | revoke fp =>
      rw [control, wp_bind]
      apply wp_mono (controlRevoke_obeys fp)
      · exact fun _ _ h => hweaken h
      · exact fun _ _ h => h
  | stop =>
      rw [control, wp_bind, wp_modify, wp_bind, wp_modify]
      apply Changes.stop
      exact ⟨rfl, rfl, fun _ => .inr rfl, fun _ => .inl, fun _ => .inl, .inl⟩

/-- What the answer `ok` promises. -/
def Confirmed (env : Env) : Control → Prop
  | .configure config => config.validate = .ok () ∧ env.saved = .ok ()
  | .revoke _ => env.saved = .ok ()
  | _ => True

theorem control_confirms (request : Control) :
    wp (control env request) (fun _ _ => Confirmed env request) (fun _ _ => True) d := by
  have hany : ∀ {α : Type} (method : EStateM String Daemon α) (p : Prop) (d : Daemon), p →
      wp method (fun _ _ => p) (fun _ _ => True) d :=
    fun _ _ _ hp => wp_intro (fun _ _ _ => hp) fun _ _ _ => trivial
  cases request with
  | configure config =>
      rw [control, wp_bind, controlConfigure, wp_bind, wp_get]
      dsimp only
      rw [wp_bind, wp_onStore]
      apply wp_mono (Store.configure_spec config)
      · intro _ store hstore
        have hconfirmed : Confirmed env (.configure config) := ⟨hstore.1, hstore.2.1⟩
        apply wp_mono (hany _ _ _ hconfirmed)
        · exact fun _ _ h => h
        · exact fun _ _ h => h
      · exact fun _ _ _ => trivial
  | revoke fp =>
      rw [control, wp_bind, controlRevoke, wp_bind, wp_onStore]
      apply wp_mono (Store.revoke_spec fp)
      · intro _ store hstore
        have hconfirmed : Confirmed env (.revoke fp) := hstore.1
        apply wp_mono (hany _ _ _ hconfirmed)
        · exact fun _ _ h => h
        · exact fun _ _ h => h
      · exact fun _ _ _ => trivial
  | _ => exact hany _ _ _ trivial

end Daemon

/-! ## Connections -/

/-- A connection that has been served, with the result that it was answered. -/
structure ControlExchange where
  env : Env
  caller : Caller
  result : Except String ControlReply

/-- The supervisor at its socket.  `exchanges` and `signalled` are history variables: the
connections so far, and whether a signal has ended the loop. -/
structure Listening where
  loop : MainLoop
  exchanges : List ControlExchange
  signalled : Bool

namespace Listening

def start (store : Store) (test : Bool) (now : Instant) : Listening where
  loop := MainLoop.initial store test now
  exchanges := []
  signalled := false

inductive Step (formats : Formats) (codec : KeyCodec) : Listening → Listening → Prop
  | accept (s : Listening) (env : Env) (caller : Caller) (htime : s.loop.clock ≤ env.now)
      (hquit : s.loop.daemon.quit = false) :
      Step formats codec s { s with
        loop := (s.loop.served formats codec env caller).2
        exchanges := s.exchanges ++
          [⟨env, caller, (s.loop.served formats codec env caller).1⟩] }
  | other (s : Listening) (env : Env) (part : Section) (htime : s.loop.clock ≤ env.now)
      (hpart : ∀ request, part ≠ .control request) :
      Step formats codec s { s with
        loop := s.loop.step codec env part
        signalled := s.signalled || part = .shutdown }

variable {formats : Formats} {codec : KeyCodec} {store : Store} {test : Bool} {now : Instant}
  {s s' : Listening}

/-- The connection carries a request that its process may make. -/
def Asks (formats : Formats) (test : Bool) (e : ControlExchange) (request : Control) : Prop :=
  e.caller.request formats test = .ok request

/-- Only a process of the superuser asks for anything. -/
theorem Asks.root {e : ControlExchange} {request : Control} (h : Asks formats false e request) :
    e.caller.uid = .ok 0 := by
  unfold Asks Caller.request at h
  cases huid : e.caller.uid with
  | error e => simp [huid, Except.map, bind, Except.bind] at h
  | ok uid =>
      by_cases hroot : uid = 0
      · rw [hroot]
      · simp [huid, Except.map, bind, Except.bind, hroot, throw, throwThe, MonadExceptOf.throw] at h

/-- The settings that a list of connections leaves. -/
def settings (formats : Formats) (test : Bool) (config : Config)
    (exchanges : List ControlExchange) : Config :=
  exchanges.foldl (fun config e =>
    match e.caller.request formats test with
    | .ok request => Daemon.applied e.env request config
    | .error _ => config) config

/-- A pairing window has been asked for and opened. -/
def Opened (formats : Formats) (test : Bool) (exchanges : List ControlExchange) : Prop :=
  ∃ e ∈ exchanges, Asks formats test e .pairStart ∧ ∃ reply, e.result = .ok reply

/-- Every decision of the service is one that an admitted connection has asked for. -/
structure Governed (formats : Formats) (test : Bool) (store : Store) (s : Listening) : Prop where
  test_eq : s.loop.daemon.test = test
  config : s.loop.daemon.store.config = settings formats test store.config s.exchanges
  confirmed : ∀ e ∈ s.exchanges, ∀ request reply, Asks formats test e request →
    e.result = .ok reply → Daemon.Confirmed e.env request
  quit : s.loop.daemon.quit = true → s.signalled = true ∨
    ∃ e ∈ s.exchanges, Asks formats test e .stop
  kept : ∀ fp, store.trusts fp → s.loop.daemon.store.trusts fp ∨
    ∃ e ∈ s.exchanges, Asks formats test e (.revoke fp) ∧ e.env.saved = .ok ()
  paired : ∀ fp, s.loop.daemon.store.trusts fp →
    store.trusts fp ∨ Opened formats test s.exchanges
  window : s.loop.daemon.window.isSome → Opened formats test s.exchanges

theorem Opened.append {exchanges : List ControlExchange} (h : Opened formats test exchanges)
    (e : ControlExchange) : Opened formats test (exchanges ++ [e]) := by
  obtain ⟨e', he', hasks⟩ := h
  exact ⟨e', List.mem_append_left _ he', hasks⟩

/-- A connection adds to what was asked for. -/
theorem Governed.changed (h : s.Governed formats test store) {env : Env} {caller : Caller}
    {result : Except String ControlReply} {l : MainLoop} {request : Control}
    (hasks : caller.request formats test = .ok request)
    (hchanges : s.loop.daemon.Obeys env request
      (request = .pairStart ∧ ∃ reply, result = .ok reply) l.daemon)
    (hconfirmed : ∀ reply, result = .ok reply → Daemon.Confirmed env request) :
    ({ s with loop := l, exchanges := s.exchanges ++ [⟨env, caller, result⟩] } :
      Listening).Governed formats test store where
  test_eq := hchanges.test.trans h.test_eq
  config := by
    rw [hchanges.config, h.config, settings, settings, List.foldl_append]
    simp only [List.foldl_cons, List.foldl_nil, hasks]
  confirmed e he request' reply hrequest hreply := by
    rcases List.mem_append.mp he with he | he
    · exact h.confirmed e he request' reply hrequest hreply
    · obtain rfl := List.mem_singleton.mp he
      obtain rfl := Except.ok.inj (hasks.symm.trans hrequest)
      exact hconfirmed reply hreply
  quit hquit := by
    rcases hchanges.quit hquit with hbefore | hstop
    · rcases h.quit hbefore with hsignal | ⟨e, he, hask⟩
      · exact .inl hsignal
      · exact .inr ⟨e, List.mem_append_left _ he, hask⟩
    · exact .inr ⟨_, List.mem_append_right _ (List.mem_singleton_self _), hstop ▸ hasks⟩
  kept fp hfp := by
    rcases h.kept fp hfp with hbefore | ⟨e, he, hask⟩
    · rcases hchanges.kept fp hbefore with hkept | ⟨hrevoke, hsaved⟩
      · exact .inl hkept
      · exact .inr ⟨_, List.mem_append_right _ (List.mem_singleton_self _), hrevoke ▸ hasks, hsaved⟩
    · exact .inr ⟨e, List.mem_append_left _ he, hask⟩
  paired fp hfp := by
    rcases hchanges.paired fp hfp with hbefore | hwindow
    · exact (h.paired fp hbefore).imp id fun hopened => hopened.append _
    · exact .inr ((h.window hwindow).append _)
  window hwindow := by
    rcases hchanges.window hwindow with hbefore | ⟨hstart, hreply⟩
    · exact (h.window hbefore).append _
    · exact ⟨_, List.mem_append_right _ (List.mem_singleton_self _), hstart ▸ hasks, hreply⟩

/-- A refused connection changes nothing. -/
theorem Governed.refused (h : s.Governed formats test store) {env : Env} {caller : Caller}
    {error : String} (herror : caller.request formats test = .error error) :
    ({ s with exchanges := s.exchanges ++ [⟨env, caller, .error error⟩] } :
      Listening).Governed formats test store where
  test_eq := h.test_eq
  config := by
    rw [h.config, settings, settings, List.foldl_append]
    simp only [List.foldl_cons, List.foldl_nil, herror]
  confirmed e he request reply hrequest hreply := by
    rcases List.mem_append.mp he with he | he
    · exact h.confirmed e he request reply hrequest hreply
    · obtain rfl := List.mem_singleton.mp he
      cases hreply
  quit hquit := by
    rcases h.quit hquit with hsignal | ⟨e, he, hask⟩
    · exact .inl hsignal
    · exact .inr ⟨e, List.mem_append_left _ he, hask⟩
  kept fp hfp := by
    rcases h.kept fp hfp with hkept | ⟨e, he, hask⟩
    · exact .inl hkept
    · exact .inr ⟨e, List.mem_append_left _ he, hask⟩
  paired fp hfp := (h.paired fp hfp).imp id fun hopened => hopened.append _
  window hwindow := (h.window hwindow).append _

theorem step_control (hquit : s.loop.daemon.quit = false) (env : Env) (request : Control) :
    (s.loop.step codec env (.control request)).daemon =
      final (s.loop.daemon.control env request) := by
  have hrunning : ¬ s.loop.daemon.quit = true := by
    rw [hquit]
    decide
  rw [MainLoop.step, if_neg hrunning]

theorem Governed.step (h : s.Governed formats test store) (hstep : Step formats codec s s') :
    s'.Governed formats test store := by
  cases hstep with
  | accept env caller htime hquit =>
      unfold MainLoop.served
      rw [h.test_eq]
      cases hrequest : caller.request formats test with
      | error e => exact h.refused hrequest
      | ok request =>
          have hobeys := @Daemon.control_obeys env s.loop.daemon request
          have hconfirms := @Daemon.control_confirms env s.loop.daemon request
          dsimp only
          apply h.changed hrequest
          · rw [step_control hquit]
            cases hrun : s.loop.daemon.control env request with
            | ok reply d =>
                have hd := wp_of_ok hobeys hrun
                exact ⟨hd.test, hd.config, hd.quit, hd.kept, hd.paired, fun hwindow =>
                  (hd.window hwindow).imp id fun hstart => ⟨hstart, reply, rfl⟩⟩
            | error e d =>
                have hd := wp_of_error hobeys hrun
                exact ⟨hd.test, hd.config, hd.quit, hd.kept, hd.paired, fun hwindow =>
                  (hd.window hwindow).imp id False.elim⟩
          · intro reply hreply
            cases hrun : s.loop.daemon.control env request with
            | ok reply d =>
                have hconfirmed := wp_of_ok hconfirms hrun
                exact hconfirmed
            | error e d =>
                rw [hrun] at hreply
                cases hreply
  | other env part htime hpart =>
      have hchanges := @MainLoop.step_changes codec env part hpart s.loop
      constructor
      · exact hchanges.test.trans h.test_eq
      · exact hchanges.config.trans h.config
      · exact h.confirmed
      · intro hquit
        rcases hchanges.quit hquit with hbefore | hshutdown
        · rcases h.quit hbefore with hsignal | hask
          · exact .inl (by simp [hsignal])
          · exact .inr hask
        · exact .inl (by simp [hshutdown])
      · intro fp hfp
        rcases h.kept fp hfp with hbefore | hask
        · exact .inl ((hchanges.kept fp hbefore).resolve_right id)
        · exact .inr hask
      · intro fp hfp
        rcases hchanges.paired fp hfp with hbefore | hwindow
        · exact h.paired fp hbefore
        · exact .inr (h.window hwindow)
      · intro hwindow
        exact h.window ((hchanges.window hwindow).resolve_right id)

theorem Step.reachable (h : MainLoop.Reachable codec s.loop) (hstep : Step formats codec s s') :
    MainLoop.Reachable codec s'.loop := by
  cases hstep with
  | accept env caller htime hquit =>
      unfold MainLoop.served
      cases caller.request formats s.loop.daemon.test with
      | error e => exact h
      | ok request => exact h.next ⟨env, .control request, htime, rfl⟩
  | other env part htime hpart => exact h.next ⟨env, _, htime, rfl⟩

end Listening

end Altdb
