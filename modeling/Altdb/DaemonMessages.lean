import Altdb.DaemonPolicy
import Altdb.Broker

/-!
# What the supervisor tells its worker

A section either keeps the worker and appends messages to its socket, or stops
it, and then a new worker starts from an empty table of connections.  Only the
section that serves a request replies.  A host that is forgotten is announced
by a new host list, as long as the messages can be sent.
-/

namespace Altdb

open Fallible Relation

/-- A message that is no reply. -/
def Message.Quiet (message : Message) : Prop :=
  ∀ id ok text, message ≠ .reply id ok text

/-- A section that does not serve a request. -/
def Section.Idle (part : Section) : Prop := ∀ r, ¬Daemon.Requests part r

theorem Section.Idle.quiet {part : Section} (hidle : part.Idle)
    {message : Message} (h : Daemon.Answers part message) : message.Quiet := by
  intro id ok text heq
  obtain ⟨r, hr⟩ := h id ok text heq
  exact hidle r ⟨id, hr⟩

namespace Daemon

/-- Every message reaches the worker. -/
def Reliable (env : Env) : Prop := ∀ message, env.sent message = .ok ()

/-- A host list without the host is among the messages. -/
def Revokes (messages : List (Message × List Fd)) (fp : String) : Prop :=
  ∃ hosts, (Message.hosts hosts, []) ∈ messages ∧
    fp ∉ hosts.map Host.fingerprint

/-- The worker is kept and is sent some messages. -/
structure Keeps (env : Env) (d d' : Daemon) (w : Worker)
    (messages : List (Message × List Fd)) : Prop where
  worker_eq : d'.worker = some { w with inbox := w.inbox ++ messages }
  stops_eq : d'.stops = d.stops
  quiet : ∀ item ∈ messages, item.1.Quiet
  told : Reliable env → ∀ fp, d.store.trusts fp →
    d'.store.trusts fp ∨ Revokes messages fp

/-- No worker, or a new one that has not been sent a reply. -/
structure Fresh (d : Daemon) : Prop where
  transports : ∀ t : ℕ, d.transports[t]? = none
  quiet : ∀ w, d.worker = some w → ∀ item ∈ w.inbox, item.1.Quiet

variable {part : Section} {env : Env} {d d' d'' : Daemon} {w : Worker}
  {messages more : List (Message × List Fd)}

theorem Revokes.mono {fp : String} (h : Revokes messages fp)
    (hsub : messages ⊆ more) : Revokes more fp := by
  obtain ⟨hosts, hmem, hnot⟩ := h
  exact ⟨hosts, hsub hmem, hnot⟩

theorem Keeps.refl (env : Env) (hworker : d.worker = some w) :
    Keeps env d d w [] where
  worker_eq := by simp [hworker]
  stops_eq := rfl
  quiet := by simp
  told _ _ h := .inl h

/-- A change that sends nothing and forgets no host. -/
theorem Keeps.silent (h : Keeps env d d' w messages)
    (hworker : d''.worker = d'.worker) (hstops : d''.stops = d'.stops)
    (htrusts : ∀ fp, d'.store.trusts fp → d''.store.trusts fp) :
    Keeps env d d'' w messages where
  worker_eq := hworker.trans h.worker_eq
  stops_eq := hstops.trans h.stops_eq
  quiet := h.quiet
  told hsent fp htrust := (h.told hsent fp htrust).imp_left (htrusts fp)

theorem Keeps.log (h : Keeps env d d' w messages) (message : String) :
    Keeps env d (d'.log env message) w messages := by
  apply h.silent
  · simp only [Daemon.log]
  · simp only [Daemon.log]
  · intro fp ht
    rwa [log_store]

/-- One more message is sent. -/
theorem Keeps.send (h : Keeps env d d' w messages) {message : Message}
    {fds : List Fd} (hquiet : message.Quiet)
    (hworker : d''.worker =
      some { w with inbox := w.inbox ++ messages ++ [(message, fds)] })
    (hstops : d''.stops = d'.stops)
    (htold : ∀ fp, d'.store.trusts fp →
      d''.store.trusts fp ∨ Revokes [(message, fds)] fp) :
    Keeps env d d'' w (messages ++ [(message, fds)]) where
  worker_eq := by rw [hworker, List.append_assoc]
  stops_eq := hstops.trans h.stops_eq
  quiet item hitem := by
    rcases List.mem_append.mp hitem with hold | hnew
    · exact h.quiet item hold
    · obtain rfl := List.mem_singleton.mp hnew
      exact hquiet
  told hsent fp htrust := by
    rcases h.told hsent fp htrust with hkept | hrevoked
    · exact (htold fp hkept).imp_right
        (·.mono (List.subset_append_right _ _))
    · exact .inr (hrevoked.mono (List.subset_append_left _ _))

theorem Keeps.trans (h : Keeps env d d' w messages)
    (h' : Keeps env d' d'' { w with inbox := w.inbox ++ messages } more) :
    Keeps env d d'' w (messages ++ more) where
  worker_eq := by simpa [List.append_assoc] using h'.worker_eq
  stops_eq := h'.stops_eq.trans h.stops_eq
  quiet item hitem :=
    (List.mem_append.mp hitem).elim (h.quiet item) (h'.quiet item)
  told hsent fp htrust := by
    rcases h.told hsent fp htrust with hkept | hrevoked
    · exact (h'.told hsent fp hkept).imp_right
        (·.mono (List.subset_append_right _ _))
    · exact .inr (hrevoked.mono (List.subset_append_left _ _))

/-! ## Sections that serve no request -/

theorem stop_stops (env : Env) (state reason : String) (d : Daemon) :
    (d.stop env state reason).stops =
      if d.worker.isSome then d.stops + 1 else d.stops := by
  obtain ⟨logs, retryAt, failures, heq⟩ := @stop_eq env d state reason
  rw [heq]
  split <;> rfl

theorem Fresh.of_none (htransports : ∀ t : ℕ, d.transports[t]? = none)
    (hworker : d.worker = none) : d.Fresh where
  transports := htransports
  quiet w hw := by
    rw [hworker] at hw
    cases hw

theorem Fresh.congr (h : d.Fresh) (hworker : d'.worker = d.worker)
    (htransports : ∀ (t : ℕ) (fp : String), d'.transports[t]? = some fp →
      d.transports[t]? = some fp) : d'.Fresh where
  transports t := by
    cases ht : d'.transports[t]? with
    | none => rfl
    | some fp => rw [← htransports t fp ht, h.transports t]
  quiet w hw := h.quiet w (hworker ▸ hw)

theorem Fresh.send (h : d.Fresh) (hworker : d.worker = some w)
    {message : Message} (hquiet : message.Quiet) (fds : List Fd) :
    (d.delivered w message fds).Fresh where
  transports := h.transports
  quiet w' hw' := by
    obtain rfl := Option.some_inj.mp hw'
    intro item hitem
    rcases List.mem_append.mp hitem with hold | hnew
    · exact h.quiet w hworker item hold
    · obtain rfl := List.mem_singleton.mp hnew
      exact hquiet

theorem Fresh.withWorker (htransports : ∀ t : ℕ, d.transports[t]? = none)
    (bundle : Bundle) (pid : UInt32) (fd : Fd) : (d.withWorker bundle pid fd).Fresh where
  transports := htransports
  quiet w hw := by
    obtain rfl := Option.some_inj.mp hw
    intro item hitem
    obtain rfl := List.mem_singleton.mp hitem
    exact nofun

theorem disconnect_transports (t u : ℕ) (fp : String)
    (hu : (d.disconnect env t).transports[u]? = some fp) :
    d.transports[u]? = some fp := by
  simp only [disconnect, Std.TreeMap.getElem?_erase] at hu
  split at hu
  · cases hu
  · exact hu

theorem revoked_frame (fp : String) :
    (d.revoked env fp).stops = d.stops ∧ ∀ (t : ℕ) (other : String),
      (d.revoked env fp).transports[t]? = some other →
        d.transports[t]? = some other := by
  rw [revoked_eq]
  have hstops (ids : List ℕ) (d : Daemon) :
      (ids.foldl (fun d id => d.disconnect env id) d).stops = d.stops := by
    induction ids generalizing d with
    | nil => rfl
    | cons id rest ih => exact ih (d.disconnect env id)
  refine ⟨hstops _ _, fun t other ht => ?_⟩
  dsimp only at ht
  rw [foldl_disconnect_transports] at ht
  split at ht
  · cases ht
  · exact ht

theorem stop_stops_le (env : Env) (state reason : String) (d : Daemon) :
    d.stops ≤ (d.stop env state reason).stops := by
  rw [stop_stops]
  split <;> omega

theorem Effect.stops_le (h : Effect part env d d') : d.stops ≤ d'.stops := by
  cases h
  case stop state reason _ => exact stop_stops_le env state reason d
  case rotateFailed reason =>
    exact (Nat.le_succ _).trans (stop_stops_le env "error" reason
      { d with rotate := none }.stopWorker)
  case reconfigure config state reason _ _ _ =>
    exact stop_stops_le env state reason { d with store := d.store.withConfig config }
  case revoke fp _ hdone =>
    cases hdone <;> exact (revoked_frame fp).1.ge
  case rotate | regrant | regrantRestart => exact Nat.le_succ _
  all_goals exact le_rfl

theorem stop_fresh (htransports : d.worker = none →
    ∀ t : ℕ, d.transports[t]? = none)
    (state reason : String) : (d.stop env state reason).Fresh := by
  refine .of_none ?_ (stop_worker state reason)
  obtain ⟨logs, retryAt, failures, heq⟩ := @stop_eq env d state reason
  rw [heq]
  cases hworker : d.worker with
  | some w => simp [stopWorker]
  | none => exact htransports hworker

theorem revokes_without (d : Daemon) (fp : String) :
    Revokes [(.hosts (d.store.without fp), [])] fp := by
  refine ⟨_, List.mem_singleton_self _, ?_⟩
  simp [Store.without]

/-- A supervisor without a worker, or with a new one, stays so. -/
theorem Fresh.step (h : d.Fresh) (hidle : part.Idle)
    (heffect : Effect part env d d') : d'.Fresh := by
  have hrevoked (fp : String) : (d.revoked env fp).Fresh :=
    h.congr (revoked_worker fp) (revoked_frame fp).2
  cases heffect with
  | note | ready | configure | spawn | mark | reap | root | closeWindow
  | skipEpoch => exact h.congr rfl fun _ _ ht => ht
  | deliver w message fds hworker _ hanswers =>
      exact h.send hworker (hidle.quiet hanswers) fds
  | stop state reason => exact stop_fresh (fun _ => h.transports) _ _
  | launch bundle pid fd =>
      exact (Fresh.withWorker h.transports bundle pid fd).congr rfl
        fun _ _ ht => ht
  | rotate bundle pid fd =>
      exact .withWorker (by simp [stopWorker]) bundle pid fd
  | rotateFailed reason => exact stop_fresh (fun _ => by simp [stopWorker]) _ _
  | reconfigure config state reason =>
      exact @stop_fresh env { d with store := d.store.withConfig config }
        (fun _ => h.transports) state reason
  | regrant config => exact .of_none (by simp [stopWorker, regranted]) rfl
  | regrantRestart config bundle pid fd =>
      exact .withWorker (by simp [stopWorker, regranted]) bundle pid fd
  | connect t fp hrequest => exact absurd hrequest (hidle _)
  | disconnect t =>
      exact h.congr rfl (disconnect_transports t)
  | revoke _ fp _ hdone =>
      cases hdone with
      | idle | untold => exact hrevoked fp
      | told w hworker =>
          exact (hrevoked fp).send ((revoked_worker fp).trans hworker)
            (by simp [Message.Quiet]) []
  | openWindow w window fds _ hworker =>
      have hopened : { d with
          epoch := d.epoch + 1
          window := some window }.Fresh := h.congr rfl fun _ _ ht => ht
      exact hopened.send hworker (by simp [Message.Quiet]) fds
  | countFailure window hrequest => exact absurd hrequest (hidle _)
  | pair window hosts key hrequest => exact absurd hrequest (hidle _)

/-- The worker is kept, or it is stopped. -/
theorem Effect.keeps (hidle : part.Idle) (heffect : Effect part env d d')
    (hworker : d.worker = some w) :
    (∃ messages, Keeps env d d' w messages ∧ ∀ (t : ℕ) (fp : String),
      d'.transports[t]? = some fp → d.transports[t]? = some fp) ∨
    (d.stops < d'.stops ∧ d'.Fresh) := by
  have hstart := Keeps.refl env hworker
  have hstop (d₁ : Daemon) (hsome : d₁.worker = d.worker)
      (hstops : d₁.stops = d.stops) (state reason : String) :
      d.stops < (d₁.stop env state reason).stops ∧
        (d₁.stop env state reason).Fresh := by
    refine ⟨by simp [stop_stops, hsome, hworker, hstops], stop_fresh ?_ _ _⟩
    simp [hsome, hworker]
  cases heffect with
  | note | configure | spawn | mark | reap | root | closeWindow | skipEpoch
  | ready =>
      exact .inl ⟨[], hstart.silent rfl rfl fun _ h => h, fun _ _ h => h⟩
  | deliver w' message fds hworker' _ hanswers =>
      obtain rfl : w = w' := by simpa [hworker] using hworker'
      exact .inl ⟨[(message, fds)], hstart.send (hidle.quiet hanswers)
        (by simp [delivered]) rfl fun _ h => .inl h, fun _ _ h => h⟩
  | stop state reason => exact .inr (hstop d rfl rfl _ _)
  | launch bundle pid fd hnone => simp [hworker] at hnone
  | rotate bundle pid fd =>
      exact .inr ⟨Nat.lt_succ_self _,
        .withWorker (by simp [stopWorker]) bundle pid fd⟩
  | rotateFailed reason =>
      refine .inr ⟨?_, stop_fresh (fun _ => by simp [stopWorker]) _ _⟩
      rw [stop_stops]
      exact Nat.lt_succ_self _
  | reconfigure config state reason =>
      exact .inr (hstop { d with store := d.store.withConfig config } rfl rfl
        state reason)
  | regrant config =>
      exact .inr ⟨Nat.lt_succ_self _,
        .of_none (by simp [stopWorker, regranted]) rfl⟩
  | regrantRestart config bundle pid fd =>
      exact .inr ⟨Nat.lt_succ_self _,
        .withWorker (by simp [stopWorker, regranted]) bundle pid fd⟩
  | connect t fp hrequest => exact absurd hrequest (hidle _)
  | disconnect t =>
      exact .inl ⟨[], hstart.silent rfl rfl fun _ h => h,
        disconnect_transports t⟩
  | revoke _ fp _ hdone =>
      obtain ⟨hstops, htransports⟩ := @revoked_frame env d fp
      cases hdone with
      | idle hnone => simp [hworker] at hnone
      | told w' hworker' =>
          obtain rfl : w = w' := by simpa [hworker] using hworker'
          refine .inl ⟨[(.hosts (d.store.without fp), [])], hstart.send
            (by simp [Message.Quiet]) (by simp [delivered]) hstops
            fun other htrust => ?_, htransports⟩
          by_cases heq : other = fp
          · subst heq
            exact .inr (revokes_without d other)
          · refine .inl ?_
            change (d.revoked env fp).store.trusts other
            rw [revoked_store, Store.withHosts_without_trusts]
            exact ⟨htrust, heq⟩
      | untold w' hworker' hsent =>
          refine .inl ⟨[], ⟨?_, hstops, by simp, fun hall => ?_⟩, htransports⟩
          · simp [hworker]
          · exact absurd (hall _) hsent
  | openWindow w' window fds _ hworker' =>
      obtain rfl : w = w' := by simpa [hworker] using hworker'
      exact .inl ⟨[(.pairStart window.epoch window.code window.endpoints, fds)],
        hstart.send (by simp [Message.Quiet]) (by simp [delivered]) rfl
          fun _ h => .inl h, fun _ _ h => h⟩
  | countFailure window hrequest => exact absurd hrequest (hidle _)
  | pair window hosts key hrequest => exact absurd hrequest (hidle _)

/-- A sequence of effects on a supervisor with a worker. -/
theorem Effects.keeps (hidle : part.Idle) (heffects : Effects part env d d')
    (hworker : d.worker = some w) :
    (∃ messages, Keeps env d d' w messages ∧ ∀ (t : ℕ) (fp : String),
      d'.transports[t]? = some fp → d.transports[t]? = some fp) ∨
    (d.stops < d'.stops ∧ d'.Fresh) := by
  induction heffects with
  | refl => exact .inl ⟨[], .refl env hworker, fun _ _ h => h⟩
  | @tail d₁ d₂ _ hlast ih =>
      rcases ih with ⟨messages, hkeeps, htransports⟩ | ⟨hstops, hfresh⟩
      · rcases hlast.keeps hidle hkeeps.worker_eq with
          ⟨more, hmore, htransports'⟩ | ⟨hstops, hfresh⟩
        · exact .inl ⟨_, hkeeps.trans hmore, fun t fp ht =>
            htransports t fp (htransports' t fp ht)⟩
        · exact .inr ⟨hkeeps.stops_eq ▸ hstops, hfresh⟩
      · exact .inr ⟨hstops.trans_le hlast.stops_le, hfresh.step hidle hlast⟩

theorem Effects.fresh (hidle : part.Idle) (heffects : Effects part env d d')
    (h : d.Fresh) : d'.Fresh ∧ d.stops ≤ d'.stops := by
  induction heffects with
  | refl => exact ⟨h, le_rfl⟩
  | tail _ hlast ih =>
      exact ⟨ih.1.step hidle hlast, ih.2.trans hlast.stops_le⟩

/-! ## Sections that serve a request -/

theorem keeps_of_same (hworker : d.worker = some w) (hsame : d'.worker = d.worker)
    (hstops : d'.stops = d.stops)
    (htrusts : ∀ fp, d.store.trusts fp → d'.store.trusts fp) :
    Keeps env d d' w [] :=
  (Keeps.refl env hworker).silent hsame hstops htrusts

/-- What a request leaves of the worker, on either exit. -/
def Serves (env : Env) (w : Worker) (d d' : Daemon) : Prop :=
  ∃ messages, Keeps env d d' w messages

theorem Serves.refl (hworker : d.worker = some w) : Serves env w d d :=
  ⟨[], .refl env hworker⟩

theorem send_keeps (h : Keeps env d d' w messages) {message : Message}
    (hquiet : message.Quiet) (fds : List Fd) :
    wp (send env message fds)
      (fun _ d'' => Keeps env d d'' w (messages ++ [(message, fds)]) ∧
        d''.store = d'.store ∧ d''.transports = d'.transports)
      (fun _ d'' => d'' = d') d' := by
  refine wp_mono (send_spec message fds) ?_ (fun _ _ h => h.1)
  rintro _ d'' ⟨w', hworker', -, rfl⟩
  obtain rfl := Option.some_inj.mp (h.worker_eq.symm.trans hworker')
  exact ⟨h.send hquiet rfl rfl fun _ ht => .inl ht, rfl, rfl⟩

theorem pairStop_keeps (h : Keeps env d d' w messages) :
    wp (pairStop env)
      (fun _ d'' => Serves env w d d'' ∧ d''.transports = d'.transports)
      (fun _ _ => False) d' := by
  simp only [pairStop, wp_bind, wp_modify, wp_attempt]
  have hclosed : Keeps env d { d' with window := none } w messages :=
    h.silent rfl rfl fun _ ht => ht
  refine wp_mono (send_keeps hclosed (by simp [Message.Quiet]) []) ?_ ?_
  · rintro _ d'' ⟨hkeeps, -, htransports⟩
    exact ⟨⟨_, hkeeps⟩, htransports⟩
  · rintro _ d'' rfl
    exact ⟨⟨_, hclosed⟩, rfl⟩

theorem PairedHosts.keeps {hosts : List Host}
    (hhosts : d.store.PairedHosts hosts) (hworker : d.worker = some w) :
    Keeps env d { d with store := d.store.withHosts hosts, window := none } w
      [] :=
  keeps_of_same hworker rfl rfl fun _ ht => hhosts.trusts ht

theorem requestPairResult_keeps (codec : KeyCodec) (epoch : ℕ)
    (key : Option String) (hworker : d.worker = some w) :
    wp (requestPairResult codec env epoch key)
      (fun _ d' => Serves env w d d' ∧ d'.transports = d.transports)
      (fun _ d' => Serves env w d d' ∧ d'.transports = d.transports) d := by
  have hkept : Serves env w d d := .refl hworker
  simp only [requestPairResult, wp_bind, wp_get]
  cases hwindow : d.window with
  | none => exact ⟨hkept, rfl⟩
  | some window =>
      simp only [wp_bind, wp_ensure]
      refine ⟨fun _ => ?_, fun _ => ⟨hkept, trivial⟩⟩
      cases key with
      | some key =>
          simp only [wp_bind, wp_onStore]
          refine wp_mono (Store.pair_spec codec env.unixTime key) ?_ ?_
          · rintro fp store ⟨-, hosts, hhosts, rfl, -⟩
            have hpaired := @PairedHosts.keeps env d w hosts hhosts hworker
            simp only [wp_modify, wp_bind]
            refine wp_mono (send_keeps hpaired (by simp [Message.Quiet]) []) ?_ ?_
            · rintro _ d₁ ⟨h₁, hstore₁, htransports₁⟩
              simp only [wp_get, wp_bind]
              refine wp_mono (send_keeps h₁ (by simp [Message.Quiet]) []) ?_ ?_
              · rintro _ d₂ ⟨h₂, hstore₂, htransports₂⟩
                refine ⟨⟨_, h₂.log _⟩, ?_⟩
                rw [log_transports, htransports₂, htransports₁]
              · rintro _ d₂ rfl
                exact ⟨⟨_, h₁⟩, htransports₁⟩
            · rintro _ d₁ rfl
              exact ⟨⟨_, hpaired⟩, rfl⟩
          · rintro _ store rfl
            exact ⟨hkept, trivial⟩
      | none =>
          simp only [wp_bind, wp_modify, wp_ite]
          have hcounted : Keeps env d { d with window := some window.failed } w [] :=
            keeps_of_same hworker rfl rfl fun _ ht => ht
          refine ⟨fun _ => ?_, fun _ => ?_⟩
          · refine wp_mono (pairStop_keeps hcounted) ?_ (fun _ _ h => h.elim)
            rintro _ d' ⟨⟨messages, hkeeps⟩, htransports⟩
            refine ⟨⟨_, hkeeps.log _⟩, ?_⟩
            rw [log_transports, htransports]
          · refine ⟨⟨_, hcounted.log _⟩, ?_⟩
            rw [log_transports]

/-- What a granted request does to the table of connections. -/
def Connects (d d' : Daemon) : Request → Prop
  | .authenticated t fp => d.transports.size < maxTransports ∧
      t ∉ d.transports ∧ d.store.trusts fp ∧ d'.store.trusts fp ∧
      d'.transports = d.transports.insert t fp
  | .disconnected t => d'.transports = d.transports.erase t
  | _ => d'.transports = d.transports

theorem request_keeps (codec : KeyCodec) (r : Request)
    (hworker : d.worker = some w) :
    wp (request codec env r)
      (fun _ d' => Serves env w d d' ∧ d.Connects d' r)
      (fun _ d' => Serves env w d d' ∧ d'.transports = d.transports) d := by
  cases r with
  | authenticated t fp =>
      simp only [request, wp_bind]
      refine wp_mono (requestAuthenticated_spec t fp) ?_ ?_
      · rintro _ d' ⟨hsize, hfresh, htrust, logs, rfl⟩
        have htrusts := @Store.withHosts_markConnected_trusts d.store
          env.unixTime fp
        exact ⟨⟨[], keeps_of_same hworker rfl rfl fun other => (htrusts other).mpr⟩,
          hsize, hfresh, htrust, (htrusts fp).mpr htrust, rfl⟩
      · rintro _ d' rfl
        exact ⟨.refl hworker, rfl⟩
  | disconnected t =>
      exact ⟨⟨[], keeps_of_same hworker rfl rfl fun _ ht => ht⟩, rfl⟩
  | spawn t name =>
      refine wp_mono (spawnService_spec t name false) ?_ ?_
      · rintro _ d' ⟨s, -, rfl⟩
        exact ⟨⟨[], keeps_of_same hworker rfl rfl fun _ ht => ht⟩, rfl⟩
      · rintro _ d' (rfl | ⟨s, -, -, rfl⟩)
        · exact ⟨.refl hworker, rfl⟩
        · exact ⟨⟨[], keeps_of_same hworker rfl rfl fun _ ht => ht⟩, rfl⟩
  | bindReverse t spec =>
      refine wp_mono (spawnService_spec t spec true) ?_ ?_
      · rintro _ d' ⟨s, -, rfl⟩
        exact ⟨⟨[], keeps_of_same hworker rfl rfl fun _ ht => ht⟩, rfl⟩
      · rintro _ d' (rfl | ⟨s, -, -, rfl⟩)
        · exact ⟨.refl hworker, rfl⟩
        · exact ⟨⟨[], keeps_of_same hworker rfl rfl fun _ ht => ht⟩, rfl⟩
  | closeService | closeReverse =>
      exact ⟨⟨[], keeps_of_same hworker rfl rfl fun _ ht => ht⟩, rfl⟩
  | root t enable =>
      simp only [request, requestRoot, wp_bind, wp_get, wp_ensure, wp_ite,
        wp_pure, wp_modify]
      have hkept : Serves env w d d := .refl hworker
      refine ⟨fun _ => ⟨fun _ => ⟨fun _ => ⟨hkept, rfl⟩, fun _ => ?_⟩,
        fun _ => ⟨hkept, trivial⟩⟩, fun _ => ⟨hkept, trivial⟩⟩
      exact ⟨⟨[], keeps_of_same hworker rfl rfl fun _ ht => ht⟩, rfl⟩
  | pairResult epoch key =>
      simp only [request, wp_bind]
      exact requestPairResult_keeps codec epoch key hworker

/-- The reply that `run` makes of the outcome of a request. -/
def replyTo (outcome : Except String (String × List Fd)) : Answer :=
  match outcome with
  | .ok (message, fds) => ⟨true, message, fds⟩
  | .error error => ⟨false, error, []⟩

/-- The supervisor after a request and before its reply is sent. -/
structure Handled (codec : KeyCodec) (env : Env) (r : Request) (d : Daemon)
    (w : Worker) (outcome : Except String (String × List Fd)) (d' : Daemon)
    (messages : List (Message × List Fd)) : Prop where
  final_eq : final (request codec env r d) = d'
  outcome_eq : Fallible.outcome (request codec env r d) = outcome
  keeps : Keeps env d d' w messages
  granted : outcome.isOk → d.Connects d' r
  refused : ¬outcome.isOk → d'.transports = d.transports

theorem serve_spec (codec : KeyCodec) (id : ℕ) (r : Request)
    (hworker : d.worker = some w) :
    ∃ outcome d' messages, Handled codec env r d w outcome d' messages ∧
      ((∃ w', d'.worker = some w' ∧ d.serve codec env id r =
          d'.delivered w' (.reply id (replyTo outcome).ok
            (replyTo outcome).message) (replyTo outcome).fds) ∨
        ¬Reliable env ∧ d.serve codec env id r = d') := by
  have hkeeps := @request_keeps env d w codec r hworker
  have hsend (outcome : Except String (String × List Fd)) (d' : Daemon)
      (hsome : d'.worker.isSome) :
      (∃ w', d'.worker = some w' ∧
        final (send env (.reply id (replyTo outcome).ok
            (replyTo outcome).message) (replyTo outcome).fds d') =
          d'.delivered w' (.reply id (replyTo outcome).ok
            (replyTo outcome).message) (replyTo outcome).fds) ∨
      ¬Reliable env ∧ final (send env (.reply id (replyTo outcome).ok
            (replyTo outcome).message) (replyTo outcome).fds d') = d' := by
    have hspec := @send_spec env d' (.reply id (replyTo outcome).ok
      (replyTo outcome).message) (replyTo outcome).fds
    unfold wp at hspec
    split at hspec
    · next hrun =>
      obtain ⟨w', hw', -, rfl⟩ := hspec
      exact .inl ⟨w', hw', by rw [hrun]; rfl⟩
    · next hrun =>
      obtain ⟨rfl, hunsent⟩ := hspec
      refine .inr ⟨fun hall => ?_, by rw [hrun]; rfl⟩
      rcases hunsent with hnone | hne
      · simp [hnone] at hsome
      · exact hne (hall _)
  unfold wp at hkeeps
  cases hrun : request codec env r d with
  | ok value d' =>
      rw [hrun] at hkeeps
      obtain ⟨⟨messages, hk⟩, hconnects⟩ := hkeeps
      refine ⟨.ok value, d', messages, ⟨by rw [hrun]; rfl, by rw [hrun]; rfl, hk,
        fun _ => hconnects, fun h => absurd rfl h⟩, ?_⟩
      have hresult := hsend (.ok value) d' (by rw [hk.worker_eq]; rfl)
      unfold serve
      rw [hrun]
      exact hresult
  | error error d' =>
      rw [hrun] at hkeeps
      obtain ⟨⟨messages, hk⟩, hsame⟩ := hkeeps
      refine ⟨.error error, d', messages, ⟨by rw [hrun]; rfl, by rw [hrun]; rfl,
        hk, (fun h => by cases h), fun _ => hsame⟩, ?_⟩
      have hresult := hsend (.error error) d' (by rw [hk.worker_eq]; rfl)
      unfold serve
      rw [hrun]
      exact hresult

end Daemon

/-! ## Sections of the main loop -/

namespace MainLoop

open Daemon

variable {codec : KeyCodec} {part : Section} {env : Env} {l : MainLoop}
  {w : Worker}

theorem regranted_fresh (d : Daemon) (config : Config) :
    (d.regranted config).Fresh :=
  .of_none (by simp [stopWorker, regranted]) rfl

theorem step_keeps (codec : KeyCodec) (hidle : part.Idle)
    (hworker : l.daemon.worker = some w) :
    (∃ messages, Keeps env l.daemon (l.step codec env part).daemon w messages ∧
      ∀ (t : ℕ) (fp : String),
        (l.step codec env part).daemon.transports[t]? = some fp →
          l.daemon.transports[t]? = some fp) ∨
    (l.daemon.stops < (l.step codec env part).daemon.stops ∧
      (l.step codec env part).daemon.Fresh) := by
  rcases step_effects codec env part l with heffects | ⟨config, bundle, -, heq⟩
  · exact heffects.keeps hidle hworker
  · rw [heq]
    exact .inr ⟨Nat.lt_succ_self _, regranted_fresh _ _⟩

theorem step_fresh (codec : KeyCodec) (hidle : part.Idle)
    (hfresh : l.daemon.Fresh) :
    (l.step codec env part).daemon.Fresh ∧
      l.daemon.stops ≤ (l.step codec env part).daemon.stops := by
  rcases step_effects codec env part l with heffects | ⟨config, bundle, -, heq⟩
  · exact heffects.fresh hidle hfresh
  · rw [heq]
    exact ⟨regranted_fresh _ _, Nat.le_succ _⟩

theorem step_request (hquit : l.daemon.quit = false)
    (hworker : l.daemon.worker = some w) (id : ℕ) (r : Request) :
    (l.step codec env (.worker (.message (.request id r) []))).daemon =
      l.daemon.serve codec env id r := by
  simp [step, hquit, Daemon.receive, hworker]

end MainLoop

end Altdb
