import Altdb.DaemonMessages
import Mathlib.Tactic

/-!
# The ids of services

A stream keeps the transport and the process id of the service it was opened
for and sends both to the supervisor when it is dropped.  The supervisor closes
the services of the transport that have the id.  Between these two steps the
service may have ended and the operating system may have given its id to
another one.
-/

namespace Altdb

open Fallible

/-! ## Reply -/

theorem parseDigits_ofDigitChars {limit value : ℕ} {digits : List Char}
    (hdigits : ∀ c ∈ digits, c.isDigit)
    (hlimit : Nat.ofDigitChars 10 digits value ≤ limit) :
    parseDigits limit value digits = .ok (Nat.ofDigitChars 10 digits value) := by
  induction digits generalizing value with
  | nil => rfl
  | cons c rest ih =>
      have hc := hdigits c List.mem_cons_self
      have hrest := fun c' h => hdigits c' (List.mem_cons_of_mem _ h)
      rw [Nat.ofDigitChars_cons, Nat.mul_comm] at hlimit ⊢
      -- The value read so far is at most the whole value.
      have hle : value * 10 + (c.toNat - '0'.toNat) ≤ limit := by
        rw [Nat.ofDigitChars_eq_ofDigitChars_zero] at hlimit
        have hpow : 1 ≤ 10 ^ rest.length := Nat.one_le_pow _ _ (by decide)
        have hmul := Nat.le_mul_of_pos_left (value * 10 + (c.toNat - '0'.toNat)) hpow
        omega
      unfold parseDigits
      rw [if_pos hc, if_pos hle]
      exact ih hrest hlimit

/-- The id in a Spawn reply is read back. -/
theorem parseU32_toString (n : UInt32) : parseU32 (toString n.toNat) = .ok n := by
  have hlist : (toString n.toNat).toList = Nat.toDigits 10 n.toNat := Nat.toList_repr
  have hdigits : ∀ c ∈ Nat.toDigits 10 n.toNat, c.isDigit := fun c hc =>
    Nat.isDigit_of_mem_toDigits (by decide) (by decide) hc
  have hparse : parseDigits 4294967295 0 (Nat.toDigits 10 n.toNat) = .ok n.toNat := by
    have hvalue : Nat.ofDigitChars 10 (Nat.toDigits 10 n.toNat) 0 = n.toNat :=
      Nat.ofDigitChars_ten_toDigits
    have hlt : n.toNat < 4294967296 := n.toNat_lt
    rw [parseDigits_ofDigitChars hdigits (by omega), hvalue]
  have hunsigned : parseUnsigned 4294967295 (toString n.toNat) = .ok n.toNat := by
    unfold parseUnsigned
    rw [hlist]
    split
    · next heq => exact absurd heq Nat.toDigits_ne_nil
    · next heq =>
      have hplus := hdigits '+' (heq ▸ List.mem_cons_self)
      exact absurd hplus (by decide)
    · next heq =>
      have hplus := hdigits '+' (heq ▸ List.mem_cons_self)
      exact absurd hplus (by decide)
    · exact hparse
  unfold parseU32
  rw [hunsigned]
  exact congrArg Except.ok (UInt32.ofNat_toNat)

/-! ## Services that a section carries over -/

/-- A service that may have been stopped meanwhile. -/
structure Service.Kept (s s' : Service) : Prop where
  pid : s'.child.pid = s.child.pid
  transport : s'.transport = s.transport
  closeAt : s'.closeAt = s.closeAt

theorem Service.Kept.refl (s : Service) : s.Kept s := ⟨rfl, rfl, rfl⟩

theorem Service.Kept.trans {s s' s'' : Service} (h : s.Kept s') (h' : s'.Kept s'') :
    s.Kept s'' :=
  ⟨h'.pid.trans h.pid, h'.transport.trans h.transport, h'.closeAt.trans h.closeAt⟩

theorem Service.kept_stop (env : Env) (s : Service) : s.Kept (s.stop env) := by
  unfold Service.stop
  split
  · exact .refl s
  split
  · exact ⟨rfl, rfl, rfl⟩
  split
  · exact ⟨rfl, rfl, rfl⟩
  · exact ⟨rfl, rfl, rfl⟩

instance : Std.Refl Service.Kept := ⟨Service.Kept.refl⟩

namespace Daemon

variable {env : Env} {d d' d'' : Daemon}

/-- No service is started, and none is left out unless all are. -/
def Carries (d d' : Daemon) : Prop :=
  d'.services = [] ∨ List.Forall₂ Service.Kept d.services d'.services

theorem Carries.refl (d : Daemon) : Carries d d :=
  .inr (List.forall₂_refl d.services)

theorem Carries.congr (h : Carries d d') (hservices : d''.services = d'.services) :
    Carries d d'' := by
  unfold Carries
  rw [hservices]
  exact h

theorem Carries.map (h : Carries d d') {f : Service → Service}
    (hf : ∀ s : Service, s.Kept (f s)) (hservices : d''.services = d'.services.map f) :
    Carries d d'' := by
  unfold Carries
  rw [hservices]
  obtain hnil | hkept := h
  · exact .inl (by rw [hnil]; rfl)
  · refine .inr ?_
    rw [List.forall₂_map_right_iff]
    exact hkept.imp fun s s' h => h.trans (hf s')

/-! ### Methods -/

theorem stop_carries (h : Carries d d') (state reason : String) :
    Carries d (d'.stop env state reason) := by
  obtain ⟨logs, retryAt, failures, heq⟩ := @stop_eq env d' state reason
  rw [heq]
  cases d'.worker.isSome with
  | true => exact .inl rfl
  | false => exact h.congr rfl

theorem log_carries (h : Carries d d') (message : String) :
    Carries d (d'.log env message) :=
  h.congr (log_services message)

theorem logged_carries (message : String) :
    Preserves (Carries d) (modify (log env message) : EStateM String Daemon Unit) :=
  .modify fun _ h => log_carries h message

theorem disconnect_carries (h : Carries d d') (transport : ℕ) :
    Carries d (d'.disconnect env transport) := by
  refine @Carries.map d d' _ h
    (fun s => if s.transport = transport then s.stop env else s) (fun s => ?_) rfl
  split
  · exact s.kept_stop env
  · exact .refl s

theorem onStore_carries {α : Type} (method : EStateM String Store α) :
    Preserves (Carries d) (onStore method) := by
  intro d₁ h
  unfold wp onStore
  cases hrun : method d₁.store with
  | ok value store => exact h.congr rfl
  | error error store => exact h.congr rfl

theorem send_carries (message : Message) (fds : List Fd) :
    Preserves (Carries d) (send env message fds) := by
  refine .get_bind fun d₁ h => ?_
  cases d₁.worker with
  | none => exact .throw _
  | some w => exact .bind (.lift _) fun _ => .modify fun _ h => h.congr rfl

theorem pairStop_carries : Preserves (Carries d) (pairStop env) :=
  .bind (.modify fun _ h => h.congr rfl) fun _ =>
    .bind (.attempt (send_carries _ _)) fun _ => .pure _

theorem startWorker_carries : Preserves (Carries d) (startWorker env) := by
  refine .get_bind fun d₁ h => ?_
  cases d₁.bundle with
  | none => exact .throw _
  | some bundle =>
      exact .bind (.lift _) fun _ => .bind (.lift _) fun _ => .bind (.lift _) fun _ =>
        .modify fun _ h => h.congr rfl

theorem start_carries (addresses : List Endpoint) :
    Preserves (Carries d) (start env addresses) :=
  .get_bind fun _ _ => .bind (.lift _) fun _ => .bind (.lift _) fun _ =>
    .bind (.modify fun _ h => h.congr rfl) fun _ => startWorker_carries

theorem controlPairStart_carries : Preserves (Carries d) (controlPairStart env) := by
  refine .get_bind fun d₁ _ => .bind (.ensure _ _) fun _ => .bind (.ensure _ _) fun _ =>
    .bind pairStop_carries fun _ => .get_bind fun d₂ _ => ?_
  cases d₂.bundle with
  | none => exact .throw _
  | some bundle =>
      exact .bind (.lift _) fun _ => .bind (.lift _) fun _ =>
        .bind (.modify fun _ h => h.congr rfl) fun _ => .get_bind fun _ _ =>
          .bind (send_carries _ _) fun _ => .bind (.modify fun _ h => h.congr rfl) fun _ =>
            logged_carries _

theorem controlConfigure_carries (config : Config) :
    Preserves (Carries d) (controlConfigure env config) := by
  refine .get_bind fun _ _ => .bind (onStore_carries _) fun _ => .get_bind fun _ _ => ?_
  refine .ite (.ite ?_ ?_) (.pure _)
  · exact .bind (.modify fun _ h => stop_carries h _ _) fun _ => logged_carries _
  · refine .bind (.modify fun _ _ => .inl rfl) fun _ =>
      .bind (.modify fun _ h => h.congr rfl) fun _ => .get_bind fun _ _ =>
        .ite ?_ (logged_carries _)
    exact .bind startWorker_carries fun _ => logged_carries _

theorem controlRevoke_carries (fingerprint : String) :
    Preserves (Carries d) (controlRevoke env fingerprint) := by
  have hfold (ids : List ℕ) : ∀ d₂, Carries d d₂ →
      Carries d (ids.foldl (fun d id => d.disconnect env id) d₂) := by
    induction ids with
    | nil => exact fun _ h => h
    | cons id rest ih => exact fun _ h => ih _ (disconnect_carries h id)
  refine .bind (onStore_carries _) fun _ => .get_bind fun _ _ =>
    .bind (.modify (hfold _)) fun _ => .get_bind fun _ _ => .ite ?_ (logged_carries _)
  exact .get_bind fun _ _ => .bind (send_carries _ _) fun _ => logged_carries _

theorem control_carries (request : Control) : Preserves (Carries d) (control env request) := by
  cases request with
  | status => exact .get_bind fun _ _ => .pure _
  | logs => exact .get_bind fun _ _ => .pure _
  | pairStart => exact .bind controlPairStart_carries fun _ => .get_bind fun _ _ => .pure _
  | pairStop =>
      exact .bind pairStop_carries fun _ => .bind (logged_carries _)
        fun _ => .get_bind fun _ _ => .pure _
  | configure config =>
      exact .bind (controlConfigure_carries config) fun _ => .get_bind fun _ _ => .pure _
  | revoke fingerprint =>
      exact .bind (controlRevoke_carries fingerprint) fun _ => .get_bind fun _ _ => .pure _
  | stop =>
      exact .bind (.modify fun _ h => h.congr rfl) fun _ =>
        .bind (.modify fun _ h => stop_carries h _ _) fun _ => .get_bind fun _ _ => .pure _

theorem requestAuthenticated_carries (transport : ℕ) (fingerprint : String) :
    Preserves (Carries d) (requestAuthenticated env transport fingerprint) :=
  .get_bind fun _ _ => .bind (.ensure _ _) fun _ => .bind (onStore_carries _) fun _ =>
    .bind (.modify fun _ h => h.congr rfl) fun _ => logged_carries _

theorem requestRoot_carries (transport : ℕ) (enable : Bool) :
    Preserves (Carries d) (requestRoot env transport enable) := by
  refine .get_bind fun _ _ => .bind (.ensure _ _) fun _ => .bind (.ensure _ _) fun _ =>
    .ite (.pure _) ?_
  exact .bind (.modify fun _ h => h.congr rfl) fun _ => .pure _

theorem requestPairResult_carries (codec : KeyCodec) (epoch : ℕ) (key : Option String) :
    Preserves (Carries d) (requestPairResult codec env epoch key) := by
  refine .get_bind fun d₁ _ => ?_
  cases d₁.window with
  | none => exact .throw _
  | some w =>
      refine .bind (.ensure _ _) fun _ => ?_
      cases key with
      | some key =>
          exact .bind (onStore_carries _) fun _ => .bind (.modify fun _ h => h.congr rfl)
            fun _ => .bind (send_carries _ _) fun _ => .get_bind fun _ _ =>
              .bind (send_carries _ _) fun _ => logged_carries _
      | none =>
          refine .bind (.modify fun _ h => h.congr rfl) fun _ => .ite ?_ ?_
          · exact .bind pairStop_carries fun _ => logged_carries _
          · exact logged_carries _

end Daemon

/-! ## Requests in sections -/

/-- The request that a section serves. -/
def Section.request : Section → Option Request
  | .worker (.message (.request _ r) []) => some r
  | _ => none

/-- The transport for which a request starts a service. -/
def Request.starts : Request → Option ℕ
  | .spawn transport _ | .bindReverse transport _ => some transport
  | _ => none

def Request.closes : Request → Bool
  | .closeService _ _ => true
  | _ => false

namespace Daemon

variable {env : Env} {d d' : Daemon}

theorem request_carries (codec : KeyCodec) {r : Request} (hstarts : r.starts = none)
    (hcloses : r.closes = false) : Preserves (Carries d) (request codec env r) := by
  cases r with
  | authenticated transport fingerprint =>
      exact .bind (requestAuthenticated_carries _ _) fun _ => .pure _
  | disconnected transport =>
      exact .bind (.modify fun _ h => disconnect_carries h _) fun _ => .pure _
  | spawn transport name => cases hstarts
  | closeService transport service => cases hcloses
  | bindReverse transport spec => cases hstarts
  | closeReverse transport spec =>
      refine .bind (.modify fun d₁ h => ?_) fun _ => .pure _
      refine @Carries.map d d₁ _ h (fun s =>
        if s.transport = transport ∧ s.binder.any (fun b => b.1 = spec) then s.stop env
        else s) (fun s => ?_) rfl
      split
      · exact s.kept_stop env
      · exact .refl s
  | root transport enable => exact .bind (requestRoot_carries _ _) fun _ => .pure _
  | pairResult epoch key => exact .bind (requestPairResult_carries _ _ _) fun _ => .pure _

/-- The reply changes no service. -/
theorem serve_services (codec : KeyCodec) (id : ℕ) (r : Request) :
    (d.serve codec env id r).services = (final (request codec env r d)).services := by
  have hsend (message : Message) (fds : List Fd) (d₁ : Daemon) :
      (final (send env message fds d₁)).services = d₁.services := by
    have h := @send_spec env d₁ message fds
    unfold wp at h
    split at h
    · next hrun =>
      obtain ⟨w, -, -, rfl⟩ := h
      rw [hrun]
      rfl
    · next hrun =>
      obtain ⟨rfl, -⟩ := h
      rw [hrun]
      rfl
  unfold serve
  cases hrun : request codec env r d with
  | ok value d₁ => exact hsend _ _ d₁
  | error error d₁ => exact hsend _ _ d₁

/-- A service that `spawn_service` adds to the table. -/
structure Starts (env : Env) (transport : ℕ) (d d' : Daemon) (s : Service) : Prop where
  services : d'.services = d.services ++ [s]
  spawned : env.spawned = .ok s.child.pid
  transport_eq : s.transport = transport
  closeAt : s.closeAt = none

theorem Starts.stop {transport : ℕ} {s : Service}
    (h : d.Starts env transport { d with services := d.services ++ [s] } s) :
    d.Starts env transport { d with services := d.services ++ [s.stop env] } (s.stop env) where
  services := rfl
  spawned := h.spawned.trans (congrArg Except.ok (s.kept_stop env).pid.symm)
  transport_eq := (s.kept_stop env).transport.trans h.transport_eq
  closeAt := (s.kept_stop env).closeAt.trans h.closeAt

theorem spawnService_starts (transport : ℕ) (name : String) (bind : Bool) :
    wp (spawnService env transport name bind)
      (fun reply d' => ∃ s, d.Starts env transport d' s ∧
        (bind = false → reply.1 = toString s.child.pid.toNat))
      (fun _ d' => d' = d ∨ ∃ s, d.Starts env transport d' s) d := by
  simp only [spawnService, wp_bind, wp_get, wp_ensure, wp_lift, wp_ite,
    wp_modify, wp_throw, wp_pure]
  refine ⟨fun _ => ⟨fun _ => ⟨fun _ => ?_, ?_⟩, ?_⟩, ?_⟩
  case refine_2 | refine_3 | refine_4 => exact fun _ => .inl trivial
  refine ⟨fun _ _ => ⟨fun _ _ => ⟨fun data _ => ⟨fun pid hpid => ⟨fun _ _ => ?_, ?_⟩,
    ?_⟩, ?_⟩, ?_⟩, ?_⟩
  case refine_2 | refine_3 | refine_4 | refine_5 | refine_6 =>
    exact fun _ _ => .inl trivial
  refine ⟨fun hbind => ⟨fun _ => .inr ?_, fun _ => ?_⟩, fun _ => ?_⟩
  · exact ⟨_, Starts.stop ⟨rfl, hpid, rfl, rfl⟩⟩
  · cases env.bindReply with
    | ok reply => exact ⟨_, ⟨rfl, hpid, rfl, rfl⟩, fun h => by rw [h] at hbind; cases hbind⟩
    | error error => exact .inr ⟨_, Starts.stop ⟨rfl, hpid, rfl, rfl⟩⟩
  · exact ⟨_, ⟨rfl, hpid, rfl, rfl⟩, fun _ => rfl⟩

theorem Starts.congr {transport : ℕ} {s : Service} {d'' : Daemon}
    (h : d.Starts env transport d' s) (hservices : d''.services = d'.services) :
    d.Starts env transport d'' s :=
  ⟨hservices.trans h.services, h.spawned, h.transport_eq, h.closeAt⟩

/-- A request that may start a service starts one or leaves the table alone. -/
theorem serve_starts (codec : KeyCodec) (id : ℕ) {r : Request} {transport : ℕ}
    (h : r.starts = some transport) :
    Carries d (d.serve codec env id r) ∨
      ∃ s, d.Starts env transport (d.serve codec env id r) s := by
  have hspawn (name : String) (bind : Bool)
      (heq : request codec env r = spawnService env transport name bind) :
      Carries d (d.serve codec env id r) ∨
        ∃ s, d.Starts env transport (d.serve codec env id r) s := by
    have hspec := @spawnService_starts env d transport name bind
    have hservices := @serve_services env d codec id r
    rw [heq] at hservices
    unfold wp at hspec
    split at hspec
    · next hresult =>
      obtain ⟨s, hs, -⟩ := hspec
      rw [hresult] at hservices
      exact .inr ⟨s, hs.congr hservices⟩
    · next hresult =>
      rw [hresult] at hservices
      obtain rfl | ⟨s, hs⟩ := hspec
      · exact .inl ((Carries.refl _).congr hservices)
      · exact .inr ⟨s, hs.congr hservices⟩
  cases r with
  | spawn t name =>
      obtain rfl := Option.some.inj h
      exact hspawn name false rfl
  | bindReverse t spec =>
      obtain rfl := Option.some.inj h
      exact hspawn spec true rfl
  | authenticated | disconnected | closeService | closeReverse | root | pairResult => cases h

/-! ## Sections -/

theorem windowExpiry_carries (d : Daemon) : Carries d (d.windowExpiry env) := by
  unfold windowExpiry
  split
  · exact .refl d
  split
  · exact log_carries (pairStop_carries.final (.refl d)) _
  · exact .refl d

theorem rotation_carries (d : Daemon) : Carries d (d.rotation env) := by
  unfold rotation
  split
  · have hstart := @startWorker_carries env d { d with rotate := none }.stopWorker (.inl rfl)
    unfold wp at hstart
    split at hstart
    · next hrun =>
      rw [hrun]
      exact hstart
    · next hrun =>
      rw [hrun]
      exact stop_carries hstart _ _
  · exact .refl d

theorem receive_carries (codec : KeyCodec) (d : Daemon) (arrival : Arrival)
    (hidle : ∀ r, (Section.worker arrival).request = some r →
      r.starts = none ∧ r.closes = false) :
    Carries d (d.receive codec env arrival) := by
  unfold receive
  split
  · exact .refl d
  split
  · exact (Carries.refl d).congr (log_services _)
  · next id r =>
    obtain ⟨hstarts, hcloses⟩ := hidle r rfl
    exact ((request_carries codec hstarts hcloses).final (.refl d)).congr
      (serve_services codec id r)
  · exact stop_carries (.refl d) _ _
  · exact stop_carries (.refl d) _ _
  · exact stop_carries (.refl d) _ _

theorem networkCheck_carries (h : Carries d d') : Carries d (d'.networkCheck env) := by
  unfold networkCheck
  split
  · exact stop_carries h _ _
  · exact stop_carries h _ _
  · next addresses _ _ =>
    have hstart := @start_carries env d addresses _
      (@stop_carries env d d' h "starting" "Network changed; starting service")
    unfold wp at hstart
    dsimp only
    split_ifs
    · cases hrun : start env addresses
          (d'.stop env "starting" "Network changed; starting service") with
      | ok _ d₁ =>
          rw [hrun] at hstart
          exact hstart
      | error _ d₁ =>
          rw [hrun] at hstart
          exact stop_carries hstart _ _
    · exact h

end Daemon

namespace MainLoop

open Daemon

theorem checks_carries (env : Env) (l : MainLoop) : Carries l.daemon (l.checks env).daemon := by
  have hrefl := Carries.refl l.daemon
  unfold checks
  split
  · dsimp only
    split
    · exact stop_carries hrefl _ _
    split
    · exact stop_carries hrefl _ _
    · split
      · exact hrefl.congr (log_services _)
      · exact hrefl
    · have hnote : Carries l.daemon
          (if l.daemon.reason = settingsUnavailable then
            { l.daemon with reason := "" }.log env
              "Debugging settings are available again"
          else l.daemon) := by
        split
        · exact hrefl.congr (log_services _)
        · exact hrefl
      revert hnote
      generalize (if l.daemon.reason = settingsUnavailable then _ else l.daemon) = d
      intro hnote
      split
      · exact networkCheck_carries hnote
      · exact hnote
  · exact hrefl

/-- A section carries the services over, unless it reaps, starts a service or
serves CloseService. -/
theorem step_carries (codec : KeyCodec) {env : Env} {part : Section} {l : MainLoop}
    (hreap : part ≠ .reap)
    (hidle : ∀ r, part.request = some r → r.starts = none ∧ r.closes = false) :
    Carries l.daemon (l.step codec env part).daemon := by
  unfold step
  split
  · exact .refl _
  · cases part with
    | control request => exact (control_carries request).final (.refl _)
    | windowExpiry => exact windowExpiry_carries _
    | rotation => exact rotation_carries _
    | worker arrival => exact receive_carries codec _ arrival hidle
    | reap => exact absurd rfl hreap
    | checks => exact checks_carries env { l with clock := env.now }
    | shutdown =>
        have hquit : Carries l.daemon { l.daemon with quit := true } :=
          (Carries.refl l.daemon).congr rfl
        exact stop_carries hquit "disabled" "Service stopped"

theorem request_eq_some {part : Section} {r : Request} (h : part.request = some r) :
    ∃ id, part = .worker (.message (.request id r) []) := by
  unfold Section.request at h
  split at h
  · next id r' =>
    obtain rfl := Option.some.inj h
    exact ⟨id, rfl⟩
  · cases h

/-- A request reaches the supervisor only while there is a worker. -/
theorem step_unserved (codec : KeyCodec) {env : Env} {l : MainLoop} (arrival : Arrival)
    (h : ¬(l.daemon.quit = false ∧ l.daemon.worker.isSome)) :
    (l.step codec env (.worker arrival)).daemon = l.daemon := by
  unfold step
  split
  · rfl
  · next hquit =>
    have hnone : l.daemon.worker.isNone = true := by
      rw [Option.isNone_iff_eq_none, ← Option.not_isSome_iff_eq_none]
      exact fun hworker => h ⟨Bool.eq_false_iff.mpr hquit, hworker⟩
    simp [Daemon.receive, hnone]

/-- The services after a section that does not reap and does not serve
CloseService. -/
theorem step_services (codec : KeyCodec) {env : Env} {part : Section} {l : MainLoop}
    (hreap : part ≠ .reap) (hcloses : ∀ r, part.request = some r → r.closes = false) :
    Carries l.daemon (l.step codec env part).daemon ∨
      ∃ r transport s, part.request = some r ∧ r.starts = some transport ∧
        l.daemon.Starts env transport (l.step codec env part).daemon s := by
  by_cases hstarts : ∃ r transport, part.request = some r ∧ r.starts = some transport
  · obtain ⟨r, transport, hrequest, htransport⟩ := hstarts
    obtain ⟨id, rfl⟩ := request_eq_some hrequest
    by_cases hrun : l.daemon.quit = false ∧ l.daemon.worker.isSome
    · obtain ⟨hquit, hworker⟩ := hrun
      obtain ⟨w, hworker⟩ := Option.isSome_iff_exists.mp hworker
      rw [step_request hquit hworker]
      obtain hcarries | ⟨s, hs⟩ := serve_starts codec id htransport
      · exact .inl hcarries
      · exact .inr ⟨r, transport, s, hrequest, htransport, hs⟩
    · left
      rw [step_unserved codec _ hrun]
      exact .refl _
  · refine .inl (step_carries codec hreap fun r hr => ⟨?_, hcloses r hr⟩)
    cases h : r.starts with
    | none => rfl
    | some transport => exact absurd ⟨r, transport, hr, h⟩ hstarts

end MainLoop

end Altdb
