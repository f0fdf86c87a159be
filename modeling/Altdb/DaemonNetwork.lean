import Altdb.Network

/-!
# The network of the supervisor

The supervisor listens on the addresses that it has discovered and on no others, all
at the port of its configuration, and opens the pairing window at the same addresses.
This holds in every state of every run; a network check brings the addresses up to
date, and does not touch a supervisor whose addresses are the same.  After an error
nothing is listened on until the delay of the retry is over.
-/

namespace Altdb

open Fallible Network

/-- The network functions of an environment are those of the source, on some kernel. -/
structure Env.OnNetwork (Bound : Endpoint → Fd → Prop) (env : Env) : Prop where
  discovered : ∃ k, env.discovered = discover false k
  listeners : ∃ listen, Binds listen Bound ∧ env.listeners = Network.listeners listen
  mdnsSockets : ∃ join, env.mdnsSockets = sockets false join

/-- The endpoints without their ports. -/
def Bundle.addresses (b : Bundle) : List Endpoint := b.endpoints.map (·.atPort 0)

/-- The bundle was opened on what discovery has found, for the port of a configuration. -/
structure Bundle.Opened (Bound : Endpoint → Fd → Prop) (port : UInt16) (b : Bundle) : Prop where
  found : ∃ k entries, k.getifaddrs = some entries ∧ Kernel.Found k entries b.addresses
  nonempty : b.endpoints ≠ []
  port : ∃ chosen, chosen ≠ 0 ∧ (port ≠ 0 → chosen = port) ∧
    ∀ ep ∈ b.endpoints, ep.port = chosen
  bound : List.Forall₂ Bound b.endpoints b.tcp
  joined : ∀ ep ∈ b.endpoints, ∃ spec ∈ b.mdnsSpecs, spec.index = ep.index
  once : (b.mdnsSpecs.map Endpoint.index).Nodup

namespace Daemon

/-- Nothing runs until the time of the retry, which never comes to lie before `least`. -/
structure Backoff (now least : Instant) (d : Daemon) : Prop where
  waits : now < d.retryAt → d.bundle = none ∧ d.worker = none
  delay : d.retryAt ≤ now + secs (2 ^ d.failures)
  count : d.failures ≤ 6
  later : least ≤ d.retryAt

/-- What the supervisor exposes to the network. -/
structure Exposed (Bound : Endpoint → Fd → Prop) (now least : Instant) (d : Daemon) : Prop where
  bundle : ∀ b ∈ d.bundle, b.Opened Bound d.store.config.port
  window : ∀ w ∈ d.window, ∃ b ∈ d.bundle, ∃ chosen, chosen ≠ 0 ∧
    w.endpoints = b.endpoints.map (·.atPort chosen)
  served : d.window.isSome → d.worker.isSome
  worker : d.worker.isSome → d.bundle.isSome
  running : d.state = "running" → d.bundle.isSome
  backoff : d.Backoff now least

variable {Bound : Endpoint → Fd → Prop} {now least : Instant} {env : Env} {d d' : Daemon}

/-! ## Bookkeeping -/

theorem Backoff.congr (h : d.Backoff now least) (hbundle : d'.bundle = d.bundle)
    (hworker : d'.worker.isSome = d.worker.isSome)
    (hretry : d'.retryAt = d.retryAt ∧ d'.failures = d.failures) : d'.Backoff now least where
  waits := by
    rw [hretry.1, hbundle]
    intro hnow
    obtain ⟨hnone, hidle⟩ := h.waits hnow
    rw [hidle] at hworker
    exact ⟨hnone, Option.isSome_eq_false_iff.mp hworker |> Option.isNone_iff_eq_none.mp⟩
  delay := by
    rw [hretry.1, hretry.2]
    exact h.delay
  count := by
    rw [hretry.2]
    exact h.count
  later := by
    rw [hretry.1]
    exact h.later

/-- Who runs is past the delay. -/
theorem Backoff.over (h : d.Backoff now least) (hbundle : d.bundle.isSome) :
    ¬ now < d.retryAt := by
  intro hnow
  rw [(h.waits hnow).1] at hbundle
  cases hbundle

/-- Nothing is asked of the delay when it is over. -/
theorem Backoff.restart (h : d.Backoff now least) (hover : ¬ now < d.retryAt)
    (hretry : d'.retryAt = d.retryAt ∧ d'.failures = d.failures) : d'.Backoff now least where
  waits := by
    rw [hretry.1]
    intro hnow
    exact absurd hnow hover
  delay := by
    rw [hretry.1, hretry.2]
    exact h.delay
  count := by
    rw [hretry.2]
    exact h.count
  later := by
    rw [hretry.1]
    exact h.later

theorem Exposed.congr (h : d.Exposed Bound now least)
    (hport : d'.store.config.port = d.store.config.port)
    (hbundle : d'.bundle = d.bundle) (hwindow : d'.window = d.window)
    (hworker : d'.worker.isSome = d.worker.isSome) (hstate : d'.state = d.state)
    (hretry : d'.retryAt = d.retryAt ∧ d'.failures = d.failures) :
    d'.Exposed Bound now least where
  bundle := by
    rw [hbundle, hport]
    exact h.bundle
  window := by
    rw [hwindow, hbundle]
    exact h.window
  served := by
    rw [hwindow, hworker]
    exact h.served
  worker := by
    rw [hworker, hbundle]
    exact h.worker
  running := by
    rw [hstate, hbundle]
    exact h.running
  backoff := h.backoff.congr hbundle hworker hretry

/-- Time passes. -/
theorem Exposed.later (h : d.Exposed Bound now least) {now' : Instant} (hnow : now ≤ now') :
    d.Exposed Bound now' least :=
  { h with
    backoff := {
      waits := fun hwaits => h.backoff.waits (hnow.trans_lt hwaits)
      delay := h.backoff.delay.trans (Nat.add_le_add_right hnow _)
      count := h.backoff.count
      later := h.backoff.later } }

theorem Exposed.log (h : d.Exposed Bound now least) (message : String) :
    (d.log env message).Exposed Bound now least :=
  h.congr (by simp only [Daemon.log]) (by simp only [Daemon.log]) (by simp only [Daemon.log])
    (by simp only [Daemon.log]) (by simp only [Daemon.log]) (by simp only [Daemon.log, and_self])

/-- Without a worker there is no window. -/
theorem Exposed.closed (h : d.Exposed Bound now least) (hworker : d.worker = none) :
    d.window = none := by
  cases hwindow : d.window with
  | none => rfl
  | some w =>
      have hserved := h.served (by rw [hwindow]; rfl)
      rw [hworker] at hserved
      cases hserved

theorem Exposed.withoutWindow (h : d.Exposed Bound now least) :
    { d with window := none }.Exposed Bound now least where
  bundle := h.bundle
  window := by
    intro w hw
    cases hw
  served := by
    intro hsome
    cases hsome
  worker := h.worker
  running := h.running
  backoff := h.backoff.congr rfl rfl ⟨rfl, rfl⟩

theorem Exposed.stopWorker (h : d.Exposed Bound now least) :
    d.stopWorker.Exposed Bound now least where
  bundle := h.bundle
  window := by
    intro w hw
    cases hw
  served := by
    intro hsome
    cases hsome
  worker := by
    intro hsome
    cases hsome
  running := h.running
  backoff := {
    waits := fun hnow => ⟨(h.backoff.waits hnow).1, rfl⟩
    delay := h.backoff.delay
    count := h.backoff.count
    later := h.backoff.later }

/-- Nothing is listened on without a bundle. -/
theorem exposed_of_stopped (hbundle : d.bundle = none) (hworker : d.worker = none)
    (hwindow : d.window = none) (hstate : d.state ≠ "running")
    (hbackoff : d.Backoff now least) : d.Exposed Bound now least where
  bundle := by
    rw [hbundle]
    intro b hb
    cases hb
  window := by
    rw [hwindow]
    intro w hw
    cases hw
  served := by
    rw [hwindow]
    intro hsome
    cases hsome
  worker := by
    rw [hworker]
    intro hsome
    cases hsome
  running := fun h => absurd h hstate
  backoff := hbackoff

/-- `stop` sets the time of the retry when it reports an error. -/
theorem stop_retry (state reason : String) :
    (d.stop env state reason).retryAt =
        (if state = "error" then env.now + secs (2 ^ min (d.failures + 1) 6) else d.retryAt) ∧
      (d.stop env state reason).failures =
        (if state = "error" then min (d.failures + 1) 6 else d.failures) := by
  unfold stop log stopWorker
  dsimp only
  split_ifs <;> exact ⟨rfl, rfl⟩

theorem stop_bundle_none (state reason : String) : (d.stop env state reason).bundle = none := by
  obtain ⟨logs, retryAt, failures, heq⟩ := @stop_eq env d state reason
  rw [heq]

/-- The delays grow. -/
theorem secs_two_pow_le {m n : ℕ} (h : m ≤ n) : secs (2 ^ m) ≤ secs (2 ^ n) :=
  Nat.mul_le_mul_right _ (Nat.pow_le_pow_right (by decide) h)

theorem Backoff.stop (h : d.Backoff env.now least) (state reason : String) :
    (d.stop env state reason).Backoff env.now least := by
  obtain ⟨hretry, hfailures⟩ := @stop_retry env d state reason
  have hgrows : secs (2 ^ d.failures) ≤ secs (2 ^ min (d.failures + 1) 6) := by
    apply secs_two_pow_le
    have hcount := h.count
    omega
  have hdelay := h.delay
  have hlater := h.later
  have hcount := h.count
  constructor
  · intro _
    exact ⟨stop_bundle_none _ _, stop_worker _ _⟩
  · rw [hretry, hfailures]
    split
    · exact le_rfl
    · exact hdelay
  · rw [hfailures]
    split
    · omega
    · exact hcount
  · rw [hretry]
    split
    · exact hlater.trans (hdelay.trans (Nat.add_le_add_left hgrows _))
    · exact hlater

/-- `stop` gives up the bundle, the worker and the window. -/
theorem exposed_stop (hclosed : d.worker = none → d.window = none)
    (hbackoff : d.Backoff env.now least) {state : String} (reason : String)
    (hstate : state ≠ "running") : (d.stop env state reason).Exposed Bound env.now least := by
  have hworker := @stop_worker env d state reason
  have hbundle := @stop_bundle_none env d state reason
  obtain ⟨logs, retryAt, failures, heq⟩ := @stop_eq env d state reason
  apply exposed_of_stopped hbundle hworker _ _ (hbackoff.stop state reason)
  · rw [heq]
    split
    · rfl
    · next hnone =>
      apply hclosed
      simpa using hnone
  · rw [heq]
    exact hstate

theorem Exposed.stop (h : d.Exposed Bound env.now least) {state : String} (reason : String)
    (hstate : state ≠ "running") : (d.stop env state reason).Exposed Bound env.now least :=
  exposed_stop h.closed h.backoff reason hstate

/-- A change of the store that keeps its configuration. -/
theorem onStore_exposed {α : Type} {method : EStateM String Store α}
    (hmethod : ∀ store, wp method (fun _ store' => store'.config = store.config)
      (fun _ store' => store'.config = store.config) store) :
    Preserves (Exposed Bound env.now least) (onStore method) := by
  intro d h
  rw [wp_onStore]
  apply wp_mono (hmethod d.store)
  · intro _ store hconfig
    exact h.congr (congrArg Config.port hconfig) rfl rfl rfl rfl ⟨rfl, rfl⟩
  · intro _ store hconfig
    exact h.congr (congrArg Config.port hconfig) rfl rfl rfl rfl ⟨rfl, rfl⟩

/-! ## Methods -/

theorem send_exposed (message : Message) (fds : List Fd) :
    Preserves (Exposed Bound env.now least) (send env message fds) := by
  intro d h
  apply wp_mono (send_spec message fds)
  · intro _ d' hsent
    obtain ⟨w, hworker, -, rfl⟩ := hsent
    exact h.congr rfl rfl rfl (congrArg Option.isSome hworker).symm rfl ⟨rfl, rfl⟩
  · intro _ d' hfailed
    rw [hfailed.1]
    exact h

theorem startWorker_keeps (h : d.Exposed Bound env.now least) :
    wp (startWorker env) (fun _ d' => d'.Exposed Bound env.now least ∧ d'.bundle = d.bundle)
      (fun _ d' => d' = d) d := by
  apply wp_mono startWorker_spec
  · intro _ d' hstarted
    obtain ⟨bundle, pid, fd, hbundle, -, rfl⟩ := hstarted
    refine ⟨?_, rfl⟩
    constructor
    · exact h.bundle
    · exact h.window
    · intro _
      rfl
    · intro _
      change d.bundle.isSome = true
      rw [hbundle]
      rfl
    · intro hstate
      have hstarting : "starting" ≠ "running" := by decide
      exact absurd hstate hstarting
    · have hover := h.backoff.over (hbundle ▸ rfl)
      exact h.backoff.restart hover ⟨rfl, rfl⟩
  · intro _ d' hfailed
    exact hfailed.1

theorem startWorker_exposed : Preserves (Exposed Bound env.now least) (startWorker env) := by
  intro d h
  apply wp_mono (startWorker_keeps h)
  · intro _ d' hstarted
    exact hstarted.1
  · intro _ d' hfailed
    rw [hfailed]
    exact h

/-- What is opened on discovered addresses. -/
theorem opened_listeners {k : Kernel} {addresses endpoints specs : List Endpoint}
    {tcp mdns : List Fd} {port : UInt16} (henv : env.OnNetwork Bound)
    (hfound : discover false k = .ok addresses) (hne : addresses ≠ [])
    (hlisten : env.listeners addresses port = .ok (endpoints, tcp))
    (hjoin : env.mdnsSockets endpoints = .ok (specs, mdns)) :
    Bundle.Opened Bound port ⟨endpoints, tcp, specs, mdns⟩ ∧
      Bundle.addresses ⟨endpoints, tcp, specs, mdns⟩ = addresses := by
  obtain ⟨listen, hbinds, hlisteners⟩ := henv.listeners
  obtain ⟨join, hsockets⟩ := henv.mdnsSockets
  rw [hlisteners] at hlisten
  rw [hsockets, Network.sockets, if_neg (by decide)] at hjoin
  obtain ⟨hbound, chosen, hmap, hchosen, hport⟩ := listeners_bound hbinds hlisten
  obtain ⟨hnodup, hindex⟩ := socketsFrom_index hjoin
  obtain ⟨entries, hentries, hserves⟩ := discover_found hfound
  have haddresses : Bundle.addresses ⟨endpoints, tcp, specs, mdns⟩ = addresses := by
    rw [Bundle.addresses, hmap, List.map_map]
    exact (List.map_congr_left fun ep hep => hserves.atPort_zero hep).trans
      (List.map_id addresses)
  refine ⟨?_, haddresses⟩
  constructor
  · refine ⟨k, entries, hentries, ?_⟩
    rw [haddresses]
    exact hserves
  · rw [hmap]
    simpa using hne
  · refine ⟨chosen, hchosen hne, hport, ?_⟩
    intro ep hep
    rw [hmap] at hep
    obtain ⟨original, -, rfl⟩ := List.mem_map.mp hep
    rfl
  · exact hbound
  · intro ep hep
    have hmem := (hindex ep.index).mpr ⟨List.mem_map_of_mem hep, List.not_mem_nil⟩
    exact List.mem_map.mp hmem
  · exact hnodup

/-- The supervisor opens the addresses when nothing runs. -/
theorem start_exposed {k : Kernel} {addresses : List Endpoint} (henv : env.OnNetwork Bound)
    (hfound : discover false k = .ok addresses) (hne : addresses ≠ [])
    (h : d.Exposed Bound env.now least)
    (hworker : d.worker = none) (hover : ¬ env.now < d.retryAt) :
    wp (start env addresses)
      (fun _ d' => d'.Exposed Bound env.now least ∧ ∃ b ∈ d'.bundle, b.addresses = addresses)
      (fun _ d' => d'.Exposed Bound env.now least) d := by
  have hwindow := h.closed hworker
  simp only [start, wp_bind, wp_get, wp_lift, wp_modify]
  refine ⟨fun opened hlisten => ⟨fun joined hjoin => ?_, fun _ _ => h⟩, fun _ _ => h⟩
  obtain ⟨hopened, haddresses⟩ := opened_listeners henv hfound hne hlisten hjoin
  have hexposed : Exposed Bound env.now least
      { d with bundle := some ⟨opened.1, opened.2, joined.1, joined.2⟩ } := by
    constructor
    · intro b hb
      obtain rfl := Option.some.inj hb
      exact hopened
    · intro w hw
      change w ∈ d.window at hw
      rw [hwindow] at hw
      cases hw
    · exact h.served
    · intro _
      rfl
    · intro _
      rfl
    · exact h.backoff.restart hover ⟨rfl, rfl⟩
  apply wp_mono (startWorker_keeps hexposed)
  · intro _ d' hstarted
    exact ⟨hstarted.1, _, hstarted.2, haddresses⟩
  · intro _ d' hfailed
    rw [hfailed]
    exact hexposed

theorem pairStop_exposed : Preserves (Exposed Bound env.now least) (pairStop env) := by
  unfold pairStop
  apply Preserves.bind
  · exact .modify fun d h => h.withoutWindow
  · intro _
    exact .bind (.attempt (send_exposed _ _)) fun _ => .pure _

theorem spawnService_exposed (transport : ℕ) (name : String) (bind : Bool) :
    Preserves (Exposed Bound env.now least) (spawnService env transport name bind) := by
  intro d h
  apply wp_mono (spawnService_spec transport name bind)
  · intro _ d' hspawned
    obtain ⟨s, -, rfl⟩ := hspawned
    exact h.congr rfl rfl rfl rfl rfl ⟨rfl, rfl⟩
  · intro _ d' hfailed
    rcases hfailed with rfl | ⟨s, -, -, rfl⟩
    · exact h
    · exact h.congr rfl rfl rfl rfl rfl ⟨rfl, rfl⟩

theorem requestAuthenticated_exposed (transport : ℕ) (fp : String) :
    Preserves (Exposed Bound env.now least) (requestAuthenticated env transport fp) := by
  intro d h
  apply wp_mono (requestAuthenticated_spec transport fp)
  · intro _ d' hconnected
    obtain ⟨-, -, -, logs, rfl⟩ := hconnected
    exact h.congr rfl rfl rfl rfl rfl ⟨rfl, rfl⟩
  · intro _ d' hfailed
    rw [hfailed]
    exact h

theorem requestRoot_exposed (transport : ℕ) (enable : Bool) :
    Preserves (Exposed Bound env.now least) (requestRoot env transport enable) := by
  unfold requestRoot
  refine .get_bind fun d _ => .bind (.ensure _ _) fun _ =>
    .bind (.ensure _ _) fun _ => .ite (.pure _) ?_
  exact .bind (.modify fun d h => h.congr rfl rfl rfl rfl rfl ⟨rfl, rfl⟩) fun _ => .pure _

theorem pair_exposed (codec : KeyCodec) (key : String) :
    Preserves (Exposed Bound env.now least)
      (onStore (Store.pair codec env.saved env.unixTime key)) := by
  apply onStore_exposed
  intro store
  apply wp_mono (Store.pair_spec codec env.unixTime key)
  · intro _ store' h
    obtain ⟨-, hosts, -, rfl, -⟩ := h
    rfl
  · intro _ store' h
    rw [h]

theorem requestPairResult_exposed (codec : KeyCodec) (epoch : ℕ) (key : Option String) :
    Preserves (Exposed Bound env.now least) (requestPairResult codec env epoch key) := by
  intro d h
  unfold requestPairResult
  rw [wp_bind, wp_get]
  cases hwindow : d.window with
  | none => exact h
  | some window =>
      rw [wp_bind, wp_ensure]
      refine ⟨fun _ => ?_, fun _ => h⟩
      cases key with
      | some key =>
          have hmethod : Preserves (Exposed Bound env.now least) (do
              let _ ← onStore (Store.pair codec env.saved env.unixTime key)
              modify fun d => { d with window := none }
              send env .pairCommitted []
              send env (.hosts (← get).store.hosts) []
              modify (log env "Host paired successfully")) :=
            .bind (pair_exposed codec key) fun _ =>
              .bind (.modify fun d h => h.withoutWindow) fun _ =>
              .bind (send_exposed _ _) fun _ =>
              .get_bind fun d h => .bind (send_exposed _ _) fun _ => .modify fun d h => h.log _
          exact hmethod d h
      | none =>
          rw [wp_bind, wp_modify]
          have hfailed : Exposed Bound env.now least
              { d with window := some { window with failures := window.failures + 1 } } := by
            constructor
            · exact h.bundle
            · intro w hw
              obtain rfl := Option.some.inj hw
              exact h.window window hwindow
            · intro _
              apply h.served
              rw [hwindow]
              rfl
            · exact h.worker
            · exact h.running
            · exact h.backoff.congr rfl rfl ⟨rfl, rfl⟩
          have hlog : Preserves (Exposed Bound env.now least) (modify
              (log env "Pairing authentication failed") : EStateM String Daemon PUnit) :=
            .modify fun d h => h.log _
          have hrest : Preserves (Exposed Bound env.now least) (do
              if maxPairFailures ≤ window.failures + 1 then pairStop env
              modify (log env "Pairing authentication failed")) :=
            .ite (.bind pairStop_exposed fun _ => hlog) hlog
          exact hrest _ hfailed

theorem request_exposed (codec : KeyCodec) (r : Request) :
    Preserves (Exposed Bound env.now least) (request codec env r) := by
  cases r with
  | authenticated transport fp =>
      exact .bind (requestAuthenticated_exposed transport fp) fun _ => .pure _
  | disconnected transport =>
      exact .bind (.modify fun d h => h.congr rfl rfl rfl rfl rfl ⟨rfl, rfl⟩) fun _ => .pure _
  | spawn transport name => exact spawnService_exposed transport name false
  | closeService transport service =>
      exact .bind (.modify fun d h => h.congr rfl rfl rfl rfl rfl ⟨rfl, rfl⟩) fun _ => .pure _
  | root transport enable =>
      exact .bind (requestRoot_exposed transport enable) fun _ => .pure _
  | pairResult epoch key =>
      exact .bind (requestPairResult_exposed codec epoch key) fun _ => .pure _
  | bindReverse transport spec => exact spawnService_exposed transport spec true
  | closeReverse transport spec =>
      exact .bind (.modify fun d h => h.congr rfl rfl rfl rfl rfl ⟨rfl, rfl⟩) fun _ => .pure _

/-! ## Sections -/

theorem Exposed.windowExpiry (h : d.Exposed Bound env.now least) :
    (d.windowExpiry env).Exposed Bound env.now least := by
  unfold Daemon.windowExpiry
  split
  · exact h
  · split
    · exact (pairStop_exposed.final h).log _
    · exact h

theorem Exposed.rotation (h : d.Exposed Bound env.now least) :
    (d.rotation env).Exposed Bound env.now least := by
  unfold Daemon.rotation
  split
  · have hstopped : Exposed Bound env.now least { d with rotate := none }.stopWorker :=
      h.stopWorker.congr rfl rfl rfl rfl rfl ⟨rfl, rfl⟩
    have hstart := (@startWorker_exposed Bound least env).final hstopped
    split <;> rename_i hrun <;> rw [hrun] at hstart
    · exact hstart
    · exact hstart.stop _ (by decide)
  · exact h

theorem Exposed.receive (h : d.Exposed Bound env.now least) (codec : KeyCodec) (arrival : Arrival) :
    (d.receive codec env arrival).Exposed Bound env.now least := by
  unfold Daemon.receive
  split
  · exact h
  · next hnone =>
    have hworker : d.worker.isSome := by
      cases hworker : d.worker with
      | none =>
          rw [hworker] at hnone
          exact absurd rfl hnone
      | some w => rfl
    split
    · have hready : Exposed Bound env.now least { d with state := "running", reason := "" } := by
        constructor
        · exact h.bundle
        · exact h.window
        · exact h.served
        · exact h.worker
        · intro _
          exact h.worker hworker
        · exact h.backoff.congr rfl rfl ⟨rfl, rfl⟩
      exact hready.log _
    · next id r =>
      have hserved := (@request_exposed Bound least env codec r).final h
      unfold Daemon.serve
      split <;> rename_i hrun <;> rw [hrun] at hserved
      · exact (send_exposed _ _).final hserved
      · exact (send_exposed _ _).final hserved
    · exact h.stop _ (by decide)
    · exact h.stop _ (by decide)
    · exact h.stop _ (by decide)

/-- After a network check the supervisor listens on what is found now, or on nothing. -/
theorem Exposed.networkCheck (henv : env.OnNetwork Bound) (h : d.Exposed Bound env.now least)
    (hover : ¬ env.now < d.retryAt) :
    (d.networkCheck env).Exposed Bound env.now least ∧
      ∀ b ∈ (d.networkCheck env).bundle, env.discovered = .ok b.addresses := by
  obtain ⟨k, hk⟩ := henv.discovered
  have hnone : ∀ {d : Daemon}, d.bundle = none →
      ∀ b ∈ d.bundle, env.discovered = .ok b.addresses := by
    intro d hbundle b hb
    rw [hbundle] at hb
    cases hb
  unfold Daemon.networkCheck
  split
  · exact ⟨h.stop _ (by decide), hnone (stop_bundle_none _ _)⟩
  · exact ⟨h.stop _ (by decide), hnone (stop_bundle_none _ _)⟩
  · next addresses hempty hfound =>
    extract_lets changed
    split
    · have hretry : ¬ env.now < (d.stop env "starting"
          "Network changed; starting service").retryAt := by
        rw [(stop_retry _ _).1, if_neg (by decide)]
        exact hover
      have hstopped := @Exposed.stop Bound least env d h "starting"
        "Network changed; starting service" (by decide)
      have hstarted := start_exposed henv (hk.symm.trans hfound)
        (fun hnil => hempty hnil) hstopped (stop_worker _ _) hretry
      unfold wp at hstarted
      split <;> rename_i hrun <;> rw [hrun] at hstarted
      · obtain ⟨hexposed, b, hb, haddresses⟩ := hstarted
        refine ⟨hexposed, ?_⟩
        intro b' hb'
        obtain rfl := Option.some.inj (hb.symm.trans hb')
        rw [haddresses]
        exact hfound
      · exact ⟨hstarted.stop _ (by decide), hnone (stop_bundle_none _ _)⟩
    · next hsame =>
      refine ⟨h, ?_⟩
      intro b hb
      have hbundle : d.bundle = some b := hb
      have hchanged : changed = decide (b.addresses ≠ addresses) := by
        simp only [changed, hbundle]
        rfl
      have hnot : ¬ b.addresses ≠ addresses := by
        intro hne
        apply hsame
        rw [hchanged]
        exact decide_eq_true hne
      rw [hfound, not_not.mp hnot]

end Daemon

namespace MainLoop

open Daemon

variable {Bound : Endpoint → Fd → Prop} {codec : KeyCodec} {least : Instant}
  {env : Env} {l : MainLoop}

end MainLoop

end Altdb
