import Altdb.DaemonMessages
import Altdb.MessageSize

/-!
# The supervisor sends nothing too large

In every run of the supervisor on a store that started empty, the host list,
the endpoints and the identity stay within their limits, so that every message
which is built of them passes the check of `ipc::send`, however the operating
system and the worker behave.
-/

namespace Altdb

open Fallible JsonText Relation

/-! ## Listening sockets -/

namespace Network

/-- `network::listeners`.  `listen` opens the socket of an endpoint and returns
its port. -/
def listeners (listen : Endpoint → Except String (UInt16 × Fd)) :
    List Endpoint → UInt16 → Except String (List Endpoint × List Fd)
  | [], _ => .ok ([], [])
  | original :: rest, chosen => do
      let (port, fd) ← listen { original with port := chosen }
      let (endpoints, result) ← listeners listen rest port
      return ({ original with port := port } :: endpoints, fd :: result)

/-- The loop of `mdns::sockets`, with the interfaces that it has seen. -/
def socketsFrom (join : Endpoint → Except String Fd) (seen : List UInt32) :
    List Endpoint → Except String (List Endpoint × List Fd)
  | [] => .ok ([], [])
  | ep :: rest =>
      if ep.index ∈ seen then socketsFrom join seen rest
      else do
        let fd ← join ep
        let (specs, sockets) ← socketsFrom join (ep.index :: seen) rest
        return (ep :: specs, fd :: sockets)

/-- `mdns::sockets`. -/
def sockets (test : Bool) (join : Endpoint → Except String Fd)
    (endpoints : List Endpoint) : Except String (List Endpoint × List Fd) :=
  if test then .ok ([], []) else socketsFrom join [] endpoints

theorem listeners_spec {listen : Endpoint → Except String (UInt16 × Fd)}
    {addresses endpoints : List Endpoint} {port : UInt16} {fds : List Fd}
    (h : listeners listen addresses port = .ok (endpoints, fds)) :
    endpoints.map Endpoint.interface = addresses.map Endpoint.interface ∧
      fds.length = addresses.length := by
  induction addresses generalizing endpoints port fds with
  | nil =>
      obtain ⟨rfl, rfl⟩ : [] = endpoints ∧ [] = fds := by
        simpa [listeners] using h
      exact ⟨rfl, rfl⟩
  | cons original rest ih =>
      cases hbind : listen { original with port := port } with
      | error e => simp [listeners, hbind, Bind.bind, Except.bind] at h
      | ok opened =>
          cases hrest : listeners listen rest opened.1 with
          | error e => simp [listeners, hbind, hrest, Bind.bind, Except.bind] at h
          | ok result =>
              obtain ⟨rfl, rfl⟩ : { original with port := opened.1 } ::
                  result.1 = endpoints ∧ opened.2 :: result.2 = fds := by
                simpa [listeners, hbind, hrest, Bind.bind, Except.bind, pure,
                  Except.pure] using h
              obtain ⟨hnames, hlength⟩ := ih hrest
              exact ⟨by simp [hnames], by simp [hlength]⟩

theorem socketsFrom_spec {join : Endpoint → Except String Fd}
    {seen : List UInt32} {endpoints specs : List Endpoint} {fds : List Fd}
    (h : socketsFrom join seen endpoints = .ok (specs, fds)) :
    specs.Sublist endpoints ∧ fds.length = specs.length := by
  induction endpoints generalizing seen specs fds with
  | nil =>
      obtain ⟨rfl, rfl⟩ : [] = specs ∧ [] = fds := by
        simpa [socketsFrom] using h
      exact ⟨.refl _, rfl⟩
  | cons ep rest ih =>
      rw [socketsFrom] at h
      split at h
      · obtain ⟨hsub, hlength⟩ := ih h
        exact ⟨hsub.cons ep, hlength⟩
      · cases hjoin : join ep with
        | error e => simp [hjoin, Bind.bind, Except.bind] at h
        | ok fd =>
            cases hrest : socketsFrom join (ep.index :: seen) rest with
            | error e => simp [hjoin, hrest, Bind.bind, Except.bind] at h
            | ok result =>
                obtain ⟨rfl, rfl⟩ : ep :: result.1 = specs ∧
                    fd :: result.2 = fds := by
                  simpa [hjoin, hrest, Bind.bind, Except.bind, pure,
                    Except.pure] using h
                obtain ⟨hsub, hlength⟩ := ih hrest
                exact ⟨hsub.cons_cons ep, by simp [hlength]⟩

end Network

/-- A list of endpoints with a socket for each. -/
structure SocketsBounded (endpoints : List Endpoint) (fds : List Fd) : Prop where
  endpoints : EndpointsBounded endpoints
  fds : fds.length ≤ 32

theorem EndpointsBounded.listeners
    {listen : Endpoint → Except String (UInt16 × Fd)}
    {addresses endpoints : List Endpoint} {port : UInt16} {fds : List Fd}
    (h : EndpointsBounded addresses)
    (hopened : Network.listeners listen addresses port = .ok (endpoints, fds)) :
    SocketsBounded endpoints fds := by
  obtain ⟨hnames, hlength⟩ := Network.listeners_spec hopened
  have hcount : endpoints.length = addresses.length := by
    simpa using congrArg List.length hnames
  refine ⟨⟨hcount ▸ h.length_le, fun ep hmem => ?_⟩, hlength ▸ h.length_le⟩
  have hname : ep.interface ∈ addresses.map Endpoint.interface :=
    hnames ▸ List.mem_map_of_mem hmem
  obtain ⟨original, horiginal, heq⟩ := List.mem_map.mp hname
  exact heq ▸ h.names original horiginal

theorem EndpointsBounded.sockets {test : Bool}
    {join : Endpoint → Except String Fd}
    {endpoints specs : List Endpoint} {fds : List Fd}
    (h : EndpointsBounded endpoints)
    (hopened : Network.sockets test join endpoints = .ok (specs, fds)) :
    SocketsBounded specs fds := by
  unfold Network.sockets at hopened
  split at hopened
  · obtain ⟨rfl, rfl⟩ : [] = specs ∧ [] = fds := by simpa using hopened
    exact ⟨⟨by simp, by simp⟩, by simp⟩
  · obtain ⟨hsub, hlength⟩ := Network.socketsFrom_spec hopened
    have hcount := hsub.length_le.trans h.length_le
    exact ⟨⟨hcount, fun ep hmem => h.names ep (hsub.subset hmem)⟩,
      hlength ▸ hcount⟩

/-! ## The supervisor -/

/-- The network code and the clock keep their promises. -/
structure Env.Limited (env : Env) : Prop where
  discovered : ∀ addresses, env.discovered = .ok addresses →
    EndpointsBounded addresses
  listeners : ∃ listen, env.listeners = Network.listeners listen
  mdnsSockets : ∃ test join, env.mdnsSockets = Network.sockets test join
  pairingCode : ∀ code, env.pairingCode = .ok code → PairingCode code
  unixTime : env.unixTime < 2 ^ 64

structure Bundle.Limited (bundle : Bundle) : Prop where
  tcp : SocketsBounded bundle.endpoints bundle.tcp
  mdns : SocketsBounded bundle.mdnsSpecs bundle.mdns

/-- The numbers of the message are `u64`. -/
def Message.InRange : Message → Prop
  | .pairStart epoch _ _ => epoch < 2 ^ 64
  | _ => True

/-- A message that can be sent, if it is no reply. -/
def Sendable (message : Message) (fds : List Fd) : Prop :=
  message.Quiet → message.InRange → checkSize message.text fds = .ok ()

namespace Daemon

/-- Whatever the supervisor holds is within its limit. -/
structure Limited (digest : Bytes → Option Digest) (d : Daemon) : Prop where
  store : d.store.Sound digest
  identity : IdentityBounded d.store.identity
  bundle : ∀ bundle ∈ d.bundle, bundle.Limited
  sent : ∀ w ∈ d.worker, ∀ item ∈ w.inbox, Sendable item.1 item.2
  starts : ∀ s ∈ d.services, s.child.start.name.utf8ByteSize ≤ 4096

variable {digest : Bytes → Option Digest} {env : Env} {d d' : Daemon}

/-! ## Messages of a limited supervisor -/

theorem Limited.boot (h : d.Limited digest) {bundle : Bundle}
    (hbundle : bundle.Limited) :
    checkSize (d.boot bundle).text (bundle.tcp ++ bundle.mdns) = .ok () := by
  refine checkSize_ok (size_boot h.identity h.store hbundle.tcp.endpoints
    hbundle.mdns.endpoints d.test) ?_
  have htcp := hbundle.tcp.fds
  have hmdns := hbundle.mdns.fds
  simp only [List.length_append, maxFds]
  omega

theorem Limited.hostList (h : d.Limited digest) :
    checkSize (Message.hosts d.store.hosts).text [] = .ok () :=
  checkSize_ok (size_hostList h.store) (by decide)

theorem pairStart_fits {epoch : ℕ} (hepoch : epoch < 2 ^ 64) {code : String}
    (hcode : PairingCode code) {endpoints : List Endpoint} {tcp : List Fd}
    (hsockets : SocketsBounded endpoints tcp) :
    checkSize (Message.pairStart epoch code endpoints).text tcp = .ok () := by
  have htcp := hsockets.fds
  exact checkSize_ok (size_pairStart hepoch hcode hsockets.endpoints)
    (htcp.trans (by decide))

/-- The other messages have a fixed text. -/
theorem sendable_fixed {message : Message} (h : message = .pairStop ∨
    message = .pairCommitted) : Sendable message [] := by
  intro _ _
  rcases h with rfl | rfl
  · exact checkSize_ok (by decide) (by decide)
  · exact checkSize_ok (by decide) (by decide)

/-! ## Bookkeeping -/

theorem Limited.congr (h : d.Limited digest) (hstore : d'.store = d.store)
    (hbundle : d'.bundle = d.bundle) (hworker : d'.worker = d.worker)
    (hservices : d'.services = d.services) : d'.Limited digest where
  store := hstore ▸ h.store
  identity := hstore ▸ h.identity
  bundle := hbundle ▸ h.bundle
  sent := hworker ▸ h.sent
  starts := hservices ▸ h.starts

theorem Limited.log (h : d.Limited digest) (message : String) :
    (d.log env message).Limited digest :=
  h.congr (by simp only [Daemon.log]) (by simp only [Daemon.log])
    (by simp only [Daemon.log]) (by simp only [Daemon.log])

/-- No worker and no services are left. -/
theorem Limited.stopWorker (h : d.Limited digest) :
    d.stopWorker.Limited digest where
  store := h.store
  identity := h.identity
  bundle := h.bundle
  sent := by simp [Daemon.stopWorker]
  starts := by simp [Daemon.stopWorker]

theorem Limited.stop (h : d.Limited digest) (state reason : String) :
    (d.stop env state reason).Limited digest := by
  obtain ⟨logs, retryAt, failures, heq⟩ := @stop_eq env d state reason
  rw [heq]
  split
  · exact { h.stopWorker with bundle := by simp }
  · exact { h with bundle := by simp }

theorem Limited.services (h : d.Limited digest) {f : Service → Service}
    (hf : ∀ s, (f s).child.start = s.child.start) :
    { d with services := d.services.map f }.Limited digest := by
  refine { h with starts := fun s hs => ?_ }
  obtain ⟨old, hold, rfl⟩ := List.mem_map.mp hs
  rw [hf]
  exact h.starts old hold

theorem Limited.disconnect (h : d.Limited digest) (transport : ℕ) :
    (d.disconnect env transport).Limited digest := by
  have hservices := @Limited.services digest d h
    (fun s => if s.transport = transport then s.stop env else s)
    fun s => by split <;> simp
  exact { hservices with }

/-- The store may change while its identity stays. -/
theorem Limited.withStore (h : d.Limited digest) {store : Store}
    (hstore : store.Sound digest) (hidentity : store.identity = d.store.identity) :
    { d with store := store }.Limited digest :=
  { h with
    store := hstore
    identity := hidentity ▸ h.identity }

/-! ## Methods -/

theorem send_limited {message : Message} {fds : List Fd}
    (hmessage : Sendable message fds) :
    Preserves (Limited digest) (send env message fds) := by
  intro d h
  refine wp_mono (send_spec message fds) ?_ ?_
  · rintro _ d' ⟨w, hworker, -, rfl⟩
    refine { h with sent := fun w' hw' item hitem => ?_ }
    obtain rfl := Option.some_inj.mp hw'
    rcases List.mem_append.mp hitem with hold | hnew
    · exact h.sent w hworker item hold
    · rw [List.mem_singleton.mp hnew]
      exact hmessage
  · rintro _ d' ⟨rfl, -⟩
    exact h

theorem startWorker_limited : Preserves (Limited digest) (startWorker env) := by
  unfold startWorker
  refine .get_bind fun d h => ?_
  cases hbundle : d.bundle with
  | none => exact .throw _
  | some bundle =>
      have hlimited := h.bundle bundle hbundle
      refine .bind (.lift _) fun fds => .bind (.lift _) fun pid =>
        .bind (.lift _) fun _ => .modify fun d' h' => ?_
      have hboot : Sendable (d'.boot bundle) (bundle.tcp ++ bundle.mdns) :=
        fun _ _ => h'.boot hlimited
      refine { h' with sent := fun w hw item hitem => ?_ }
      obtain rfl := Option.some_inj.mp hw
      obtain rfl := List.mem_singleton.mp hitem
      exact hboot

theorem start_limited (henv : env.Limited) {addresses : List Endpoint}
    (haddresses : EndpointsBounded addresses) :
    Preserves (Limited digest) (start env addresses) := by
  obtain ⟨listen, hlisten⟩ := henv.listeners
  obtain ⟨test, join, hjoin⟩ := henv.mdnsSockets
  unfold start
  rw [hlisten, hjoin]
  refine .get_bind fun d _ => .lift_bind fun opened hopened => ?_
  have htcp := haddresses.listeners hopened
  refine .lift_bind fun joined hjoined => ?_
  have hmdns := htcp.endpoints.sockets hjoined
  refine .bind (.modify fun d' h' => ?_) fun _ => startWorker_limited
  refine { h' with bundle := fun bundle hbundle => ?_ }
  obtain rfl := Option.some_inj.mp hbundle
  exact ⟨htcp, hmdns⟩

theorem pairStop_limited : Preserves (Limited digest) (pairStop env) := by
  unfold pairStop
  refine .bind (.modify fun d h => h.congr rfl rfl rfl rfl) fun _ => ?_
  exact .bind (.attempt (send_limited (sendable_fixed (.inl rfl)))) fun _ =>
    .pure _

theorem onStore_limited {α : Type} {method : EStateM String Store α}
    (hmethod : ∀ store, store.Sound digest →
      wp method
        (fun _ store' => store'.Sound digest ∧ store'.identity = store.identity)
        (fun _ store' => store'.Sound digest ∧ store'.identity = store.identity)
        store) :
    Preserves (Limited digest) (onStore method) := by
  intro d h
  rw [wp_onStore]
  refine wp_mono (hmethod d.store h.store) ?_ ?_
  · rintro _ store ⟨hsound, hidentity⟩
    exact h.withStore hsound hidentity
  · rintro _ store ⟨hsound, hidentity⟩
    exact h.withStore hsound hidentity

theorem controlPairStart_limited (henv : env.Limited) :
    Preserves (Limited digest) (controlPairStart env) := by
  obtain ⟨listen, hlisten⟩ := henv.listeners
  unfold controlPairStart
  rw [hlisten]
  refine .get_bind fun _ _ => .bind (.ensure _ _) fun _ =>
    .bind (.ensure _ _) fun _ => .bind pairStop_limited fun _ =>
    .get_bind fun d h => ?_
  cases hbundle : d.bundle with
  | none => exact .throw _
  | some bundle =>
      have haddresses := (h.bundle bundle hbundle).tcp.endpoints
      refine .lift_bind fun opened hopened => ?_
      have htcp := haddresses.listeners hopened
      refine .lift_bind fun code hcode => ?_
      refine .bind (.modify fun d h => h.congr rfl rfl rfl rfl) fun _ => ?_
      refine .get_bind fun d' _ => ?_
      have hsend : Sendable (.pairStart d'.epoch code opened.1) opened.2 :=
        fun _ hepoch => pairStart_fits hepoch (henv.pairingCode code hcode) htcp
      refine .bind (send_limited hsend) fun _ => ?_
      refine .bind (.modify fun d h => h.congr rfl rfl rfl rfl) fun _ => ?_
      exact .modify fun d h => h.log _

theorem configure_limited (config : Config) :
    Preserves (Limited digest) (onStore (Store.configure env.saved config)) := by
  refine onStore_limited fun store h => ?_
  refine wp_mono (Store.configure_spec config) ?_ ?_
  · rintro _ store' ⟨hvalid, -, rfl⟩
    exact ⟨h.withConfig hvalid, rfl⟩
  · rintro _ store' ⟨-, rfl⟩
    exact ⟨h, rfl⟩

theorem revoke_limited (fingerprint : String) :
    Preserves (Limited digest) (onStore (Store.revoke env.saved fingerprint)) := by
  refine onStore_limited fun store h => ?_
  refine wp_mono (Store.revoke_spec fingerprint) ?_ ?_
  · rintro _ store' ⟨-, rfl⟩
    exact ⟨h.without fingerprint, rfl⟩
  · rintro _ store' ⟨-, rfl⟩
    exact ⟨h, rfl⟩

theorem connected_limited (henv : env.Limited) (fingerprint : String) :
    Preserves (Limited digest)
      (onStore (Store.connected env.saved env.unixTime fingerprint)) := by
  refine onStore_limited fun store h => ?_
  refine wp_mono (Store.connected_spec env.unixTime fingerprint) ?_ ?_
  · rintro _ store' ⟨-, -, rfl⟩
    exact ⟨h.markConnected henv.unixTime fingerprint, rfl⟩
  · rintro _ store' rfl
    exact ⟨h, rfl⟩

theorem pair_limited (henv : env.Limited) (key : String) :
    Preserves (Limited digest)
      (onStore (Store.pair (androidCodec digest) env.saved env.unixTime key)) := by
  refine onStore_limited fun store h => ?_
  refine wp_mono (Store.pair_hosts (androidCodec digest) env.unixTime key) ?_ ?_
  · rintro fp store' ⟨-, hosts, hpair, rfl⟩
    exact ⟨h.pairing henv.unixTime hpair, rfl⟩
  · rintro _ store' rfl
    exact ⟨h, rfl⟩

theorem controlConfigure_limited (config : Config) :
    Preserves (Limited digest) (controlConfigure env config) := by
  unfold controlConfigure
  refine .get_bind fun d _ => .bind (configure_limited config) fun _ =>
    .get_bind fun d' _ => ?_
  have hlog : Preserves (Limited digest)
      (modify (log env "Configuration saved") : EStateM String Daemon PUnit) :=
    .modify fun d h => h.log _
  refine .ite (.ite (.bind (.modify fun d h => h.stop _ _) fun _ => hlog) ?_)
    (.pure _)
  refine .bind (.modify fun d h => h.stopWorker) fun _ =>
    .bind (.modify fun d h => h.congr rfl rfl rfl rfl) fun _ =>
    .get_bind fun d _ => ?_
  exact .ite (.bind startWorker_limited fun _ => hlog) hlog

theorem foldl_disconnect_limited (h : d.Limited digest) (ids : List ℕ) :
    (ids.foldl (fun d id => d.disconnect env id) d).Limited digest := by
  induction ids generalizing d with
  | nil => exact h
  | cons id rest ih => exact ih (h.disconnect id)

theorem controlRevoke_limited (fingerprint : String) :
    Preserves (Limited digest) (controlRevoke env fingerprint) := by
  have hlog : Preserves (Limited digest) (modify
      (log env "Host authorization revoked") : EStateM String Daemon PUnit) :=
    .modify fun d h => h.log _
  unfold controlRevoke
  refine .bind (revoke_limited fingerprint) fun _ => .get_bind fun d _ =>
    .bind (.modify fun d h => foldl_disconnect_limited h _) fun _ =>
    .get_bind fun d _ => .ite (.get_bind fun d h => ?_) hlog
  exact .bind (send_limited fun _ _ => h.hostList) fun _ => hlog

theorem control_limited (henv : env.Limited) (request : Control) :
    Preserves (Limited digest) (control env request) := by
  have hstatus : Preserves (Limited digest)
      (do return .status (← get).status : EStateM String Daemon ControlReply) :=
    .get_bind fun _ _ => .pure _
  cases request with
  | status => exact hstatus
  | logs => exact .get_bind fun _ _ => .pure _
  | pairStart => exact .bind (controlPairStart_limited henv) fun _ => hstatus
  | pairStop =>
      exact .bind pairStop_limited fun _ =>
        .bind (.modify fun d h => h.log _) fun _ => hstatus
  | configure config =>
      exact .bind (controlConfigure_limited config) fun _ => hstatus
  | revoke fingerprint =>
      exact .bind (controlRevoke_limited fingerprint) fun _ => hstatus
  | stop =>
      exact .bind (.modify fun d h => h.congr rfl rfl rfl rfl) fun _ =>
        .bind (.modify fun d h => h.stop _ _) fun _ => hstatus

/-! ## Requests -/

theorem Limited.push (h : d.Limited digest) {s : Service}
    (hname : s.child.start.name.utf8ByteSize ≤ 4096) :
    { d with services := d.services ++ [s] }.Limited digest := by
  refine { h with starts := fun s' hs' => ?_ }
  rcases List.mem_append.mp hs' with hold | hnew
  · exact h.starts s' hold
  · rw [List.mem_singleton.mp hnew]
    exact hname

theorem spawnService_limited (transport : ℕ) (name : String) (bind : Bool) :
    Preserves (Limited digest) (spawnService env transport name bind) := by
  have hpush (s : Service) (hname : s.child.start.name.utf8ByteSize ≤ 4096) :
      Preserves (Limited digest)
        (modify fun d => { d with services := d.services ++ [s] } :
          EStateM String Daemon PUnit) :=
    .modify fun d h => h.push hname
  unfold spawnService
  refine .get_bind fun d _ => .bind (.ensure _ _) fun _ =>
    .bind (.ensure _ _) fun _ => .ensure_bind fun ⟨hname, _⟩ => ?_
  refine .bind (.lift _) fun _ => .bind (.lift _) fun _ =>
    .bind (.lift _) fun data => .bind (.lift _) fun pid =>
    .bind (.lift _) fun _ => ?_
  dsimp only
  refine .ite (.ite (.bind (hpush _ ?_) fun _ => .throw _) ?_)
    (.bind (hpush _ hname) fun _ => .pure _)
  · simpa using hname
  · cases env.bindReply with
    | ok answer => exact .bind (hpush _ hname) fun _ => .pure _
    | error error =>
        refine .bind (hpush _ ?_) fun _ => .throw _
        simpa using hname

theorem requestAuthenticated_limited (henv : env.Limited) (transport : ℕ)
    (fp : String) :
    Preserves (Limited digest) (requestAuthenticated env transport fp) := by
  unfold requestAuthenticated
  refine .get_bind fun _ _ => .bind (.ensure _ _) fun _ =>
    .bind (connected_limited henv fp) fun _ =>
    .bind (.modify fun d h => h.congr rfl rfl rfl rfl) fun _ => ?_
  exact .modify fun d h => h.log _

theorem requestRoot_limited (transport : ℕ) (enable : Bool) :
    Preserves (Limited digest) (requestRoot env transport enable) := by
  unfold requestRoot
  refine .get_bind fun d _ => .bind (.ensure _ _) fun _ =>
    .bind (.ensure _ _) fun _ => .ite (.pure _) ?_
  exact .bind (.modify fun d h => h.congr rfl rfl rfl rfl) fun _ => .pure _

theorem requestPairResult_limited (henv : env.Limited) (epoch : ℕ)
    (key : Option String) :
    Preserves (Limited digest)
      (requestPairResult (androidCodec digest) env epoch key) := by
  unfold requestPairResult
  refine .get_bind fun d _ => ?_
  cases d.window with
  | none => exact .throw _
  | some window =>
      refine .bind (.ensure _ _) fun _ => ?_
      cases key with
      | some key =>
          refine .bind (pair_limited henv key) fun _ =>
            .bind (.modify fun d h => h.congr rfl rfl rfl rfl) fun _ =>
            .bind (send_limited (sendable_fixed (.inr rfl))) fun _ =>
            .get_bind fun d h => .bind (send_limited fun _ _ => h.hostList)
              fun _ => .modify fun d h => h.log _
      | none =>
          refine .bind (.modify fun d h => h.congr rfl rfl rfl rfl) fun _ => ?_
          have hlog : Preserves (Limited digest) (modify
              (log env "Pairing authentication failed") :
                EStateM String Daemon PUnit) := .modify fun d h => h.log _
          exact .ite (.bind pairStop_limited fun _ => hlog) hlog

theorem request_limited (henv : env.Limited) (r : Request) :
    Preserves (Limited digest) (request (androidCodec digest) env r) := by
  cases r with
  | authenticated transport fp =>
      exact .bind (requestAuthenticated_limited henv transport fp) fun _ =>
        .pure _
  | disconnected transport =>
      exact .bind (.modify fun d h => h.disconnect transport) fun _ => .pure _
  | spawn transport name => exact spawnService_limited transport name false
  | closeService transport service =>
      refine .bind (.modify fun d h => h.services fun s => ?_) fun _ => .pure _
      split <;> rfl
  | root transport enable =>
      exact .bind (requestRoot_limited transport enable) fun _ => .pure _
  | pairResult epoch key =>
      exact .bind (requestPairResult_limited henv epoch key) fun _ => .pure _
  | bindReverse transport spec => exact spawnService_limited transport spec true
  | closeReverse transport spec =>
      refine .bind (.modify fun d h => h.services fun s => ?_) fun _ => .pure _
      split
      · exact Service.stop_start env s
      · rfl

/-! ## Sections -/

theorem Limited.windowExpiry (h : d.Limited digest) :
    (d.windowExpiry env).Limited digest := by
  unfold Daemon.windowExpiry
  split
  · exact h
  · split
    · exact (pairStop_limited.final h).log _
    · exact h

theorem Limited.rotation (h : d.Limited digest) :
    (d.rotation env).Limited digest := by
  unfold Daemon.rotation
  split
  · have hstopped : Limited digest { d with rotate := none }.stopWorker :=
      h.stopWorker.congr rfl rfl rfl rfl
    have hstart := (@startWorker_limited digest env).final hstopped
    split <;> rename_i hrun <;> rw [hrun] at hstart
    · exact hstart
    · exact hstart.stop _ _
  · exact h

theorem sendable_reply (id : ℕ) (ok : Bool) (text : String) (fds : List Fd) :
    Sendable (.reply id ok text) fds := fun hquiet _ => absurd rfl (hquiet id ok text)

theorem Limited.serve (henv : env.Limited) (h : d.Limited digest) (id : ℕ)
    (r : Request) :
    (d.serve (androidCodec digest) env id r).Limited digest := by
  have hserved := (request_limited henv r).final h
  unfold Daemon.serve
  split <;> rename_i hrun <;> rw [hrun] at hserved
  · exact (send_limited (sendable_reply _ _ _ _)).final hserved
  · exact (send_limited (sendable_reply _ _ _ _)).final hserved

theorem Limited.receive (henv : env.Limited) (h : d.Limited digest)
    (arrival : Arrival) :
    (d.receive (androidCodec digest) env arrival).Limited digest := by
  unfold Daemon.receive
  split
  · exact h
  · split
    · have hready : Limited digest { d with state := "running", reason := "" } :=
        h.congr rfl rfl rfl rfl
      exact hready.log _
    · exact h.serve henv _ _
    · exact h.stop _ _
    · exact h.stop _ _
    · exact h.stop _ _

theorem Limited.reap (h : d.Limited digest) : (d.reap env).Limited digest := by
  refine { h with starts := fun s hs => ?_ }
  obtain ⟨old, hold, rfl⟩ := List.mem_map.mp (List.mem_of_mem_filter hs)
  have hname := h.starts old hold
  split
  · simpa using hname
  · exact hname

theorem Limited.networkCheck (henv : env.Limited) (h : d.Limited digest) :
    (d.networkCheck env).Limited digest := by
  unfold Daemon.networkCheck
  split
  · exact h.stop _ _
  · exact h.stop _ _
  · rename_i addresses _ hfound
    extract_lets changed
    split
    · have hstopped := @Limited.stop digest env d h "starting"
        "Network changed; starting service"
      have hstarted :=
        (start_limited henv (henv.discovered addresses hfound)).final hstopped
      split <;> rename_i hrun <;> rw [hrun] at hstarted
      · exact hstarted
      · exact hstarted.stop _ _
    · exact h

end Daemon

namespace MainLoop

variable {digest : Bytes → Option Digest} {env : Env} {l : MainLoop}

theorem checks_limited (henv : env.Limited) (h : l.daemon.Limited digest) :
    (l.checks env).daemon.Limited digest := by
  unfold checks
  split
  · dsimp only
    split
    · exact h.stop _ _
    · split
      · exact h.stop _ _
      · split
        · have hreason : Daemon.Limited digest
              { l.daemon with reason := settingsUnavailable } :=
            h.congr rfl rfl rfl rfl
          exact hreason.log _
        · exact h
      · have hlogged : Daemon.Limited digest
            (if l.daemon.reason = settingsUnavailable then
              Daemon.log env "Debugging settings are available again"
                { l.daemon with reason := "" }
            else l.daemon) := by
          split
          · have hreason : Daemon.Limited digest { l.daemon with reason := "" } :=
              h.congr rfl rfl rfl rfl
            exact hreason.log _
          · exact h
        generalize (if l.daemon.reason = settingsUnavailable then
          Daemon.log env "Debugging settings are available again"
            { l.daemon with reason := "" } else l.daemon) = d at hlogged ⊢
        split
        · exact hlogged.networkCheck henv
        · exact hlogged
  · exact h

theorem step_limited (henv : env.Limited) (h : l.daemon.Limited digest)
    (part : Section) :
    (l.step (androidCodec digest) env part).daemon.Limited digest := by
  unfold step
  split
  · exact h
  · cases part with
    | control request => exact (Daemon.control_limited henv request).final h
    | windowExpiry => exact h.windowExpiry
    | rotation => exact h.rotation
    | worker arrival => exact h.receive henv arrival
    | reap => exact h.reap
    | checks => exact checks_limited henv h
    | shutdown =>
        have hquit : Daemon.Limited digest { l.daemon with quit := true } :=
          h.congr rfl rfl rfl rfl
        exact hquit.stop _ _

end MainLoop

end Altdb
