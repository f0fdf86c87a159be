import Altdb.Ipc
import Altdb.ServiceName
import Std.Data.TreeMap

/-!
# The supervisor

`Daemon` is the root process.  It owns the store, the listening sockets, the
network worker and one child process for each service.  Its methods are fallible
and keep the state they reached when they fail, as in the source.  All that
the operating system and the other processes answer during one step of the
main loop is collected in `Env`.
-/

namespace Altdb

open Fallible

/-! ## State -/

inductive Signal where
  | term
  | kill
  deriving DecidableEq, Repr

/-- A service process.  `owner` is a history variable: the host for which the
process was started.  It is written once and no operation reads it. -/
structure Child where
  pid : UInt32
  start : ServiceStart
  owner : String
  signal : Option Signal
  deriving DecidableEq, Repr

structure Service where
  child : Child
  transport : ℕ
  binder : Option (String × Fd)
  stopped : Bool
  closeAt : Option Instant
  deriving DecidableEq, Repr

structure Bundle where
  endpoints : List Endpoint
  tcp : List Fd
  mdnsSpecs : List Endpoint
  mdns : List Fd
  deriving DecidableEq, Repr

/-- The network worker.  `inbox` lists the messages that were sent on its
socket with their descriptors, oldest first. -/
structure Worker where
  pid : UInt32
  fd : Fd
  inbox : List (Message × List Fd)
  deriving DecidableEq, Repr

structure Window where
  epoch : ℕ
  code : String
  expires : Instant
  expiresAt : ℕ
  failures : ℕ
  endpoints : List Endpoint
  deriving DecidableEq, Repr

structure LogEntry where
  time : ℕ
  message : String
  deriving DecidableEq, Repr

/-- The connections by transport id, each with the fingerprint of its host. -/
abbrev Transports := Std.TreeMap ℕ String

/-- `stops` is a history variable: how often `stop_worker` has run. -/
structure Daemon where
  store : Store
  test : Bool
  worker : Option Worker
  bundle : Option Bundle
  services : List Service
  transports : Transports
  window : Option Window
  root : Bool
  state : String
  reason : String
  logs : List LogEntry
  epoch : ℕ
  quit : Bool
  rotate : Option Instant
  retryAt : Instant
  failures : ℕ
  stops : ℕ

/-- What the operating system and the other processes answer in one step. -/
structure Env where
  /-- `Instant::now()`. -/
  now : Instant
  /-- `super::now()`, in seconds. -/
  unixTime : ℕ
  /-- The file operations of `store::atomic`. -/
  saved : Except String Unit
  /-- `ipc::send` to the worker. -/
  sent : Message → Except String Unit
  /-- `ipc::pair` for the first socket of a child process. -/
  pair : Except String (Fd × Fd)
  /-- The socket pair for the data of a service. -/
  dataPair : Except String (Fd × Fd)
  /-- `ipc::spawn`: the id of the new process. -/
  spawned : Except String UInt32
  /-- `ipc::send` of the start message to a new service. -/
  startSent : Except String Unit
  /-- Whether a reverse binder answers within three seconds. -/
  bindReady : Bool
  /-- The answer of a reverse binder. -/
  bindReply : Except String (String × List Fd)
  /-- `try_wait` on the process with the id has reported its end. -/
  exited : UInt32 → Bool
  listeners : List Endpoint → UInt16 → Except String (List Endpoint × List Fd)
  mdnsSockets : List Endpoint → Except String (List Endpoint × List Fd)
  pairingCode : Except String String
  propertiesChanged : Bool
  nativeProperties : Except String (Option String)
  /-- `NativeMonitor::status` for the running flag it is given. -/
  nativeStatus : Bool → Option String × Bool
  discovered : Except String (List Endpoint)

/-- The answer to a control request. -/
structure Status where
  state : String
  reason : String
  root : Bool
  config : Config
  hosts : List Host
  connections : ℕ
  endpoints : List String
  pairing : Option (String × ℕ × ℕ × List String)
  deriving DecidableEq, Repr

inductive ControlReply where
  | status (value : Status)
  | logs (entries : List LogEntry)
  deriving DecidableEq, Repr

/-! ## Services -/

def Service.stop (env : Env) (service : Service) : Service :=
  if service.stopped then service
  else if service.binder.isSome then
    { service with stopped := true, binder := none }
  else if env.exited service.child.pid then { service with stopped := true }
  else
    { service with
      stopped := true
      child := { service.child with signal := some .term } }

namespace Daemon

/-! ## Bookkeeping -/

def log (env : Env) (message : String) (d : Daemon) : Daemon :=
  let logs := d.logs ++ [⟨env.unixTime, message⟩]
  { d with logs := logs.drop (logs.length - 256) }

def status (d : Daemon) : Status where
  state := d.state
  reason := d.reason
  root := d.root
  config := d.store.config
  hosts := d.store.hosts
  connections := d.transports.size
  endpoints := match d.bundle with
    | some bundle => bundle.endpoints.map Endpoint.display
    | none => []
  pairing := d.window.map fun window =>
    (window.code, window.expiresAt, window.failures,
      window.endpoints.map Endpoint.display)

/-- Run a method of the store on the supervisor's store. -/
def onStore {α : Type} (method : EStateM String Store α) :
    EStateM String Daemon α := fun d =>
  match method d.store with
  | .ok value store => .ok value { d with store := store }
  | .error error store => .error error { d with store := store }

/-! ## The worker -/

def send (env : Env) (message : Message) (fds : List Fd) :
    EStateM String Daemon Unit := do
  match (← get).worker with
  | none => throw "network worker unavailable"
  | some worker =>
      lift (env.sent message)
      let inbox := worker.inbox ++ [(message, fds)]
      modify fun d => { d with worker := some { worker with inbox := inbox } }

/-- The worker is told to leave and, if it does not, killed.  All services are
stopped and reaped, so that none is left on return. -/
def stopWorker (d : Daemon) : Daemon :=
  { d with
    window := none
    worker := none
    services := []
    transports := ∅
    stops := d.stops + 1 }

def stop (env : Env) (state reason : String) (d : Daemon) : Daemon :=
  let d :=
    if state = "error" then
      let failures := min (d.failures + 1) 6
      { d with
        failures := failures
        retryAt := env.now + secs (2 ^ failures) }
    else d
  let d := if d.worker.isSome then d.stopWorker else d
  let d := { d with bundle := none, root := false, rotate := none }
  let d := if d.state ≠ state ∨ d.reason ≠ reason then d.log env reason else d
  { d with state := state, reason := reason }

/-- The first message of a worker. -/
def boot (d : Daemon) (bundle : Bundle) : Message :=
  .boot d.store.identity d.store.hosts bundle.endpoints bundle.mdnsSpecs d.test

def startWorker (env : Env) : EStateM String Daemon Unit := do
  let d ← get
  match d.bundle with
  | none => throw "no listening interfaces"
  | some bundle =>
      let (a, _) ← lift env.pair
      let pid ← lift env.spawned
      lift (env.sent (d.boot bundle))
      modify fun d =>
        { d with
          worker := some {
            pid := pid
            fd := a
            inbox := [(d.boot bundle, bundle.tcp ++ bundle.mdns)] }
          state := "starting"
          reason := "Checking network worker permissions" }

def start (env : Env) (addresses : List Endpoint) :
    EStateM String Daemon Unit := do
  let (endpoints, tcp) ←
    lift (env.listeners addresses (← get).store.config.port)
  let (mdnsSpecs, mdns) ← lift (env.mdnsSockets endpoints)
  modify fun d =>
    { d with bundle := some {
        endpoints := endpoints
        tcp := tcp
        mdnsSpecs := mdnsSpecs
        mdns := mdns } }
  startWorker env

def pairStop (env : Env) : EStateM String Daemon Unit := do
  modify fun d => { d with window := none }
  let _ ← attempt (send env .pairStop [])

/-! ## Control requests -/

def disconnect (env : Env) (transport : ℕ) (d : Daemon) : Daemon :=
  { d with
    transports := d.transports.erase transport
    services := d.services.map fun service =>
      if service.transport = transport then service.stop env else service }

/-- The transports of a host. -/
def transportsOf (d : Daemon) (fingerprint : String) : List ℕ :=
  (d.transports.toList.filter fun entry => entry.2 = fingerprint).map (·.1)

def controlPairStart (env : Env) : EStateM String Daemon Unit := do
  let d ← get
  ensure (d.state = "running") "Service is not running"
  ensure (d.store.hosts.length < maxHosts)
    "Paired host limit reached; revoke a host first"
  pairStop env
  match (← get).bundle with
  -- `unwrap` panics here; a running supervisor has a bundle.
  | none => throw "called unwrap on a None value"
  | some bundle =>
      let (endpoints, tcp) ← lift (env.listeners bundle.endpoints 0)
      let code ← lift env.pairingCode
      modify fun d => { d with epoch := d.epoch + 1 }
      let epoch := (← get).epoch
      send env (.pairStart epoch code endpoints) tcp
      modify fun d =>
        { d with window := some {
            epoch := epoch
            code := code
            expires := env.now + secs pairSeconds
            expiresAt := env.unixTime + pairSeconds
            failures := 0
            endpoints := endpoints } }
      modify (log env "Pairing window opened")

def controlConfigure (env : Env) (config : Config) :
    EStateM String Daemon Unit := do
  let previous := (← get).store.config
  onStore (Store.configure env.saved config)
  let current := (← get).store.config
  if previous ≠ current then
    if previous.portMode ≠ current.portMode ∨
        previous.fixedPort ≠ current.fixedPort ∨
        previous.enabled ≠ current.enabled then
      modify (stop env "disabled"
        "Configuration updated; checking startup conditions")
    else
      modify stopWorker
      modify fun d => { d with root := false }
      if (← get).bundle.isSome then startWorker env
    modify (log env "Configuration saved")

def controlRevoke (env : Env) (fingerprint : String) :
    EStateM String Daemon Unit := do
  onStore (Store.revoke env.saved fingerprint)
  let ids := (← get).transportsOf fingerprint
  modify fun d => ids.foldl (fun d id => d.disconnect env id) d
  if (← get).worker.isSome then
    send env (.hosts (← get).store.hosts) []
  modify (log env "Host authorization revoked")

def control (env : Env) : Control → EStateM String Daemon ControlReply
  | .status => return .status (← get).status
  | .logs => return .logs (← get).logs
  | .pairStart => do
      controlPairStart env
      return .status (← get).status
  | .pairStop => do
      pairStop env
      modify (log env "Pairing window closed")
      return .status (← get).status
  | .configure config => do
      controlConfigure env config
      return .status (← get).status
  | .revoke fingerprint => do
      controlRevoke env fingerprint
      return .status (← get).status
  | .stop => do
      modify fun d => { d with quit := true }
      modify (stop env "disabled" "Service stopped")
      return .status (← get).status

/-! ## Requests of the worker -/

/-- The name check of `spawn_service`. -/
def checkServiceName (name : String) (bind : Bool) : Except String Unit :=
  if bind then validateEndpoint name true
  else if name ≠ "sync:" ∧ ¬startsWith "tcp:" name ∧
      ¬startsWith "localabstract:" name ∧
      ¬startsWith "localfilesystem:" name then
    (ShellArgs.parse name).map fun _ => ()
  else .ok ()

def spawnService (env : Env) (transport : ℕ) (name : String) (bind : Bool) :
    EStateM String Daemon (String × List Fd) := do
  let d ← get
  ensure (transport ∈ d.transports) "host is no longer authorized"
  ensure ((d.services.filter fun s => s.transport = transport).length <
    maxStreams + 16) "service process limit reached"
  ensure (name.utf8ByteSize ≤ 4096 ∧ '\x00' ∉ name.toList)
    "invalid service request"
  lift (checkServiceName name bind)
  let _ ← lift env.pair
  let (data, _) ← lift env.dataPair
  let pid ← lift env.spawned
  lift env.startSent
  let service : Service := {
    child := {
      pid := pid
      start := {
        name := name
        root := d.root
        allowSu := d.store.config.allowShellRoot
        test := d.test
        bind := bind }
      owner := d.transports.getD transport ""
      signal := none }
    transport := transport
    binder := none
    stopped := false
    closeAt := none }
  let push (service : Service) : EStateM String Daemon Unit :=
    modify fun d => { d with services := d.services ++ [service] }
  if bind then
    if ¬env.bindReady then
      push (service.stop env)
      throw "reverse bind timeout"
    match env.bindReply with
    | .ok (actual, fds) =>
        push { service with binder := some (actual, data) }
        return (actual, fds)
    | .error error =>
        push (service.stop env)
        throw error
  else
    push service
    return (toString pid.toNat, [data])

def requestAuthenticated (env : Env) (transport : ℕ) (fingerprint : String) :
    EStateM String Daemon Unit := do
  let d ← get
  ensure (d.transports.size < maxTransports ∧ transport ∉ d.transports)
    "connection limit reached"
  onStore (Store.connected env.saved env.unixTime fingerprint)
  modify fun d =>
    { d with transports := d.transports.insert transport fingerprint }
  modify (log env "Paired host connected")

def requestCloseService (env : Env) (transport : ℕ) (service : UInt32)
    (d : Daemon) : Daemon :=
  { d with services := d.services.map fun s =>
      if s.transport = transport ∧ s.child.pid = service ∧ s.binder = none then
        { s with closeAt := some (env.now + secs 1) }
      else s }

def requestCloseReverse (env : Env) (transport : ℕ) (spec : String)
    (d : Daemon) : Daemon :=
  { d with services := d.services.map fun s =>
      if s.transport = transport ∧ s.binder.any (fun b => b.1 = spec) then
        s.stop env
      else s }

def requestRoot (env : Env) (transport : ℕ) (enable : Bool) :
    EStateM String Daemon String := do
  let d ← get
  ensure (transport ∈ d.transports) "host is no longer authorized"
  ensure (¬enable ∨ d.store.config.allowAdbRoot)
    "adb root is disabled in altdb"
  if d.root = enable then
    return if enable then "adbd is already running as root\n"
      else "adbd not running as root\n"
  modify fun d =>
    { d with root := enable, rotate := some (env.now + millis 500) }
  return "restarting adbd as " ++ (if enable then "root" else "non root") ++ "\n"

def requestPairResult (codec : KeyCodec) (env : Env) (epoch : ℕ)
    (key : Option String) : EStateM String Daemon Unit := do
  match (← get).window with
  | none => throw "pairing window closed"
  | some w =>
      ensure (w.epoch = epoch ∧ env.now < w.expires ∧
        w.failures < maxPairFailures) "pairing window expired"
      match key with
      | some key =>
          let _ ← onStore (Store.pair codec env.saved env.unixTime key)
          modify fun d => { d with window := none }
          send env .pairCommitted []
          send env (.hosts (← get).store.hosts) []
          modify (log env "Host paired successfully")
      | none =>
          modify fun d =>
            { d with window := some { w with failures := w.failures + 1 } }
          if maxPairFailures ≤ w.failures + 1 then pairStop env
          modify (log env "Pairing authentication failed")

def request (codec : KeyCodec) (env : Env) :
    Request → EStateM String Daemon (String × List Fd)
  | .authenticated transport fingerprint => do
      requestAuthenticated env transport fingerprint
      return ("", [])
  | .disconnected transport => do
      modify (disconnect env transport)
      return ("", [])
  | .spawn transport name => spawnService env transport name false
  | .closeService transport service => do
      modify (requestCloseService env transport service)
      return ("", [])
  | .bindReverse transport spec => spawnService env transport spec true
  | .closeReverse transport spec => do
      modify (requestCloseReverse env transport spec)
      return ("", [])
  | .root transport enable => do
      return (← requestRoot env transport enable, [])
  | .pairResult epoch key => do
      requestPairResult codec env epoch key
      return ("", [])

end Daemon

end Altdb
