import Altdb.Fallible
import Altdb.Ipc
import Altdb.Protocol
import Altdb.ServiceName
import Std.Data.TreeMap

/-!
# A connection with a host

After the TLS handshake a connection multiplexes the streams of one host: it
handles the packets of the host, serves the sockets of the streams and accepts
reverse connections.  The answers of the kernel, of the TLS engine and of the
supervisor during one step are collected in `Io`.  `transcript` and `clock` are
history variables: what was observed so far and the last reading of the clock.
-/

namespace Altdb

open Fallible

/-! ## Sources -/

/-- The socket of a service.  Its owner is the transport and the process that
the supervisor is told to close when the socket is dropped. -/
structure ServiceSocket where
  fd : Fd
  owner : Option (ℕ × UInt32)
  deriving DecidableEq, Repr

inductive Source where
  | socket (socket : ServiceSocket)
  | bytes (rest : Bytes)
  deriving DecidableEq, Repr

/-- What one `write` on a service socket returns. -/
inductive WriteOutcome where
  | wrote (n : ℕ)
  | wouldBlock
  | failed
  deriving DecidableEq, Repr

/-- What one `read` on a service socket returns.  No data is the end of the
stream. -/
inductive ReadOutcome where
  | data (bytes : Bytes)
  | wouldBlock
  | failed
  deriving DecidableEq, Repr

/-- At most the whole buffer is written, and a `Bytes` source is read-only. -/
def Source.write (outcome : WriteOutcome) (buffer : Bytes) :
    Source → WriteOutcome
  | .bytes _ => .failed
  | .socket _ =>
      match outcome with
      | .wrote n => .wrote (min n buffer.length)
      | .wouldBlock => .wouldBlock
      | .failed => .failed

/-- Read at most `size` bytes. -/
def Source.read (outcome : ReadOutcome) (size : ℕ) :
    Source → ReadOutcome × Source
  | .bytes rest => (.data (rest.take size), .bytes (rest.drop size))
  | .socket s =>
      match outcome with
      | .data received => (.data (received.take size), .socket s)
      | .wouldBlock => (.wouldBlock, .socket s)
      | .failed => (.failed, .socket s)

/-! ## State -/

structure Stream where
  remote : UInt32
  source : Source
  pending : List Bytes
  offset : ℕ
  waiting : Bool
  opening : Option Instant
  closing : Option Instant
  deriving DecidableEq, Repr

structure Reverse where
  listener : Fd
  target : String
  deriving DecidableEq, Repr

/-- The ciphertext that waits for the TCP socket. -/
structure Tls where
  outgoing : Bytes
  offset : ℕ
  deriving DecidableEq, Repr

def Tls.queued (tls : Tls) : ℕ := tls.outgoing.length - tls.offset

/-- What a stream accepted from the host. -/
inductive Acceptance where
  | opened
  | acknowledged
  | payload (data : Bytes)
  | closed (time : Instant)
  deriving DecidableEq, Repr

inductive Observation where
  | accepted (id : UInt32) (what : Acceptance)
  | wrote (id : UInt32) (data : Bytes)
  | read (id : UInt32) (data : Bytes)
  | sent (packet : Packet)
  | called (request : Request)
  deriving DecidableEq, Repr

abbrev Streams := Std.TreeMap UInt32 Stream

structure Connection where
  tls : Tls
  transport : ℕ
  max : ℕ
  streams : Streams
  reverse : Std.TreeMap String Reverse
  next : UInt32
  clock : Instant
  transcript : List Observation

/-- What the kernel, the TLS engine and the supervisor answer in one step. -/
structure Io where
  /-- `Instant::now()` at the end of the step. -/
  now : Instant
  /-- `Instant::now()` while a stream is served. -/
  clock : UInt32 → Instant
  /-- `Tls::write_all`, at each length of the transcript. -/
  tlsWrite : ℕ → Tls → Bytes → Except String Tls
  /-- `Tls::flush`, where a blocked socket is no failure. -/
  tlsFlush : Tls → Except String Tls
  /-- `Broker::call`. -/
  broker : Request → Except String (String × List Fd)
  nonblocking : Fd → Except String Unit
  /-- The results of successive writes on the socket of a stream. -/
  write : UInt32 → List WriteOutcome
  read : UInt32 → ReadOutcome
  /-- `accept4` on a listener. -/
  accept : Fd → Option Fd

/-- The clock does not run backwards. -/
structure Io.Follows (io : Io) (time : Instant) : Prop where
  clock : ∀ id, time ≤ io.clock id ∧ io.clock id ≤ io.now
  now : time ≤ io.now

/-! ## One stream -/

namespace Stream

def enqueue (s : Stream) (data : Bytes) : Except String Stream :=
  if s.pending.length < 64 then .ok { s with pending := s.pending ++ [data] }
  else .error "stream pending packet limit"

/-- The outcome of `flush_pending` and the bytes that reached the socket. -/
structure Flushed where
  stream : Stream
  written : Bytes
  result : Except String Bool
  deriving Repr

/-- Write the queue until it is empty, the socket blocks or a write fails.
Once the list of outcomes is used up the socket blocks. -/
def flushPending (s : Stream) (work : Bool) : List WriteOutcome → Flushed
  | [] =>
      match s.pending with
      | [] => ⟨s, [], .ok work⟩
      | data :: _ =>
          match s.source.write .wouldBlock (data.drop s.offset) with
          | .failed => ⟨s, [], .error "read-only service"⟩
          | _ => ⟨s, [], .ok work⟩
  | outcome :: script =>
      match s.pending with
      | [] => ⟨s, [], .ok work⟩
      | data :: rest =>
          match s.source.write outcome (data.drop s.offset) with
          | .wrote 0 => ⟨s, [], .error "write zero"⟩
          | .wrote n =>
              let next : Stream :=
                if s.offset + n = data.length then
                  { s with pending := rest, offset := 0 }
                else { s with offset := s.offset + n }
              let flushed := next.flushPending true script
              { flushed with
                written := (data.drop s.offset).take n ++ flushed.written }
          | .wouldBlock => ⟨s, [], .ok work⟩
          | .failed => ⟨s, [], .error "write failed"⟩

/-- What one pass of `services` does to a stream. -/
structure Serviced where
  stream : Stream
  observations : List Observation
  events : List Packet
  closed : Bool
  work : Bool

/-- The acknowledgement of a queue that a pass has drained. -/
def drained (s after : Stream) (id : UInt32) : List Packet :=
  if s.pending ≠ [] ∧ after.pending = [] ∧ after.closing = none then
    [⟨OKAY, id, after.remote, []⟩]
  else []

/-- The end of the loop body of `services`: read from the source. -/
def serviceRead (io : Io) (queued max : ℕ) (id : UInt32) (s : Stream)
    (observations : List Observation) (events : List Packet) (work : Bool) :
    Serviced :=
  if s.opening = none ∧ s.waiting = false ∧ queued < 4 * 1024 * 1024 then
    match s.source.read (io.read id) (min max chunkSize) with
    | (.data [], _) => ⟨s, observations, events, true, work⟩
    | (.data data, source) =>
        ⟨{ s with source := source, waiting := true },
          observations ++ [.read id data],
          events ++ [⟨WRTE, id, s.remote, data⟩], false, true⟩
    | (.wouldBlock, _) => ⟨s, observations, events, false, work⟩
    | (.failed, _) => ⟨s, observations, events, true, work⟩
  else ⟨s, observations, events, false, work⟩

/-- The loop body of `services`. -/
def service (io : Io) (queued max : ℕ) (id : UInt32) (s : Stream) :
    Serviced :=
  if s.opening.any fun t => secs 10 < io.clock id - t then
    ⟨s, [], [], true, false⟩
  else
    let flushed := s.flushPending false (io.write id)
    let written := [Observation.wrote id flushed.written]
    match flushed.result with
    | .error _ => ⟨flushed.stream, written, [], true, false⟩
    | .ok work =>
        let events := s.drained flushed.stream id
        match flushed.stream.closing with
        | some t =>
            ⟨flushed.stream, written, events,
              flushed.stream.pending = [] || secs 1 < io.clock id - t, work⟩
        | none =>
            flushed.stream.serviceRead io queued max id written events work

end Stream

/-! ## Packets and calls of the connection -/

namespace Connection

def observe (o : Observation) : EStateM String Connection Unit :=
  modify fun c => { c with transcript := c.transcript ++ [o] }

/-- `Packet::write` on the TLS stream of the connection. -/
def send (io : Io) (p : Packet) : EStateM String Connection Unit := do
  let c ← get
  let tls ← lift (p.write (io.tlsWrite c.transcript.length c.tls) false)
  modify fun c =>
    { c with tls := tls, transcript := c.transcript ++ [.sent p] }

def packet (io : Io) (command a b : UInt32) (data : Bytes) :
    EStateM String Connection Unit :=
  send io ⟨command, a, b, data⟩

def call (io : Io) (request : Request) :
    EStateM String Connection (String × List Fd) := do
  observe (.called request)
  lift (io.broker request)

/-- The source of a stream is dropped. -/
def dropSource (io : Io) : Source → EStateM String Connection Unit
  | .socket ⟨_, some (transport, service)⟩ => do
      let _ ← attempt (call io (.closeService transport service))
  | _ => pure ()

def putStream (id : UInt32) (s : Stream) : EStateM String Connection Unit :=
  modify fun c => { c with streams := c.streams.insert id s }

def allocate : EStateM String Connection UInt32 := do
  let c ← get
  ensure (c.streams.size < maxStreams) "stream limit reached"
  ensure (c.next.toNat + 1 < UInt32.size) "stream IDs exhausted"
  modify fun c => { c with next := c.next + 1 }
  return c.next

/-! ## Reverse forwarding -/

def utf8 (s : String) : Bytes := s.toUTF8.data.toList

/-- The format `{:04x}`. -/
def hex4 (n : ℕ) : String :=
  String.ofList ((Nat.toDigits 16 n).leftpad 4 '0')

def removeReverse (io : Io) (spec : String) :
    EStateM String Connection Unit := do
  ensure (spec ∈ (← get).reverse) "reverse listener not found"
  modify fun c => { c with reverse := c.reverse.erase spec }
  let _ ← call io (.closeReverse (← get).transport spec)

/-- The end of the `forward:` command: bind a listener and remember it. -/
def reverseBind (io : Io) (localSpec remoteSpec : String) :
    EStateM String Connection Bytes := do
  ensure ((← get).reverse.size < 16) "reverse listener limit reached"
  let (actual, fds) ← call io (.bindReverse (← get).transport localSpec)
  match fds with
  | [fd] =>
      lift (io.nonblocking fd)
      modify fun c =>
        { c with reverse := c.reverse.insert actual ⟨fd, remoteSpec⟩ }
      match stripPrefix "tcp:" actual with
      | some port => return utf8 ("OKAY" ++ hex4 port.utf8ByteSize ++ port)
      | none => return utf8 "OKAY"
  | _ => throw "reverse listener missing"

/-- The `forward:` command after its prefix. -/
def reverseForward (io : Io) (command : String) :
    EStateM String Connection Bytes := do
  let (noRebind, command) := match stripPrefix "norebind:" command with
    | some c => (true, c)
    | none => (false, command)
  match splitOnce ';' command with
  | none => throw "invalid reverse specification"
  | some (localSpec, remoteSpec) =>
      lift (validateEndpoint localSpec true)
      lift (validateEndpoint remoteSpec false)
      if localSpec ∈ (← get).reverse then
        ensure (noRebind = false) "reverse listener already exists"
        removeReverse io localSpec
      reverseBind io localSpec remoteSpec

def reverseCommand (io : Io) (command : String) :
    EStateM String Connection Bytes := do
  if command = "list-forward" then
    let list := String.join ((← get).reverse.toList.map fun entry =>
      "altdb " ++ entry.1 ++ " " ++ entry.2.target ++ "\n")
    return utf8 (hex4 list.utf8ByteSize ++ list)
  else if command = "killforward-all" then
    (← get).reverse.keys.forM (removeReverse io)
    return utf8 "OKAY"
  else
    match stripPrefix "killforward:" command with
    | some spec =>
        removeReverse io spec
        return utf8 "OKAY"
    | none =>
        match stripPrefix "forward:" command with
        | some command => reverseForward io command
        | none => throw "unsupported reverse command"

/-! ## Packets of the host -/

/-- `Connection::open`: the source for a service name. -/
def openService (io : Io) (data : Bytes) :
    EStateM String Connection Source := do
  ensure (data ≠ [] ∧ data.length ≤ 4096 ∧ data.getLast? = some 0)
    "invalid service name"
  match String.fromUTF8? ⟨data.dropLast.toArray⟩ with
  | none => throw "invalid utf-8"
  | some name =>
      ensure ('\x00' ∉ name.toList) "invalid service name"
      if name = "root:" ∨ name = "unroot:" then
        let reply ← attempt
          (call io (.root (← get).transport (name = "root:")))
        match reply with
        | .ok (message, _) => return .bytes (utf8 message)
        | .error e => return .bytes (utf8 ("altdb: " ++ e ++ "\n"))
      else
        match stripPrefix "reverse:" name with
        | some command =>
            match ← attempt (reverseCommand io command) with
            | .ok body => return .bytes body
            | .error _ =>
                let m := "reverse operation rejected"
                return .bytes (utf8 ("FAIL" ++ hex4 m.utf8ByteSize ++ m))
        | none =>
            let transport := (← get).transport
            let (id, fds) ← call io (.spawn transport name)
            match fds with
            | [fd] =>
                lift (io.nonblocking fd)
                let service ← lift (parseU32 id)
                return .socket ⟨fd, some (transport, service)⟩
            | _ => throw "service descriptor unavailable"

/-- The stream of a host that opened it under the id `remote`. -/
def hostStream (remote : UInt32) (source : Source) : Stream where
  remote := remote
  source := source
  pending := []
  offset := 0
  waiting := false
  opening := none
  closing := none

/-- The stream of a reverse connection that is offered to the host. -/
def reverseStream (fd : Fd) (now : Instant) : Stream where
  remote := 0
  source := .socket ⟨fd, none⟩
  pending := []
  offset := 0
  waiting := false
  opening := some now
  closing := none

def handleOpen (io : Io) (p : Packet) : EStateM String Connection Unit := do
  ensure (p.arg0 ≠ 0 ∧ p.arg1 = 0) "invalid OPEN IDs"
  ensure (¬∃ entry ∈ (← get).streams.toList, entry.2.remote = p.arg0)
    "duplicate remote stream ID"
  if maxStreams ≤ (← get).streams.size then
    packet io CLSE 0 p.arg0 []
  else
    match ← attempt (openService io p.data) with
    | .ok source =>
        match ← attempt allocate with
        | .ok id =>
            putStream id (hostStream p.arg0 source)
            packet io OKAY id p.arg0 []
        | .error e =>
            dropSource io source
            throw e
    | .error _ => packet io CLSE 0 p.arg0 []

def handleOkay (p : Packet) : EStateM String Connection Unit := do
  match (← get).streams[p.arg1]? with
  | none => pure ()
  | some s =>
      ensure (p.data = [] ∧ p.arg0 ≠ 0) "invalid acknowledgement"
      if s.opening.isSome then
        if s.remote = 0 then
          putStream p.arg1 { s with opening := none, remote := p.arg0 }
          observe (.accepted p.arg1 .opened)
        else
          -- `take` has cleared the field before the check.
          putStream p.arg1 { s with opening := none }
          throw "unexpected open acknowledgement"
      else
        ensure (s.remote = p.arg0 ∧ s.waiting = true)
          "unexpected acknowledgement"
        putStream p.arg1 { s with waiting := false }
        observe (.accepted p.arg1 .acknowledged)

/-- The input that one stream retains. -/
def held (s : Stream) : ℕ := (s.pending.map List.length).sum

/-- The input that the streams retain, consumed prefixes included. -/
def queuedInput (c : Connection) : ℕ :=
  (c.streams.toList.map fun entry => held entry.2).sum

def handleWrte (io : Io) (p : Packet) : EStateM String Connection Unit := do
  ensure ((← get).queuedInput + p.data.length ≤ 8 * 1024 * 1024)
    "stream input queue limit"
  match (← get).streams[p.arg1]? with
  | some s =>
      ensure (s.remote = p.arg0 ∧ s.opening = none ∧ s.closing = none)
        "invalid stream write ordering"
      if p.data = [] then
        observe (.accepted p.arg1 (.payload []))
        packet io OKAY p.arg1 p.arg0 []
      else
        putStream p.arg1 (← lift (s.enqueue p.data))
        observe (.accepted p.arg1 (.payload p.data))
  | none => packet io CLSE p.arg1 p.arg0 []

def handleClse (io : Io) (p : Packet) : EStateM String Connection Unit := do
  match (← get).streams[p.arg1]? with
  | none => pure ()
  | some s =>
      ensure (p.arg0 = s.remote ∨ s.opening.isSome ∧ p.arg0 = 0)
        "invalid close ID"
      putStream p.arg1 { s with closing := some io.now }
      observe (.accepted p.arg1 (.closed io.now))

def handle (io : Io) (p : Packet) : EStateM String Connection Unit :=
  if p.command = OPEN then handleOpen io p
  else if p.command = OKAY then handleOkay p
  else if p.command = WRTE then handleWrte io p
  else if p.command = CLSE then handleClse io p
  else throw "unsupported ADB command after authentication"

/-! ## Services and reverse connections -/

/-- Remove a stream, tell the host and drop its source. -/
def closeStream (io : Io) (id : UInt32) : EStateM String Connection Unit := do
  match (← get).streams[id]? with
  | none => pure ()
  | some s =>
      modify fun c => { c with streams := c.streams.erase id }
      let result ← attempt (packet io CLSE id s.remote [])
      dropSource io s.source
      lift result

/-- Every stream is served in the order of the ids.  The packets are written
after the loop, and the ended streams are removed after the packets. -/
def services (io : Io) : EStateM String Connection Bool := do
  let c ← get
  let serviced := c.streams.map fun id s => s.service io c.tls.queued c.max id
  let results := serviced.toList
  modify fun c =>
    { c with
      streams := serviced.map fun _ r => r.stream
      transcript := c.transcript ++ results.flatMap fun r => r.2.observations }
  (results.flatMap fun r => r.2.events).forM (send io)
  let closed := (results.filter fun r => r.2.closed).map (·.1)
  closed.forM (closeStream io)
  return results.any (fun r => r.2.work) || closed ≠ []

/-- Offer accepted reverse connections to the host.  Without a free slot the
loop is left and the other sockets are dropped. -/
def acceptSockets (io : Io) :
    List (Fd × String) → EStateM String Connection Unit
  | [] => pure ()
  | (fd, target) :: rest => do
      if maxStreams ≤ (← get).streams.size then
        pure ()
      else
        let id ← allocate
        putStream id (reverseStream fd io.now)
        packet io OPEN id 0 (utf8 (target ++ "\x00"))
        acceptSockets io rest

def reverseAccept (io : Io) : EStateM String Connection Bool := do
  if maxStreams ≤ (← get).streams.size then
    return false
  else
    let sockets := (← get).reverse.toList.filterMap fun entry =>
      (io.accept entry.2.listener).map fun fd => (fd, entry.2.target)
    acceptSockets io sockets
    return sockets ≠ []

def flush (io : Io) : EStateM String Connection Unit := do
  let tls ← lift (io.tlsFlush (← get).tls)
  modify fun c => { c with tls := tls }

/-! ## Runs -/

/-- What the loop of a connection does next. -/
inductive Event where
  | packet (p : Packet)
  | services
  | reverseAccept
  | flush
  deriving DecidableEq, Repr

def perform (io : Io) : Event → EStateM String Connection Unit
  | .packet p => handle io p
  | .services => do let _ ← services io
  | .reverseAccept => do let _ ← reverseAccept io
  | .flush => flush io

/-- The ids that streams have or had. -/
def allocated (c : Connection) (id : UInt32) : Bool :=
  decide (0 < id.toNat ∧ id.toNat < c.next.toNat)

/-- Writes of the host that need not occur: to an id that was never allocated,
and an empty one while earlier payloads of the stream are queued. -/
inductive Oddity where
  | unallocated
  | early
  deriving DecidableEq, Repr

/-- The oddities of an event that the connection accepts. -/
def Event.Odd (c : Connection) : Event → Oddity → Prop
  | .packet p, .unallocated => p.command = WRTE ∧ c.allocated p.arg1 = false
  | .packet p, .early => p.command = WRTE ∧ p.data = [] ∧
      ∃ s ∈ c.streams[p.arg1]?, s.remote = p.arg0 ∧
        s.opening = none ∧ s.closing = none ∧ s.pending ≠ []
  | .services, _ | .reverseAccept, _ | .flush, _ => False

instance (c : Connection) :
    (event : Event) → (o : Oddity) → Decidable (event.Odd c o)
  | .packet p, .unallocated =>
      inferInstanceAs (Decidable (p.command = WRTE ∧ c.allocated p.arg1 = false))
  | .packet p, .early =>
      inferInstanceAs (Decidable (p.command = WRTE ∧ p.data = [] ∧
        ∃ s ∈ c.streams[p.arg1]?, s.remote = p.arg0 ∧
          s.opening = none ∧ s.closing = none ∧ s.pending ≠ []))
  | .services, _ => inferInstanceAs (Decidable False)
  | .reverseAccept, _ => inferInstanceAs (Decidable False)
  | .flush, _ => inferInstanceAs (Decidable False)

/-- The connection after the handshake with a host that accepts packets of at
most `max` bytes. -/
def initial (tls : Tls) (transport max : ℕ) (now : Instant) : Connection where
  tls := tls
  transport := transport
  max := max
  streams := ∅
  reverse := ∅
  next := 1
  clock := now
  transcript := []

def Initial (c : Connection) : Prop :=
  ∃ tls transport max now, 4096 ≤ max ∧ max ≤ maxPayload ∧
    c = initial tls transport max now

/-- A step that does not end the connection. -/
def StepOf (io : Io) (event : Event) (c c' : Connection) : Prop :=
  io.Follows c.clock ∧ ∃ c₁, perform io event c = .ok () c₁ ∧
    c' = { c₁ with clock := io.now }

/-- A step that fails and ends the connection. -/
def AbortOf (io : Io) (event : Event) (c c' : Connection) : Prop :=
  io.Follows c.clock ∧ ∃ error c₁, perform io event c = .error error c₁ ∧
    c' = { c₁ with clock := io.now }

/-- A step with no other oddities than those allowed. -/
def Step (allowed : Oddity → Prop) (c c' : Connection) : Prop :=
  ∃ io event, (∀ o, event.Odd c o → allowed o) ∧ StepOf io event c c'

end Connection

end Altdb
