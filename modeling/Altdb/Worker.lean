import Altdb.BrokerExchange

/-!
# The network worker

`Process` is the worker with its main loop, one thread for each connection and
one thread for each pairing attempt.  What the threads do on the network is
left open: a handshake may end in any way, a connection may make any request
of its own transport at any time, and a pairing attempt may bring any key.
-/

namespace Altdb

/-! ## Threads -/

/-- Where `transport::run` stands.  A stage with a number waits for that
invocation of `Broker::call`. -/
inductive TransportStage where
  /-- Up to `Tls::accept`. -/
  | handshake
  | authenticating (fingerprint : String) (call : ℕ)
  | serving (fingerprint : String)
  | asking (fingerprint : String) (call : ℕ)
  | leaving (call : ℕ)
  | ended
  deriving DecidableEq, Repr

/-- A connection thread with the fingerprints it was started with and its
cancel flag. -/
structure TransportThread where
  allowed : List String
  cancel : Bool
  stage : TransportStage
  deriving DecidableEq, Repr

/-- Where the closure around `pair_with_commit` stands. -/
inductive PairingStage where
  /-- Up to the check of the key. -/
  | exchanging
  | committing (key : String) (call : ℕ)
  /-- The commit returned; the answer to the computer is next. -/
  | acknowledging (key : String)
  /-- `pair_with_commit` failed; the failure is reported next. -/
  | failed
  | reporting (call : ℕ)
  | ended
  deriving DecidableEq, Repr

structure PairingThread where
  epoch : ℕ
  stage : PairingStage
  deriving DecidableEq, Repr

/-- The requests that a connection makes while it serves. -/
def Request.OfSession (transport : ℕ) : Request → Prop
  | .spawn t _ | .closeService t _ | .root t _ | .bindReverse t _
  | .closeReverse t _ => t = transport
  | .authenticated _ _ | .disconnected _ | .pairResult _ _ => False

instance (transport : ℕ) (r : Request) : Decidable (r.OfSession transport) := by
  cases r <;> unfold Request.OfSession <;> infer_instance

/-! ## The process -/

/-- `PairWindow`; `active` names the pairing thread. -/
structure PairWindow where
  epoch : ℕ
  listeners : List Fd
  active : Option ℕ
  deriving DecidableEq, Repr

/-- The worker.  The thread at place `i` of `threads` serves transport `i + 1`,
and `connections` holds the transports whose `Running` is in the table of the
main loop.  `received` counts the messages read from the socket. -/
structure Process where
  broker : Broker
  booted : Bool
  hosts : List Host
  connections : List ℕ
  nextTransport : ℕ
  window : Option PairWindow
  threads : List TransportThread
  pairings : List PairingThread
  received : ℕ
  exited : Bool

inductive MainPart where
  | receive
  | sweep
  | expire (old : ℕ → Bool)
  | accept
  | sweepPairing
  | acceptPairing
  | exit

inductive TransportPart where
  | authenticate (fingerprint : String)
  | fail
  | ask (request : Request)
  | leave
  | resume

inductive PairingPart where
  | commit (key : String)
  | acknowledge (sent : Bool)
  | fail
  | report
  | resume

namespace Process

/-- A process that has not read its first message. -/
def initial : Process where
  broker := .initial
  booted := false
  hosts := []
  connections := []
  nextTransport := 1
  window := none
  threads := []
  pairings := []
  received := 0
  exited := false

/-! ### The main loop -/

/-- `Running::stop` on the connections with the transports that satisfy `p`.
Shutting the socket down only makes the thread fail, which it may anyway. -/
def stopWhere (stops : ℕ → Bool) (p : Process) : Process :=
  { p with threads := p.threads.mapIdx fun i thread =>
      if i + 1 ∈ p.connections ∧ stops (i + 1) then
        { thread with cancel := true }
      else thread }

/-- The main loop is left, on a failure or on request. -/
def exit (p : Process) : Process :=
  { p.stopWhere fun _ => true with
    window := none
    broker := p.broker.clear
    exited := true }

/-- One more message is read. -/
def advance (p : Process) : Process := { p with received := p.received + 1 }

/-- The first message. -/
def boot (message : Message) (fds : List Fd) (p : Process) : Process :=
  match message with
  | .boot _ hosts endpoints mdns _ =>
      if fds.length = endpoints.length + mdns.length then
        { p.advance with
          booted := true
          hosts := hosts
          broker := { p.broker with
            outbox := p.broker.outbox ++ [⟨.ready, none⟩] } }
      else p.exit
  | _ => p.exit

/-- A later message.  The scan for revoked hosts holds the lock of `peers`. -/
def handle (message : Message) (fds : List Fd) (p : Process) : Process :=
  match message with
  | .reply id ok text =>
      { p.advance with broker := p.broker.deliver id ⟨ok, text, fds⟩ }
  | .hosts hosts =>
      { p.advance with hosts := hosts }.stopWhere fun t =>
        p.broker.peers[t]?.any fun fp =>
          !hosts.any fun host => host.fingerprint = fp
  | .pairStart epoch _ endpoints =>
      if fds.length = endpoints.length then
        { p.advance with window := some ⟨epoch, fds, none⟩ }
      else p.exit
  | .pairStop => { p.advance with window := none }
  | .pairCommitted =>
      { p.advance with window := p.window.map fun w => { w with listeners := [] } }
  | _ => p.exit

def receive (item : Message × List Fd) (p : Process) : Process :=
  if p.booted then p.handle item.1 item.2 else p.boot item.1 item.2

/-- `handle.is_finished()` of the thread that serves a transport. -/
def finished (p : Process) (transport : ℕ) : Bool :=
  p.threads[transport - 1]?.any fun thread => thread.stage = .ended

def pairingFinished (p : Process) (j : ℕ) : Bool :=
  p.pairings[j]?.any fun thread => thread.stage = .ended

/-- A connection is accepted and gets its thread. -/
def accept (p : Process) : Option Process :=
  if p.connections.length < maxTransports then
    if p.nextTransport + 1 < 2 ^ 64 then
      some { p with
        nextTransport := p.nextTransport + 1
        connections := p.connections ++ [p.nextTransport]
        threads := p.threads ++ [{
          allowed := p.hosts.map Host.fingerprint
          cancel := false
          stage := .handshake }] }
    else some p.exit
  else none

def acceptPairing (p : Process) : Option Process :=
  match p.window with
  | some w =>
      if w.active = none ∧ w.listeners ≠ [] then
        some { p with
          window := some { w with active := some p.pairings.length }
          pairings := p.pairings ++ [⟨w.epoch, .exchanging⟩] }
      else none
  | none => none

/-- One section of the main loop; `item` is the next message on the socket. -/
def main (item : Option (Message × List Fd)) (part : MainPart) (p : Process) :
    Option Process :=
  if p.exited then none
  else
    match part with
    | .receive => item.map fun item => p.receive item
    | .sweep =>
        some { p with connections := p.connections.filter (!p.finished ·) }
    | .expire old =>
        some (p.stopWhere fun t => old t && p.broker.peers[t]?.isNone)
    | .accept => if p.booted then p.accept else none
    | .sweepPairing =>
        some { p with window := p.window.map fun w =>
          { w with active := w.active.filter (!p.pairingFinished ·) } }
    | .acceptPairing => p.acceptPairing
    | .exit => some p.exit

/-! ### The threads -/

def setStage (i : ℕ) (stage : TransportStage) (p : Process) : Process :=
  { p with threads := p.threads.modify i fun thread =>
      { thread with stage := stage } }

def setPairing (j : ℕ) (stage : PairingStage) (p : Process) : Process :=
  { p with pairings := p.pairings.modify j fun thread =>
      { thread with stage := stage } }

/-- Enter `Broker::call`; `next` is what the thread does with the invocation. -/
def enter (request : Request) (next : ℕ → Process → Process) (p : Process) :
    Option Process :=
  (p.broker.call request).map fun b =>
    next p.broker.calls.length { p with broker := b }

/-- The next step of `transport::run` on transport `i + 1`. -/
def transport (i : ℕ) (part : TransportPart) (p : Process) : Option Process := do
  let thread ← p.threads[i]?
  match part, thread.stage with
  | .authenticate fp, .handshake =>
      if fp ∈ thread.allowed then
        p.enter (.authenticated (i + 1) fp) fun c =>
          setStage i (.authenticating fp c)
      else none
  | .fail, .handshake => some (p.setStage i .ended)
  | .ask r, .serving fp =>
      if r.OfSession (i + 1) then
        p.enter r fun c => setStage i (.asking fp c)
      else none
  -- The loop ends: cancelled, closed by the peer or with an error.
  | .leave, .serving _ =>
      p.enter (.disconnected (i + 1)) fun c => setStage i (.leaving c)
  | .resume, .authenticating fp c =>
      (p.broker.returned c).map fun result =>
        match result with
        | .ok _ => p.setStage i (.serving fp)
        | .error _ => p.setStage i .ended
  | .resume, .asking fp c =>
      (p.broker.returned c).map fun _ => p.setStage i (.serving fp)
  | .resume, .leaving c =>
      (p.broker.returned c).map fun _ => p.setStage i .ended
  | _, _ => none

/-- The next step of pairing thread `j`. -/
def pairing (codec : KeyCodec) (j : ℕ) (part : PairingPart) (p : Process) :
    Option Process := do
  let thread ← p.pairings[j]?
  match part, thread.stage with
  | .commit key, .exchanging =>
      match hostKey codec key with
      | .ok _ =>
          p.enter (.pairResult thread.epoch (some key)) fun c =>
            setPairing j (.committing key c)
      | .error _ => none
  | .acknowledge sent, .acknowledging _ =>
      some (p.setPairing j (if sent then .ended else .failed))
  | .fail, .exchanging | .fail, .acknowledging _ =>
      some (p.setPairing j .failed)
  | .report, .failed =>
      p.enter (.pairResult thread.epoch none) fun c =>
        setPairing j (.reporting c)
  | .resume, .committing key c =>
      (p.broker.returned c).map fun result =>
        match result with
        | .ok _ => p.setPairing j (.acknowledging key)
        | .error _ => p.setPairing j .failed
  | .resume, .reporting c =>
      (p.broker.returned c).map fun _ => p.setPairing j .ended
  | _, _ => none

/-- The success answer that a step of pairing thread `j` sends, if any: the
window and the key it is for. -/
def acknowledged (j : ℕ) (part : PairingPart) (p : Process) :
    Option (ℕ × String) :=
  match part, p.pairings[j]? with
  | .acknowledge _, some { epoch := epoch, stage := .acknowledging key } =>
      some (epoch, key)
  | _, _ => none

/-! ### What one step does -/

/-- The cases of `main`. -/
inductive MainDone (item : Option (Message × List Fd)) (p : Process) :
    Process → Prop
  | boot (message : Message) (fds : List Fd) (hosts : List Host)
      (hitem : item = some (message, fds))
      (hquiet : ∀ id ok text, message ≠ .reply id ok text)
      (hhosts : ∀ hosts, message ≠ .hosts hosts) (hbooted : p.booted = false) :
      MainDone item p { p.advance with
        booted := true
        hosts := hosts
        broker := { p.broker with
          outbox := p.broker.outbox ++ [⟨.ready, none⟩] } }
  | reply (id : ℕ) (ok : Bool) (text : String) (fds : List Fd)
      (hitem : item = some (.reply id ok text, fds)) :
      MainDone item p
        { p.advance with broker := p.broker.deliver id ⟨ok, text, fds⟩ }
  | hosts (hosts : List Host) (fds : List Fd)
      (hitem : item = some (.hosts hosts, fds)) :
      MainDone item p ({ p.advance with hosts := hosts }.stopWhere fun t =>
        p.broker.peers[t]?.any fun fp =>
          !hosts.any fun host => host.fingerprint = fp)
  | pairing (message : Message) (fds : List Fd) (window : Option PairWindow)
      (hitem : item = some (message, fds))
      (hquiet : ∀ id ok text, message ≠ .reply id ok text)
      (hhosts : ∀ hosts, message ≠ .hosts hosts) :
      MainDone item p { p.advance with window := window }
  | sweep : MainDone item p
      { p with connections := p.connections.filter (!p.finished ·) }
  | expire (stops : ℕ → Bool) : MainDone item p (p.stopWhere stops)
  | accept : MainDone item p { p with
      nextTransport := p.nextTransport + 1
      connections := p.connections ++ [p.nextTransport]
      threads := p.threads ++
        [⟨p.hosts.map Host.fingerprint, false, .handshake⟩] }
  | window (window : Option PairWindow) :
      MainDone item p { p with window := window }
  | acceptPairing (w : PairWindow) (window : Option PairWindow)
      (hwindow : p.window = some w) :
      MainDone item p { p with
        window := window
        pairings := p.pairings ++ [⟨w.epoch, .exchanging⟩] }
  | exit : MainDone item p p.exit

theorem receive_done (item : Message × List Fd) (p : Process) :
    MainDone (some item) p (p.receive item) := by
  obtain ⟨message, fds⟩ := item
  unfold receive
  split
  · cases message <;> simp only [handle]
    case reply id ok text => exact .reply id ok text fds rfl
    case hosts hosts => exact .hosts hosts fds rfl
    case pairStart epoch code endpoints =>
      split
      · exact .pairing _ fds _ rfl (by simp) (by simp)
      · exact .exit
    case pairStop => exact .pairing _ fds none rfl (by simp) (by simp)
    case pairCommitted => exact .pairing _ fds _ rfl (by simp) (by simp)
    all_goals exact .exit
  · next hbooted =>
    cases message <;> simp only [boot]
    case boot identity hosts endpoints mdns test =>
      split
      · exact .boot _ fds hosts rfl (by simp) (by simp) (by simpa using hbooted)
      · exact .exit
    all_goals exact .exit

theorem main_done {item : Option (Message × List Fd)} {part : MainPart}
    {p p' : Process} (h : p.main item part = some p') :
    MainDone item p p' := by
  unfold main at h
  split at h
  · cases h
  · cases part <;> simp only at h
    case receive =>
      obtain ⟨m, rfl, rfl⟩ := Option.map_eq_some_iff.mp h
      exact receive_done m p
    case sweep => cases h; exact .sweep
    case expire old => cases h; exact .expire _
    case accept =>
      split at h
      · unfold accept at h
        split at h
        · split at h
          · cases h; exact .accept
          · cases h; exact .exit
        · cases h
      · cases h
    case sweepPairing => cases h; exact .window _
    case acceptPairing =>
      unfold acceptPairing at h
      split at h
      · next w hw =>
        split at h
        · cases h; exact .acceptPairing w _ hw
        · cases h
      · cases h
    case exit => cases h; exact .exit

/-- The cases of `transport` on a thread. -/
inductive TransportDone (i : ℕ) (stage : TransportStage) (p : Process) :
    Process → Prop
  | authenticate (fp : String) (b : Broker) (hstage : stage = .handshake)
      (hcall : p.broker.call (.authenticated (i + 1) fp) = some b) :
      TransportDone i stage p ({ p with broker := b }.setStage i
        (.authenticating fp p.broker.calls.length))
  | fail (hstage : stage = .handshake) :
      TransportDone i stage p (p.setStage i .ended)
  | ask (fp : String) (r : Request) (b : Broker) (hstage : stage = .serving fp)
      (hsession : r.OfSession (i + 1)) (hcall : p.broker.call r = some b) :
      TransportDone i stage p ({ p with broker := b }.setStage i
        (.asking fp p.broker.calls.length))
  | leave (fp : String) (b : Broker) (hstage : stage = .serving fp)
      (hcall : p.broker.call (.disconnected (i + 1)) = some b) :
      TransportDone i stage p ({ p with broker := b }.setStage i
        (.leaving p.broker.calls.length))
  | granted (fp : String) (c : ℕ) (value : String × List Fd)
      (hstage : stage = .authenticating fp c)
      (hreturned : p.broker.returned c = some (.ok value)) :
      TransportDone i stage p (p.setStage i (.serving fp))
  | refused (fp : String) (c : ℕ) (error : String)
      (hstage : stage = .authenticating fp c)
      (hreturned : p.broker.returned c = some (.error error)) :
      TransportDone i stage p (p.setStage i .ended)
  | answered (fp : String) (c : ℕ) (result : CallResult)
      (hstage : stage = .asking fp c)
      (hreturned : p.broker.returned c = some result) :
      TransportDone i stage p (p.setStage i (.serving fp))
  | left (c : ℕ) (result : CallResult) (hstage : stage = .leaving c)
      (hreturned : p.broker.returned c = some result) :
      TransportDone i stage p (p.setStage i .ended)

theorem enter_done {request : Request} {next : ℕ → Process → Process}
    {p p' : Process} (h : p.enter request next = some p') :
    ∃ b, p.broker.call request = some b ∧
      p' = next p.broker.calls.length { p with broker := b } := by
  obtain ⟨b, hb, rfl⟩ := Option.map_eq_some_iff.mp h
  exact ⟨b, hb, rfl⟩

theorem transport_done {i : ℕ} {part : TransportPart} {p p' : Process}
    (h : p.transport i part = some p') : ∃ thread, p.threads[i]? = some thread ∧
      TransportDone i thread.stage p p' := by
  unfold transport at h
  cases hthread : p.threads[i]? with
  | none => simp [hthread] at h
  | some thread =>
      refine ⟨thread, rfl, ?_⟩
      simp only [hthread, Option.bind_eq_bind, Option.bind_some] at h
      split at h
      · next hstage =>
        split at h
        · obtain ⟨b, hb, rfl⟩ := enter_done h
          exact .authenticate _ b hstage hb
        · cases h
      · next hstage => cases h; exact .fail hstage
      · next hstage =>
        split at h
        · next hsession =>
          obtain ⟨b, hb, rfl⟩ := enter_done h
          exact .ask _ _ b hstage hsession hb
        · cases h
      · next hstage =>
        obtain ⟨b, hb, rfl⟩ := enter_done h
        exact .leave _ b hstage hb
      · next hstage =>
        obtain ⟨result, hresult, rfl⟩ := Option.map_eq_some_iff.mp h
        cases result with
        | ok value => exact .granted _ _ value hstage hresult
        | error error => exact .refused _ _ error hstage hresult
      · next hstage =>
        obtain ⟨result, hresult, rfl⟩ := Option.map_eq_some_iff.mp h
        exact .answered _ _ result hstage hresult
      · next hstage =>
        obtain ⟨result, hresult, rfl⟩ := Option.map_eq_some_iff.mp h
        exact .left _ result hstage hresult
      · cases h

/-- The cases of `pairing` on a thread. -/
inductive PairingDone (codec : KeyCodec) (j : ℕ) (thread : PairingThread)
    (p : Process) : PairingPart → Process → Prop
  | commit (key fp name : String) (b : Broker)
      (hstage : thread.stage = .exchanging)
      (hkey : hostKey codec key = .ok (fp, name))
      (hcall : p.broker.call (.pairResult thread.epoch (some key)) = some b) :
      PairingDone codec j thread p (.commit key)
        ({ p with broker := b }.setPairing j
          (.committing key p.broker.calls.length))
  | acknowledge (key : String) (sent : Bool)
      (hstage : thread.stage = .acknowledging key) :
      PairingDone codec j thread p (.acknowledge sent)
        (p.setPairing j (if sent then .ended else .failed))
  | fail (hstage : thread.stage = .exchanging ∨
      ∃ key, thread.stage = .acknowledging key) :
      PairingDone codec j thread p .fail (p.setPairing j .failed)
  | report (b : Broker) (hstage : thread.stage = .failed)
      (hcall : p.broker.call (.pairResult thread.epoch none) = some b) :
      PairingDone codec j thread p .report ({ p with broker := b }.setPairing j
        (.reporting p.broker.calls.length))
  | granted (key : String) (c : ℕ) (value : String × List Fd)
      (hstage : thread.stage = .committing key c)
      (hreturned : p.broker.returned c = some (.ok value)) :
      PairingDone codec j thread p .resume (p.setPairing j (.acknowledging key))
  | refused (key : String) (c : ℕ) (error : String)
      (hstage : thread.stage = .committing key c)
      (hreturned : p.broker.returned c = some (.error error)) :
      PairingDone codec j thread p .resume (p.setPairing j .failed)
  | reported (c : ℕ) (result : CallResult) (hstage : thread.stage = .reporting c)
      (hreturned : p.broker.returned c = some result) :
      PairingDone codec j thread p .resume (p.setPairing j .ended)

theorem pairing_done {codec : KeyCodec} {j : ℕ} {part : PairingPart}
    {p p' : Process} (h : p.pairing codec j part = some p') :
    ∃ thread, p.pairings[j]? = some thread ∧
      PairingDone codec j thread p part p' := by
  unfold pairing at h
  cases hthread : p.pairings[j]? with
  | none => simp [hthread] at h
  | some thread =>
      refine ⟨thread, rfl, ?_⟩
      simp only [hthread, Option.bind_eq_bind, Option.bind_some] at h
      split at h
      · next hstage =>
        split at h
        · next hkey =>
          obtain ⟨b, hb, rfl⟩ := enter_done h
          exact .commit _ _ _ b hstage hkey hb
        · cases h
      · next hstage => cases h; exact .acknowledge _ _ hstage
      · next hstage => cases h; exact .fail (.inl hstage)
      · next hstage => cases h; exact .fail (.inr ⟨_, hstage⟩)
      · next hstage =>
        obtain ⟨b, hb, rfl⟩ := enter_done h
        exact .report b hstage hb
      · next hstage =>
        obtain ⟨result, hresult, rfl⟩ := Option.map_eq_some_iff.mp h
        cases result with
        | ok value => exact .granted _ _ value hstage hresult
        | error error => exact .refused _ _ error hstage hresult
      · next hstage =>
        obtain ⟨result, hresult, rfl⟩ := Option.map_eq_some_iff.mp h
        exact .reported _ result hstage hresult
      · cases h

theorem setStage_threads {p : Process} {i : ℕ} {thread : TransportThread}
    (h : p.threads[i]? = some thread) (stage : TransportStage) (j : ℕ) :
    (p.setStage i stage).threads[j]? =
      if j = i then some { thread with stage := stage } else p.threads[j]? := by
  simp only [setStage, List.getElem?_modify]
  by_cases heq : j = i
  · subst heq
    simp [h]
  · simp [heq, Ne.symm heq]

theorem setPairing_pairings {p : Process} {i : ℕ} {thread : PairingThread}
    (h : p.pairings[i]? = some thread) (stage : PairingStage) (j : ℕ) :
    (p.setPairing i stage).pairings[j]? =
      if j = i then some { thread with stage := stage } else p.pairings[j]? := by
  simp only [setPairing, List.getElem?_modify]
  by_cases heq : j = i
  · subst heq
    simp [h]
  · simp [heq, Ne.symm heq]

/-- `stopWhere` sets cancel flags. -/
theorem stopWhere_threads (stops : ℕ → Bool) (p : Process) (i : ℕ) :
    (p.stopWhere stops).threads[i]? = p.threads[i]?.map fun thread =>
      if i + 1 ∈ p.connections ∧ stops (i + 1) then
        { thread with cancel := true }
      else thread := by
  simp [stopWhere]

end Process

end Altdb
