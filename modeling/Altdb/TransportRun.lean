import Altdb.ConnectionInvariant
import Altdb.PacketParse
import Altdb.TlsAccept
import Altdb.Worker

/-!
# The life of a connection

`transport::run` reads two packets from the socket, accepts TLS and asks the
supervisor for admission.  Then its loop runs until it is cancelled, the host
closes the connection or something fails, and the supervisor is told about the
end in all of these cases.
-/

namespace Altdb

open Fallible

def VERSION : UInt32 := 0x01000001
def STLS_VERSION : UInt32 := 0x01000000
def CNXN : UInt32 := commandId 'C' 'N' 'X' 'N'
def STLS : UInt32 := commandId 'S' 'T' 'L' 'S'
def FEATURES : String := "shell_v2,cmd,stat_v2,ls_v2,sendrecv_v2"

/-! ## The loop -/

namespace Receiver

/-- One turn of the loop: whether it finds the connection cancelled, what the reads
return, and the answers to the passes and to `wait_for_io`. -/
structure LoopTurn where
  cancelled : Bool
  reads : List ReadOutcome
  services : Io
  reverseAccept : Io
  flush : Io
  wait : Except String Unit

/-- The reads of a turn.  There is no result when the host has closed. -/
def reads (io : ℕ → Io) : ℕ → Bool → List ReadOutcome → EStateM Abort Receiver (Option Bool)
  | 0, work, _ => pure (some work)
  | _ + 1, work, [] => pure (some work)
  | _ + 1, work, .wouldBlock :: _ => pure (some work)
  | _ + 1, _, .failed :: _ => throw (.failed "TLS read failed")
  | n + 1, _, .data bytes :: rest => do
      if bytes.take chunkSize = [] then return none
      receive io (bytes.take chunkSize)
      reads io n true rest

/-- A pass over the connection, which leaves the input alone. -/
def beside {α : Type} (method : EStateM String Connection α) : EStateM Abort Receiver α := fun r =>
  match method r.connection with
  | .ok value c => .ok value { r with connection := c }
  | .error message c => .error (.failed message) { r with connection := c }

/-- A turn tells whether the loop goes on. -/
def turn (io : ℕ → Io) (t : LoopTurn) : EStateM Abort Receiver Bool := do
  match ← reads io 16 false t.reads with
  | none => return false
  | some work =>
      let served ← beside (Connection.services t.services)
      let accepted ← beside (Connection.reverseAccept t.reverseAccept)
      beside (Connection.flush t.flush)
      if !(work || served || accepted) then lift (t.wait.mapError .failed)
      return true

def loop (io : ℕ → Io) : List LoopTurn → EStateM Abort Receiver Unit
  | [] => pure ()
  | t :: rest => do
      if t.cancelled then return ()
      if ← turn io t then loop io rest

/-! ### Runs of actions -/

/-- Actions lead from one receiver to the other. -/
def Reached (io : ℕ → Io) (r r' : Receiver) : Prop :=
  ∃ actions, (∀ action ∈ actions, action.Fits) ∧ run io actions r = .ok () r'

/-- Actions lead to a failure, or to the receiver that the thread gives up. -/
def Broke (io : ℕ → Io) (r : Receiver) (e : Abort) (r' : Receiver) : Prop :=
  ∃ actions, (∀ action ∈ actions, action.Fits) ∧
    (run io actions r = .error e r' ∨ run io actions r = .ok () r' ∧ ∃ text, e = .failed text)

variable {io : ℕ → Io} {r r₁ r₂ : Receiver} {e : Abort}

theorem run_append (first second : List Action) (h : run io first r = .ok () r₁) :
    run io (first ++ second) r = run io second r₁ := by
  induction first generalizing r with
  | nil =>
      obtain rfl := (EStateM.Result.ok.inj h).2
      rfl
  | cons action rest ih =>
      change EStateM.bind (act io action) (fun _ => run io rest) r = _ at h
      change EStateM.bind (act io action) (fun _ => run io (rest ++ second)) r = _
      unfold EStateM.bind at h ⊢
      cases hact : act io action r with
      | ok value r' =>
          rw [hact] at h
          exact ih h
      | error e r' =>
          rw [hact] at h
          cases h

theorem Reached.refl (r : Receiver) : Reached io r r :=
  ⟨[], List.forall_mem_nil _, rfl⟩

theorem Reached.trans (h : Reached io r r₁) (h' : Reached io r₁ r₂) : Reached io r r₂ := by
  obtain ⟨first, hfirst, hrun⟩ := h
  obtain ⟨second, hsecond, hrun'⟩ := h'
  refine ⟨first ++ second, List.forall_mem_append.mpr ⟨hfirst, hsecond⟩, ?_⟩
  rw [run_append first second hrun, hrun']

theorem Reached.broke (h : Reached io r r₁) (h' : Broke io r₁ e r₂) : Broke io r e r₂ := by
  obtain ⟨first, hfirst, hrun⟩ := h
  obtain ⟨second, hsecond, hrun'⟩ := h'
  refine ⟨first ++ second, List.forall_mem_append.mpr ⟨hfirst, hsecond⟩, ?_⟩
  rw [run_append first second hrun]
  exact hrun'

theorem Reached.gives_up (h : Reached io r r₁) (text : String) :
    Broke io r (.failed text) r₁ := by
  obtain ⟨actions, hactions, hrun⟩ := h
  exact ⟨actions, hactions, .inr ⟨hrun, text, rfl⟩⟩

/-- A method whose effect is that of some actions. -/
def Acts {α : Type} (io : ℕ → Io) (method : EStateM Abort Receiver α) : Prop :=
  ∀ r, wp method (fun _ r' => Reached io r r') (fun e r' => Broke io r e r') r

theorem Acts.pure {α : Type} (value : α) :
    Acts io (Pure.pure value : EStateM Abort Receiver α) := fun r => Reached.refl r

theorem Acts.bind {α β : Type} {method : EStateM Abort Receiver α}
    {next : α → EStateM Abort Receiver β} (h : Acts io method)
    (hnext : ∀ value, Acts io (next value)) :
    Acts io (method >>= next) := by
  intro r
  rw [wp_bind]
  apply wp_mono (h r)
  · intro value r₁ hr₁
    apply wp_mono (hnext value r₁)
    · intro _ r₂ hr₂
      exact hr₁.trans hr₂
    · intro e r₂ hr₂
      exact hr₁.broke hr₂
  · intro e r₁ hr₁
    exact hr₁

theorem Acts.gives_up {α : Type} (text : String) :
    Acts io (throw (.failed text) : EStateM Abort Receiver α) :=
  fun r => (Reached.refl r).gives_up text

theorem Acts.lift (result : Except String Unit) :
    Acts io (Fallible.lift (result.mapError .failed)) := by
  cases result with
  | error text => exact Acts.gives_up text
  | ok value => exact Acts.pure value

/-- A method that is one action. -/
theorem Acts.of_action {α : Type} {method : EStateM Abort Receiver α} {action : Action}
    (hfits : action.Fits)
    (hok : ∀ r value r', method r = .ok value r' → act io action r = .ok () r')
    (herror : ∀ r e r', method r = .error e r' → act io action r = .error e r') :
    Acts io method := by
  have hone : ∀ r, run io [action] r = act io action r := by
    intro r
    change EStateM.bind (act io action) (fun _ => Pure.pure ()) r = _
    unfold EStateM.bind
    cases act io action r with
    | ok value r' => rfl
    | error e r' => rfl
  intro r
  apply wp_intro
  · intro value r' hrun
    refine ⟨[action], List.forall_mem_singleton.mpr hfits, ?_⟩
    rw [hone, hok r value r' hrun]
  · intro e r' hrun
    refine ⟨[action], List.forall_mem_singleton.mpr hfits, .inl ?_⟩
    rw [hone, herror r e r' hrun]

theorem Acts.of_receive {bytes : Bytes} (h : bytes ≠ []) (hsize : bytes.length ≤ chunkSize) :
    Acts io (Receiver.receive io bytes) := by
  have hfits : (Action.read bytes).Fits := by
    intro chunk heq
    obtain rfl := Action.read.inj heq
    exact ⟨List.length_pos_iff.mpr h, hsize⟩
  exact Acts.of_action hfits (fun _ _ _ hrun => hrun) fun _ _ _ hrun => hrun

/-- A pass is an action that forgets its value. -/
theorem Acts.of_pass {α : Type} {method : EStateM String Connection α} {answers : Io}
    {event : Connection.Event} {action : Action} (hfits : action.Fits)
    (haction : act io action = aside (Connection.perform answers event))
    (hmethod : Connection.perform answers event = (do let _ ← method)) :
    Acts io (Receiver.beside method) := by
  have hperform : ∀ c, Connection.perform answers event c =
      match method c with
      | .ok _ c' => .ok () c'
      | .error text c' => .error text c' := by
    intro c
    rw [hmethod]
    change EStateM.bind method (fun _ => Pure.pure ()) c = _
    unfold EStateM.bind
    cases method c with
    | ok value c' => rfl
    | error text c' => rfl
  apply Acts.of_action hfits
  · intro r value r' hrun
    rw [haction, aside, hperform]
    unfold Receiver.beside at hrun
    cases hc : method r.connection with
    | ok v c =>
        rw [hc] at hrun
        obtain ⟨-, rfl⟩ := EStateM.Result.ok.inj hrun
        rfl
    | error text c =>
        rw [hc] at hrun
        cases hrun
  · intro r e r' hrun
    rw [haction, aside, hperform]
    unfold Receiver.beside at hrun
    cases hc : method r.connection with
    | ok v c =>
        rw [hc] at hrun
        cases hrun
    | error text c =>
        rw [hc] at hrun
        obtain ⟨rfl, rfl⟩ := EStateM.Result.error.inj hrun
        rfl

theorem reads_acts (n : ℕ) (work : Bool) (outcomes : List ReadOutcome) :
    Acts io (reads io n work outcomes) := by
  induction n generalizing work outcomes with
  | zero => exact Acts.pure _
  | succ n ih =>
      cases outcomes with
      | nil => exact Acts.pure _
      | cons outcome rest =>
          cases outcome with
          | wouldBlock => exact Acts.pure _
          | failed => exact Acts.gives_up _
          | data bytes =>
              unfold reads
              split
              · exact Acts.pure _
              · next hne =>
                apply Acts.bind (Acts.of_receive hne _)
                · intro _
                  exact ih true rest
                · rw [List.length_take]
                  exact min_le_left _ _

theorem turn_acts (t : LoopTurn) : Acts io (turn io t) := by
  have hfits : ∀ action : Action, (∀ chunk, action ≠ .read chunk) → action.Fits :=
    fun action h chunk heq => absurd heq (h chunk)
  unfold turn
  apply Acts.bind (reads_acts 16 false t.reads)
  intro result
  cases result with
  | none => exact Acts.pure _
  | some work =>
      apply Acts.bind (Acts.of_pass (hfits (.services t.services) fun _ h => by cases h) rfl rfl)
      intro served
      apply Acts.bind (Acts.of_pass
        (hfits (.reverseAccept t.reverseAccept) fun _ h => by cases h) rfl rfl)
      intro accepted
      apply Acts.bind (Acts.of_pass (hfits (.flush t.flush) fun _ h => by cases h) rfl
        bind_pure_unit.symm)
      intro _
      split
      · exact Acts.bind (Acts.lift t.wait) fun _ => Acts.pure _
      · exact Acts.pure _

/-- The loop does nothing but read, serve, accept and flush. -/
theorem loop_acts (turns : List LoopTurn) : Acts io (loop io turns) := by
  induction turns with
  | nil => exact Acts.pure ()
  | cons t rest ih =>
      unfold loop
      split
      · exact Acts.pure ()
      · apply Acts.bind (turn_acts t)
        intro goesOn
        split
        · exact ih
        · exact Acts.pure ()

end Receiver

/-! ## The whole connection -/

namespace TransportRun

/-- The connection is dropped, and the sockets of its streams in their order. -/
def dropStreams (io : Io) : EStateM String Connection Unit := do
  (← get).streams.toList.forM fun entry => Connection.dropSource io entry.2.source

def dropped (io : Io) (r : Receiver) : Receiver :=
  { r with connection := final (dropStreams io r.connection) }

/-- What the thread has done, as the host and the supervisor see it.  What the connection
has asked the supervisor for is in its own transcript. -/
inductive Did where
  | wrote (bytes : Bytes)
  | called (request : Request)
  | banner (packet : Packet)
  deriving DecidableEq, Repr

/-- `receiver` is what the loop leaves, once that is dropped. -/
structure State where
  input : Bytes
  did : List Did
  receiver : Option Receiver

/-- The answers during `transport::run`. -/
structure Env (σ : Type) where
  options : Except String Unit
  stls : Except String Unit
  accept : TlsAccept.Env σ
  broker : Request → Except String (String × List Fd)
  banner : Tls → Bytes → Except String Tls
  flush : Tls → Except String Tls
  nonblocking : Except String Unit
  now : Instant
  io : ℕ → Io
  turns : List Receiver.LoopTurn
  drop : Io

abbrev Method := EStateM String State

def read (max : ℕ) : Method Packet := do
  let (packet, rest) ← lift (Packet.read (← get).input max false)
  modify fun s => { s with input := rest }
  return packet

def did (what : Did) : Method Unit := modify fun s => { s with did := s.did ++ [what] }

variable {σ : Type}

def call (env : Env σ) (request : Request) : Method (String × List Fd) := do
  did (.called request)
  lift (env.broker request)

def abortText : Abort → String
  | .malformed message => message
  | .inputLimit => "input queue limit"
  | .failed message => message

@[irreducible] def banner : Bytes :=
  JsonText.toBytes ("device::ro.product.name=altdb;ro.product.model=altdb;" ++
    "ro.product.device=altdb;features=" ++ FEATURES ++ ";\x00").toList

/-- The closure of `run`. -/
def session (env : Env σ) (transport max : ℕ) (tls : Tls) : Method Unit := do
  let packet : Packet := ⟨CNXN, VERSION, UInt32.ofNat max, banner⟩
  let tls ← lift (packet.write (env.banner tls) false)
  did (.banner packet)
  let tls ← lift (env.flush tls)
  lift env.nonblocking
  let start := Receiver.start (Connection.initial tls transport max env.now)
  match Receiver.loop env.io env.turns start with
  | .ok () r => modify fun s => { s with receiver := some (dropped env.drop r) }
  | .error e r =>
      modify fun s => { s with receiver := some (dropped env.drop r) }
      throw (abortText e)

/-- The host opened the connection as it has to, and it is a trusted one. -/
structure Entered (store : Store) (input : Bytes) (fp : String) (max : ℕ) : Prop where
  opening : ∃ hello rest rest', Packet.read input 4096 false = .ok (hello, rest) ∧
    hello.command = CNXN ∧ STLS_VERSION ≤ hello.arg0 ∧ max = min hello.arg1.toNat maxPayload ∧
    Packet.read rest 4096 false = .ok (⟨STLS, STLS_VERSION, 0, []⟩, rest')
  limits : 4096 ≤ max ∧ max ≤ maxPayload
  trusted : store.trusts fp

/-- What the closure did: the banner failed, or the loop started on a new connection
and ended with the result. -/
inductive Session (env : Env σ) (transport max : ℕ) :
    Except String Unit → List Did → Option Receiver → Prop where
  | silent (error : String) : Session env transport max (.error error) [] none
  | failed (error : String) :
      Session env transport max (.error error)
        [.banner ⟨CNXN, VERSION, UInt32.ofNat max, banner⟩] none
  | left (tls : Tls) (r : Receiver)
      (hreached : Receiver.Reached env.io
        (Receiver.start (Connection.initial tls transport max env.now)) r) :
      Session env transport max (.ok ())
        [.banner ⟨CNXN, VERSION, UInt32.ofNat max, banner⟩] (some (dropped env.drop r))
  | broken (tls : Tls) (e : Abort) (r : Receiver)
      (hbroke : Receiver.Broke env.io
        (Receiver.start (Connection.initial tls transport max env.now)) e r) :
      Session env transport max (.error (abortText e))
        [.banner ⟨CNXN, VERSION, UInt32.ofNat max, banner⟩] (some (dropped env.drop r))

/-- The result of the thread and what it did. -/
inductive Lived (store : Store) (env : Env σ) (transport : ℕ) (input : Bytes) :
    Except String Unit → List Did → Option Receiver → Prop where
  | refused (error : String) (what : List Did)
      (hquiet : ∀ d ∈ what, d = .wrote (Packet.encode ⟨STLS, STLS_VERSION, 0, []⟩ false)) :
      Lived store env transport input (.error error) what none
  | rejected (error fp : String) (max : ℕ) (hentered : Entered store input fp max)
      (hbroker : env.broker (.authenticated transport fp) = .error error) :
      Lived store env transport input (.error error)
        [.wrote (Packet.encode ⟨STLS, STLS_VERSION, 0, []⟩ false),
          .called (.authenticated transport fp)] none
  | served (result : Except String Unit) (fp : String) (max : ℕ) (what : List Did)
      (receiver : Option Receiver) (hentered : Entered store input fp max)
      (hbroker : ∃ value, env.broker (.authenticated transport fp) = .ok value)
      (hsession : Session env transport max result what receiver) :
      Lived store env transport input result
        ([.wrote (Packet.encode ⟨STLS, STLS_VERSION, 0, []⟩ false),
          .called (.authenticated transport fp)] ++ what ++
          [.called (.disconnected transport)]) receiver

theorem session_spec (env : Env σ) (transport max : ℕ) (tls : Tls) {s : State}
    (hreceiver : s.receiver = none) :
    wp (session env transport max tls)
      (fun _ s' => ∃ what, s'.did = s.did ++ what ∧
        Session env transport max (.ok ()) what s'.receiver)
      (fun e s' => ∃ what, s'.did = s.did ++ what ∧
        Session env transport max (.error e) what s'.receiver) s := by
  have hsilent : ∀ error, ∃ what, s.did = s.did ++ what ∧
      Session env transport max (.error error) what s.receiver := by
    intro error
    refine ⟨[], (List.append_nil _).symm, ?_⟩
    rw [hreceiver]
    exact .silent error
  unfold session
  dsimp only
  rw [wp_bind, wp_lift]
  refine ⟨fun tls₁ _ => ?_, fun error _ => hsilent error⟩
  rw [wp_bind]
  unfold did
  rw [wp_modify]
  have hfailed : ∀ error, ∃ what,
      s.did ++ [Did.banner ⟨CNXN, VERSION, UInt32.ofNat max, banner⟩] = s.did ++ what ∧
        Session env transport max (.error error) what s.receiver := by
    intro error
    refine ⟨_, rfl, ?_⟩
    rw [hreceiver]
    exact .failed error
  rw [wp_bind, wp_lift]
  refine ⟨fun tls₂ _ => ?_, fun error _ => hfailed error⟩
  rw [wp_bind, wp_lift]
  refine ⟨fun _ _ => ?_, fun error _ => hfailed error⟩
  have hacts := @Receiver.loop_acts env.io env.turns
    (Receiver.start (Connection.initial tls₂ transport max env.now))
  split
  · next r hloop =>
    have hreached := wp_of_ok hacts hloop
    exact ⟨_, rfl, .left tls₂ r hreached⟩
  · next e r hloop =>
    have hbroke := wp_of_error hacts hloop
    exact ⟨_, rfl, .broken tls₂ e r hbroke⟩

/-- The rest of the thread after its admission. -/
def serve (env : Env σ) (transport max : ℕ) (tls : Tls) : Method Unit := do
  let result ← attempt (session env transport max tls)
  let _ ← attempt (call env (.disconnected transport))
  lift result

/-- The supervisor is told about the end in any case. -/
theorem serve_spec (env : Env σ) (transport max : ℕ) (tls : Tls) {s : State}
    (hreceiver : s.receiver = none) :
    wp (serve env transport max tls)
      (fun _ s' => ∃ what, s'.did = s.did ++ what ++ [.called (.disconnected transport)] ∧
        Session env transport max (.ok ()) what s'.receiver)
      (fun e s' => ∃ what, s'.did = s.did ++ what ++ [.called (.disconnected transport)] ∧
        Session env transport max (.error e) what s'.receiver) s := by
  have htold : ∀ (result : Except String Unit) (s₁ : State),
      (∃ what, s₁.did = s.did ++ what ∧ Session env transport max result what s₁.receiver) →
      wp (do
          let _ ← attempt (call env (.disconnected transport))
          lift result)
        (fun _ s' => ∃ what, s'.did = s.did ++ what ++ [.called (.disconnected transport)] ∧
          Session env transport max (.ok ()) what s'.receiver)
        (fun e s' => ∃ what, s'.did = s.did ++ what ++ [.called (.disconnected transport)] ∧
          Session env transport max (.error e) what s'.receiver) s₁ := by
    intro result s₁ h
    obtain ⟨what, hdid, hsession⟩ := h
    have hafter : s₁.did ++ [Did.called (.disconnected transport)] =
        s.did ++ what ++ [.called (.disconnected transport)] := by rw [hdid]
    unfold call did
    rw [wp_bind, wp_attempt, wp_bind, wp_modify, wp_lift]
    constructor
    · intro _ _
      rw [wp_lift]
      exact ⟨fun value h => ⟨what, hafter, h ▸ hsession⟩, fun e h => ⟨what, hafter, h ▸ hsession⟩⟩
    · intro _ _
      rw [wp_lift]
      exact ⟨fun value h => ⟨what, hafter, h ▸ hsession⟩, fun e h => ⟨what, hafter, h ▸ hsession⟩⟩
  unfold serve
  rw [wp_bind, wp_attempt]
  apply wp_mono (session_spec env transport max tls hreceiver)
  · intro _ s₁ h
    exact htold (.ok ()) s₁ h
  · intro error s₁ h
    exact htold (.error error) s₁ h

/-- A socket names the transport of its connection. -/
def OfTransport (transport : ℕ) (source : Source) : Prop :=
  ∀ socket, source = .socket socket → ∀ owner ∈ socket.owner, owner.1 = transport

/-- A connection asks for its own transport only, and asks nothing but what a connection
that serves may ask. -/
structure Sessions (transport : ℕ) (c : Connection) : Prop where
  transport_eq : c.transport = transport
  sources : ∀ (id : UInt32) (s : Stream), c.streams[id]? = some s → OfTransport transport s.source
  aimed : c.Aimed
  called : ∀ r, Observation.called r ∈ c.transcript → r.OfSession transport

theorem Sessions.asked {transport : ℕ} {c : Connection} {r : Request} (h : Sessions transport c)
    (hr : Connection.Asked (OfTransport transport) c r) : r.OfSession transport := by
  cases r with
  | root t enable => exact Eq.trans hr h.transport_eq
  | spawn t name => exact hr.1.trans h.transport_eq
  | bindReverse t spec => exact hr.1.trans h.transport_eq
  | closeService t service =>
      obtain ⟨fd, hsource⟩ := hr
      exact hsource _ rfl (t, service) rfl
  | authenticated | disconnected | closeReverse | pairResult => exact hr.elim

theorem sessions_steady (io : Io) (transport : ℕ) :
    Connection.Steady io (OfTransport transport) (Sessions transport) where
  bytes body socket hsocket := by cases hsocket
  accepted fd socket hsocket owner howner := by
    obtain rfl := Source.socket.inj hsocket
    cases howner
  spawned fd service h socket hsocket owner howner := by
    obtain rfl := Source.socket.inj hsocket
    obtain rfl := Option.some_inj.mp howner
    exact h.transport_eq
  sources h hstream := h.sources _ _ hstream
  aimed h := h.aimed
  congr h htransport _ hreverse htranscript hsources := by
    constructor
    · rw [htransport]
      exact h.transport_eq
    · exact hsources
    · intro spec r hr
      exact h.aimed spec r (hreverse ▸ hr)
    · rw [htranscript]
      exact h.called
  log h hregular := by
    constructor
    · exact h.transport_eq
    · exact h.sources
    · exact h.aimed
    · intro r hr
      rcases List.mem_append.mp hr with hold | hnew
      · exact h.called r hold
      · exact h.asked (hregular _ hnew)
  remove h hspec := by
    constructor
    · exact h.transport_eq
    · exact h.sources
    · exact h.aimed.erase _ _
    · intro r hr
      rcases List.mem_append.mp hr with hold | hnew
      · exact h.called r hold
      · obtain rfl := Observation.called.inj (List.mem_singleton.mp hnew)
        exact h.transport_eq
  insert h _ _ hremote _ := by
    constructor
    · exact h.transport_eq
    · exact h.sources
    · exact h.aimed.insert hremote _ _
    · exact h.called

theorem sessions_initial (tls : Tls) (transport max : ℕ) (now : Instant) :
    Sessions transport (Connection.initial tls transport max now) := by
  constructor
  · rfl
  · simp [Connection.initial]
  · intro spec r hr
    simp [Connection.initial] at hr
  · simp [Connection.initial]

theorem parse_sessions (io : ℕ → Io) {transport : ℕ} {r : Receiver}
    (h : Sessions transport r.connection) :
    Sessions transport (final (Receiver.parse io r)).connection := by
  fun_induction Receiver.parse io r with
  | case1 r hshort => exact h
  | case2 r hlong hlimit => exact h
  | case3 r hlong hlimit hpayload => exact h
  | case4 r hlong hlimit hpayload message hread => exact h
  | case5 r hlong hlimit hpayload packet rest hread message c hhandle =>
      have hkept := Connection.perform_steady (sessions_steady (io r.handed.length) transport)
        (.packet packet) r.connection h
      have hfailed := wp_of_error hkept hhandle
      exact hfailed
  | case6 r hlong hlimit hpayload packet rest hread c hhandle ih =>
      have hkept := Connection.perform_steady (sessions_steady (io r.handed.length) transport)
        (.packet packet) r.connection h
      have hhandled := wp_of_ok hkept hhandle
      exact ih hhandled

theorem aside_sessions {transport : ℕ} (answers : Io) (event : Connection.Event) :
    Preserves (fun r : Receiver => Sessions transport r.connection)
      (Receiver.aside (Connection.perform answers event)) := by
  intro r h
  have hkept := Connection.perform_steady (sessions_steady answers transport) event r.connection h
  unfold wp Receiver.aside
  unfold wp at hkept
  cases hrun : Connection.perform answers event r.connection with
  | ok value c =>
      rw [hrun] at hkept
      exact hkept
  | error message c =>
      rw [hrun] at hkept
      exact hkept

theorem act_sessions (io : ℕ → Io) {transport : ℕ} (action : Receiver.Action) :
    Preserves (fun r : Receiver => Sessions transport r.connection) (Receiver.act io action) := by
  cases action with
  | read chunk =>
      change Preserves _ (Receiver.receive io chunk)
      unfold Receiver.receive
      refine Preserves.bind (.modify fun r h => h) fun _ => ?_
      apply Preserves.get_bind
      intro _ _
      apply Preserves.bind (.ensure _ _)
      intro _ r h
      have hparsed := parse_sessions io h
      unfold wp
      cases hrun : Receiver.parse io r with
      | ok value r' =>
          rw [hrun] at hparsed
          exact hparsed
      | error e r' =>
          rw [hrun] at hparsed
          exact hparsed
  | services answers => exact aside_sessions answers .services
  | reverseAccept answers => exact aside_sessions answers .reverseAccept
  | flush answers => exact aside_sessions answers .flush

theorem dropStreams_sessions (answers : Io) {transport : ℕ} :
    Preserves (Sessions transport) (dropStreams answers) := by
  have hdrop (entries : List (UInt32 × Stream))
      (hentries : ∀ entry ∈ entries, OfTransport transport entry.2.source) :
      Preserves (Sessions transport)
        (entries.forM fun entry => Connection.dropSource answers entry.2.source) := by
    induction entries with
    | nil => exact .pure _
    | cons entry rest ih =>
        obtain ⟨hentry, hrest⟩ := List.forall_mem_cons.mp hentries
        apply Preserves.bind
        · exact Connection.dropSource_steady (sessions_steady answers transport) hentry
        · intro _
          exact ih hrest
  apply Preserves.get_bind
  intro c hc
  apply hdrop
  intro entry hentry
  exact hc.sources _ _ (Std.TreeMap.mem_toList_iff_getElem?_eq_some.mp hentry)

/-- What a connection asks for until it is gone. -/
theorem Session.sessions {env : Env σ} {transport max : ℕ} {result : Except String Unit}
    {what : List Did} {r : Receiver}
    (h : Session env transport max result what (some r)) : Sessions transport r.connection := by
  have hrun (tls : Tls) (actions : List Receiver.Action) :
      wp (Receiver.run env.io actions) (fun _ r => Sessions transport r.connection)
        (fun _ r => Sessions transport r.connection)
        (Receiver.start (Connection.initial tls transport max env.now)) :=
    Preserves.forM (fun action => act_sessions env.io action) actions _
      (sessions_initial tls transport max env.now)
  have hdropped {r : Receiver} (hr : Sessions transport r.connection) :
      Sessions transport (dropped env.drop r).connection :=
    (dropStreams_sessions env.drop).final hr
  cases h with
  | left tls r hreached =>
      obtain ⟨actions, -, hactions⟩ := hreached
      have hended := wp_of_ok (hrun tls actions) hactions
      exact hdropped hended
  | broken tls e r hbroke =>
      obtain ⟨actions, -, hfailed | ⟨hactions, -⟩⟩ := hbroke
      · have hended := wp_of_error (hrun tls actions) hfailed
        exact hdropped hended
      · have hended := wp_of_ok (hrun tls actions) hactions
        exact hdropped hended

/-! ## The thread of a connection -/

/-- What the thread of a connection does in the worker, in whatever processes it takes
its steps.  What its calls return there is what the broker answers here. -/
structure Followed (store : Store) (env : Env σ) (i : ℕ) (result : Except String Unit)
    (did : List Did) (receiver : Option Receiver) : Prop where
  /-- A connection that does not name its host fails. -/
  unnamed : (∀ fp, Did.called (.authenticated (i + 1) fp) ∉ did) → result.isOk = false ∧
    ∀ (p : Process) (thread : TransportThread), p.threads[i]? = some thread →
      thread.stage = .handshake → p.transport i .fail = some (p.setStage i .ended)
  once : ∀ fp fp', Did.called (.authenticated (i + 1) fp) ∈ did →
    Did.called (.authenticated (i + 1) fp') ∈ did → fp = fp'
  named : ∀ fp, Did.called (.authenticated (i + 1) fp) ∈ did →
    ∀ (p : Process) (thread : TransportThread), p.threads[i]? = some thread →
      thread.stage = .handshake → thread.allowed = store.hosts.map Host.fingerprint →
        p.transport i (.authenticate fp) =
          p.enter (.authenticated (i + 1) fp) fun c => Process.setStage i (.authenticating fp c)
  /-- A rejected connection ends with the error of the call. -/
  rejected : ∀ fp error, Did.called (.authenticated (i + 1) fp) ∈ did →
    env.broker (.authenticated (i + 1) fp) = .error error →
      result = .error error ∧ Did.called (.disconnected (i + 1)) ∉ did ∧
        ∀ (p : Process) (thread : TransportThread) (c : ℕ), p.threads[i]? = some thread →
          thread.stage = .authenticating fp c → p.broker.returned c = some (.error error) →
            p.transport i .resume = some (p.setStage i .ended)
  /-- An admitted one serves and takes its leave. -/
  admitted : ∀ fp value, Did.called (.authenticated (i + 1) fp) ∈ did →
    env.broker (.authenticated (i + 1) fp) = .ok value →
      did.getLast? = some (.called (.disconnected (i + 1))) ∧
        ∀ (p : Process) (thread : TransportThread) (c : ℕ), p.threads[i]? = some thread →
          (thread.stage = .authenticating fp c → p.broker.returned c = some (.ok value) →
            p.transport i .resume = some (p.setStage i (.serving fp))) ∧
          (thread.stage = .serving fp → p.transport i .leave =
            p.enter (.disconnected (i + 1)) fun c => Process.setStage i (.leaving c))
  /-- What the connection asks for is what the thread may ask for while it serves. -/
  asks : ∀ r ∈ receiver, ∀ request, Observation.called request ∈ r.connection.transcript →
    ∀ (p : Process) (thread : TransportThread) (fp : String), p.threads[i]? = some thread →
      thread.stage = .serving fp → p.transport i (.ask request) =
        p.enter request fun c => Process.setStage i (.asking fp c)

theorem Followed.of_unnamed {store : Store} {env : Env σ} {i : ℕ} {error : String}
    {did : List Did} (h : ∀ fp, Did.called (.authenticated (i + 1) fp) ∉ did) :
    Followed store env i (.error error) did none where
  unnamed _ := by
    constructor
    · rfl
    · intro p thread hthread hstage
      simp [Process.transport, hthread, hstage]
  once fp _ hfp := absurd hfp (h fp)
  named fp hfp := absurd hfp (h fp)
  rejected fp _ hfp := absurd hfp (h fp)
  admitted fp _ hfp := absurd hfp (h fp)
  asks r hr := absurd hr (Option.not_mem_none r)

/-- The thread asks for a host that is allowed. -/
theorem Entered.authenticates {store : Store} {input : Bytes} {fp : String} {max i : ℕ}
    {p : Process} {thread : TransportThread} (h : Entered store input fp max)
    (hthread : p.threads[i]? = some thread) (hstage : thread.stage = .handshake)
    (hallowed : thread.allowed = store.hosts.map Host.fingerprint) :
    p.transport i (.authenticate fp) =
      p.enter (.authenticated (i + 1) fp) fun c =>
        Process.setStage i (.authenticating fp c) := by
  obtain ⟨host, hhost, hfp⟩ := h.trusted
  have hmem : fp ∈ thread.allowed := by
    rw [hallowed]
    exact List.mem_map.mpr ⟨host, hhost, hfp⟩
  simp [Process.transport, hthread, hstage, hmem]

/-- The closure makes no calls of its own. -/
theorem Session.banners {env : Env σ} {transport max : ℕ} {result : Except String Unit}
    {what : List Did} {receiver : Option Receiver}
    (h : Session env transport max result what receiver) (request : Request) :
    Did.called request ∉ what := by
  cases h with
  | silent => exact List.not_mem_nil
  | failed | left | broken =>
      intro hmem
      cases List.mem_singleton.mp hmem

theorem Lived.followed {store : Store} {env : Env σ} {input : Bytes} {i : ℕ}
    {result : Except String Unit} {did : List Did} {receiver : Option Receiver}
    (h : Lived store env (i + 1) input result did receiver) :
    Followed store env i result did receiver := by
  cases h with
  | refused error what hquiet =>
      apply Followed.of_unnamed
      intro fp hfp
      cases hquiet _ hfp
  | rejected error fp max hentered hbroker =>
      have hname : ∀ fp', Did.called (.authenticated (i + 1) fp') ∈
          [Did.wrote (Packet.encode ⟨STLS, STLS_VERSION, 0, []⟩ false),
            .called (.authenticated (i + 1) fp)] → fp' = fp := by
        intro fp' hfp
        simpa using hfp
      constructor
      · intro hnone
        exact absurd (List.mem_cons_of_mem _ List.mem_cons_self) (hnone fp)
      · intro fp₁ fp₂ h₁ h₂
        rw [hname fp₁ h₁, hname fp₂ h₂]
      · intro fp' hfp p thread hthread hstage hallowed
        obtain rfl := hname fp' hfp
        exact hentered.authenticates hthread hstage hallowed
      · intro fp' error' hfp herror
        obtain rfl := hname fp' hfp
        obtain rfl := Except.error.inj (hbroker.symm.trans herror)
        refine ⟨rfl, by simp, ?_⟩
        intro p thread c hthread hstage hreturned
        simp [Process.transport, hthread, hstage, hreturned]
      · intro fp' value hfp hvalue
        obtain rfl := hname fp' hfp
        cases hbroker.symm.trans hvalue
      · intro r hr
        exact absurd hr (Option.not_mem_none r)
  | served result fp max what receiver hentered hbroker hsession =>
      obtain ⟨value, hbroker⟩ := hbroker
      have hname : ∀ fp', Did.called (.authenticated (i + 1) fp') ∈
          [Did.wrote (Packet.encode ⟨STLS, STLS_VERSION, 0, []⟩ false),
            .called (.authenticated (i + 1) fp)] ++ what ++
              [.called (.disconnected (i + 1))] → fp' = fp := by
        intro fp' hfp
        simpa [hsession.banners] using hfp
      constructor
      · intro hnone
        exact absurd (by simp) (hnone fp)
      · intro fp₁ fp₂ h₁ h₂
        rw [hname fp₁ h₁, hname fp₂ h₂]
      · intro fp' hfp p thread hthread hstage hallowed
        obtain rfl := hname fp' hfp
        exact hentered.authenticates hthread hstage hallowed
      · intro fp' error hfp herror
        obtain rfl := hname fp' hfp
        cases hbroker.symm.trans herror
      · intro fp' value' hfp _
        obtain rfl := hname fp' hfp
        constructor
        · exact List.getLast?_concat
        · intro p thread c hthread
          constructor
          · intro hstage hreturned
            simp [Process.transport, hthread, hstage, hreturned]
          · intro hstage
            simp [Process.transport, hthread, hstage]
      · intro r hr request hrequest p thread fp' hthread hstage
        obtain rfl := Option.mem_def.mp hr
        have hasks := hsession.sessions.called request hrequest
        simp [Process.transport, hthread, hstage, hasks]

/-- The opening of a host, and answers that admit it and then end the loop. -/
def opening : Bytes :=
  Packet.encode ⟨CNXN, VERSION, 1048576, []⟩ true ++ Packet.encode ⟨STLS, STLS_VERSION, 0, []⟩ true

def admitting : Env (Option Digest) where
  options := .ok ()
  stls := .ok ()
  accept := TlsAccept.oneRound
  broker := fun _ => .ok ("", [])
  banner := fun tls _ => .ok tls
  flush := fun tls => .ok tls
  nonblocking := .ok ()
  now := 0
  io := fun _ => (Connection.Turn.packet 0 CLSE 1 9 []).answers
  turns := []
  drop := (Connection.Turn.packet 0 CLSE 1 9 []).answers

end TransportRun

end Altdb
