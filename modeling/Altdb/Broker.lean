import Altdb.Ipc
import Std.Data.TreeMap

/-!
# Calls from the worker to the supervisor

The threads of the worker share one socket to the supervisor.  `Broker::call`
takes an id, registers a channel for the answer, sends the request and waits;
the main loop of the worker hands each reply to the channel registered for
its id.  An invocation is broken up at every access to shared state, so that
the steps of all threads, of the main loop and of the supervisor interleave.
-/

namespace Altdb

/-- Replacing an entry that exists. -/
theorem getElem?_replace {α : Type*} {l : List α} {c : ℕ} {x : α}
    (h : l[c]? = some x) (y : α) (i : ℕ) :
    (l.set c y)[i]? = if i = c then some y else l[i]? := by
  have hlt : c < l.length := (List.getElem?_eq_some_iff.mp h).1
  rw [List.getElem?_set]
  by_cases heq : i = c
  · subst heq
    simp [hlt]
  · rw [if_neg (Ne.symm heq), if_neg heq]

abbrev CallResult := Except String (String × List Fd)

structure Answer where
  ok : Bool
  message : String
  fds : List Fd
  deriving DecidableEq, Repr

/-- `ensure!(ok, "{message}"); Ok((message, fds))`. -/
def Answer.result (answer : Answer) : CallResult :=
  if answer.ok then .ok (answer.message, answer.fds) else .error answer.message

/-- Where an invocation of `Broker::call` stands. -/
inductive Progress where
  /-- The id is taken and the channel made. -/
  | identified
  /-- `peers` knows about the request. -/
  | announced
  /-- The channel is registered in `pending`. -/
  | enrolled
  /-- The request is sent, the thread waits in `recv_timeout`. -/
  | sent
  /-- The closure has returned. -/
  | settled (result : CallResult)
  /-- The registration in `pending` is removed. -/
  | withdrawn (result : CallResult)
  | returned (result : CallResult)

/-- One invocation of `Broker::call` with its channel.  `taken` and the
position next to the buffered answer are history variables: they name a reply
by its place in the order of arrival. -/
structure Call where
  id : ℕ
  request : Request
  progress : Progress
  buffer : Option (ℕ × Answer)
  taken : Option ℕ

def Call.moved (call : Call) (progress : Progress) : Call :=
  { call with progress := progress }

/-- A message on its way to the supervisor.  `caller` is a history variable:
the invocation that sent it. -/
structure Posted where
  message : Message
  caller : Option ℕ
  deriving DecidableEq, Repr

/-- `Shared` with all invocations so far, in the order of their ids.  The
sender registered in `pending` is named by its invocation.  `outbox` holds
what was sent on the socket and not yet received, oldest first, and `arrivals`
is a history variable: the replies that the main loop has handled. -/
structure Broker where
  next : ℕ
  pending : Std.TreeMap ℕ ℕ
  peers : Std.TreeMap ℕ String
  outbox : List Posted
  calls : List Call
  arrivals : List (ℕ × Answer)

inductive CallStep where
  | announce
  | enroll
  | send (outcome : Except String Unit)
  | receive
  | giveUp (error : String)
  | withdraw
  | finish

/-- The result of the closure, once it has returned. -/
def Progress.result? : Progress → Option CallResult
  | .settled result | .withdrawn result | .returned result => some result
  | _ => none

/-- Whether the send is over. -/
def Progress.Posted : Progress → Prop
  | .identified | .announced | .enrolled => False
  | _ => True

/-- Whether `pending` may hold the channel. -/
def Progress.Registered : Progress → Prop
  | .enrolled | .sent | .settled _ => True
  | _ => False

/-- What a call does to `peers` before its request is sent. -/
def Request.announce (peers : Std.TreeMap ℕ String) :
    Request → Std.TreeMap ℕ String
  | .authenticated transport fingerprint => peers.insert transport fingerprint
  | .disconnected transport => peers.erase transport
  | _ => peers

/-- What a call does to `peers` before it returns. -/
def Request.retract (peers : Std.TreeMap ℕ String) :
    Request → CallResult → Std.TreeMap ℕ String
  | .authenticated transport _, .error _ => peers.erase transport
  | _, _ => peers

/-- `tx.try_send`: it fails once the receiver is gone or the buffer is full. -/
def Call.trySend (call : Call) (item : ℕ × Answer) : Call :=
  match call.progress, call.buffer with
  | .returned _, _ | _, some _ => call
  | _, none => { call with buffer := some item }

namespace Broker

/-- `Broker::new`. -/
def initial : Broker where
  next := 1
  pending := ∅
  peers := ∅
  outbox := []
  calls := []
  arrivals := []

/-- A thread enters `call`.  A worker makes fewer than `2 ^ 64` calls; what the
counter does beyond is not modelled. -/
def call (request : Request) (b : Broker) : Option Broker :=
  if b.next < 2 ^ 64 then
    some { b with
      next := b.next + 1
      calls := b.calls ++ [{
        id := b.next
        request := request
        progress := .identified
        buffer := none
        taken := none }] }
  else none

def put (c : ℕ) (call : Call) (b : Broker) : Broker :=
  { b with calls := b.calls.set c call }

/-- The next access of an invocation to shared state. -/
def advance (c : ℕ) (part : CallStep) (b : Broker) : Option Broker := do
  let call ← b.calls[c]?
  match part, call.progress with
  | .announce, .identified =>
      some { b.put c (call.moved .announced) with
        peers := call.request.announce b.peers }
  | .enroll, .announced =>
      some { b.put c (call.moved .enrolled) with
        pending := b.pending.insert call.id c }
  | .send (.ok ()), .enrolled =>
      some { b.put c (call.moved .sent) with
        outbox := b.outbox ++ [⟨.request call.id call.request, some c⟩] }
  | .send (.error error), .enrolled =>
      some (b.put c (call.moved (.settled (.error error))))
  | .receive, .sent =>
      match call.buffer with
      | some (k, answer) =>
          some (b.put c { call.moved (.settled answer.result) with
            buffer := none
            taken := some k })
      | none => none
  -- `recv_timeout` ends without an answer: after ten seconds, or because the
  -- sender was dropped.
  | .giveUp error, .sent =>
      some (b.put c (call.moved (.settled (.error error))))
  | .withdraw, .settled result =>
      some { b.put c (call.moved (.withdrawn result)) with
        pending := b.pending.erase call.id }
  | .finish, .withdrawn result =>
      some { b.put c (call.moved (.returned result)) with
        peers := call.request.retract b.peers result }
  | _, _ => none

/-- The main loop handles a reply.  The entry is removed and the answer sent
while the table is locked. -/
def deliver (id : ℕ) (answer : Answer) (b : Broker) : Broker :=
  { b with
    pending := b.pending.erase id
    calls := match b.pending[id]? with
      | some c => b.calls.modify c fun call =>
          call.trySend (b.arrivals.length, answer)
      | none => b.calls
    arrivals := b.arrivals ++ [(id, answer)] }

/-- `pending.lock().unwrap().clear()`. -/
def clear (b : Broker) : Broker := { b with pending := ∅ }

/-- The result of an invocation that is over. -/
def returned (c : ℕ) (b : Broker) : Option CallResult :=
  match b.calls[c]? with
  | some { progress := .returned result, .. } => some result
  | _ => none

/-! ## What one access does -/

/-- The cases of `advance`. -/
inductive Advanced (b : Broker) (c : ℕ) (call : Call) :
    CallStep → Broker → Prop
  | announce (h : call.progress = .identified) :
      Advanced b c call .announce
        { b.put c (call.moved .announced) with
          peers := call.request.announce b.peers }
  | enroll (h : call.progress = .announced) :
      Advanced b c call .enroll
        { b.put c (call.moved .enrolled) with
          pending := b.pending.insert call.id c }
  | send (h : call.progress = .enrolled) :
      Advanced b c call (.send (.ok ()))
        { b.put c (call.moved .sent) with
          outbox := b.outbox ++ [⟨.request call.id call.request, some c⟩] }
  | sendFailed (error : String) (h : call.progress = .enrolled) :
      Advanced b c call (.send (.error error))
        (b.put c (call.moved (.settled (.error error))))
  | receive (k : ℕ) (answer : Answer) (h : call.progress = .sent)
      (hbuffer : call.buffer = some (k, answer)) :
      Advanced b c call .receive
        (b.put c { call.moved (.settled answer.result) with
          buffer := none
          taken := some k })
  | giveUp (error : String) (h : call.progress = .sent) :
      Advanced b c call (.giveUp error)
        (b.put c (call.moved (.settled (.error error))))
  | withdraw (result : CallResult) (h : call.progress = .settled result) :
      Advanced b c call .withdraw
        { b.put c (call.moved (.withdrawn result)) with
          pending := b.pending.erase call.id }
  | finish (result : CallResult) (h : call.progress = .withdrawn result) :
      Advanced b c call .finish
        { b.put c (call.moved (.returned result)) with
          peers := call.request.retract b.peers result }

variable {b b' : Broker} {c : ℕ} {part : CallStep}

theorem advance_cases (h : b.advance c part = some b') :
    ∃ call, b.calls[c]? = some call ∧ Advanced b c call part b' := by
  unfold advance at h
  cases hcall : b.calls[c]? with
  | none => simp [hcall] at h
  | some call =>
      refine ⟨call, rfl, ?_⟩
      simp only [hcall, Option.bind_eq_bind, Option.bind_some] at h
      split at h
      · next hp => cases h; exact .announce hp
      · next hp => cases h; exact .enroll hp
      · next hp => cases h; exact .send hp
      · next hp => cases h; exact .sendFailed _ hp
      · next hp =>
        split at h
        · next k answer hbuffer => cases h; exact .receive k answer hp hbuffer
        · cases h
      · next hp => cases h; exact .giveUp _ hp
      · next hp => cases h; exact .withdraw _ hp
      · next hp => cases h; exact .finish _ hp
      · cases h

theorem call_eq (request : Request) (h : b.call request = some b') :
    b.next < 2 ^ 64 ∧ b' = { b with
      next := b.next + 1
      calls := b.calls ++ [⟨b.next, request, .identified, none, none⟩] } := by
  unfold call at h
  split at h
  · next hlt => exact ⟨hlt, by cases h; rfl⟩
  · cases h

theorem put_calls {call call' : Call} (h : b.calls[c]? = some call) (i : ℕ) :
    (b.put c call').calls[i]? = if i = c then some call' else b.calls[i]? :=
  getElem?_replace h call' i

end Broker

end Altdb
