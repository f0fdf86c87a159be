import Altdb.Broker
import Altdb.Transition
import Mathlib.Data.List.Perm.Basic

/-!
# Matching replies with calls

`Exchange` runs the calls of all threads against a supervisor that answers the
requests in any order and with any content.  Ids are given out once, so a
reply reaches the invocation that sent its request or nobody.
-/

namespace Altdb

open Relation

theorem getElem?_extend {α : Type*} {l : List α} {k : ℕ} {x : α}
    (h : l[k]? = some x) (later : List α) : (l ++ later)[k]? = some x := by
  have hlt : k < l.length := (List.getElem?_eq_some_iff.mp h).1
  rw [List.getElem?_append_left hlt, h]

/-! ## Invariant of the broker -/

/-- What is known about invocation `c` and the replies that have arrived. -/
structure Call.Sound (arrivals : List (ℕ × Answer)) (c : ℕ) (call : Call) :
    Prop where
  id_eq : call.id = c + 1
  buffered : ∀ k answer, call.buffer = some (k, answer) →
    arrivals[k]? = some (call.id, answer)
  received : ∀ k, call.taken = some k → ∃ answer,
    arrivals[k]? = some (call.id, answer) ∧
      call.progress.result? = some answer.result
  succeeded : ∀ value, call.progress.result? = some (.ok value) →
    call.taken.isSome

theorem Call.Sound.mono {arrivals : List (ℕ × Answer)} {c : ℕ} {call : Call}
    (h : call.Sound arrivals c) (later : List (ℕ × Answer)) :
    call.Sound (arrivals ++ later) c where
  id_eq := h.id_eq
  buffered k answer hbuffer := getElem?_extend (h.buffered k answer hbuffer) _
  received k htaken := by
    obtain ⟨answer, hk, hresult⟩ := h.received k htaken
    exact ⟨answer, getElem?_extend hk _, hresult⟩
  succeeded := h.succeeded

namespace Broker

structure Consistent (b : Broker) : Prop where
  next_eq : b.next = b.calls.length + 1
  sound : ∀ (c : ℕ) (call : Call), b.calls[c]? = some call →
    call.Sound b.arrivals c
  registered : ∀ (id c : ℕ), b.pending[id]? = some c → ∃ call : Call,
    b.calls[c]? = some call ∧ call.id = id ∧ call.progress.Registered

theorem initial_consistent : initial.Consistent where
  next_eq := rfl
  sound c call h := by simp [initial] at h
  registered id c h := by simp [initial] at h

variable {b b' : Broker} {c : ℕ} {part : CallStep}

theorem Consistent.call (h : b.Consistent) {request : Request}
    (hcall : b.call request = some b') : b'.Consistent := by
  obtain ⟨-, rfl⟩ := call_eq request hcall
  constructor
  · simp [h.next_eq]
  · intro i call hi
    rw [List.getElem?_append] at hi
    split at hi
    · exact h.sound i call hi
    · next hge =>
      rw [List.getElem?_singleton] at hi
      split at hi
      · next heq =>
        obtain rfl : i = b.calls.length := by omega
        cases hi
        exact ⟨h.next_eq, by simp, by simp, by simp [Progress.result?]⟩
      · cases hi
  · intro id i hi
    obtain ⟨call, hc, hid, hprogress⟩ := h.registered id i hi
    exact ⟨call, getElem?_extend hc _, hid, hprogress⟩

/-- An access changes one invocation and keeps its identity. -/
theorem Advanced.moved {call : Call} (h : b.calls[c]? = some call)
    (hstep : Advanced b c call part b') :
    ∃ call', (∀ i : ℕ, b'.calls[i]? = if i = c then some call' else b.calls[i]?) ∧
      call'.id = call.id ∧ call'.request = call.request ∧
      b'.next = b.next ∧ b'.arrivals = b.arrivals ∧
      b'.calls.length = b.calls.length := by
  cases hstep
  all_goals exact ⟨_, put_calls h, rfl, rfl, rfl, rfl, List.length_set⟩

theorem Advanced.sound {call : Call} (hc : b.calls[c]? = some call)
    (hstep : Advanced b c call part b') (h : call.Sound b.arrivals c) {call' : Call}
    (hc' : b'.calls[c]? = some call') : call'.Sound b.arrivals c := by
  obtain ⟨hid, hbuffered, hreceived, hsucceeded⟩ := h
  cases hstep <;> rw [put_calls hc, if_pos rfl] at hc' <;> cases hc'
  case announce hp | enroll hp | send hp =>
    refine ⟨hid, hbuffered, fun k hk => ?_, by simp [Call.moved, Progress.result?]⟩
    obtain ⟨_, -, hresult⟩ := hreceived k hk
    simp [hp, Progress.result?] at hresult
  case sendFailed hp | giveUp hp =>
    refine ⟨hid, hbuffered, fun k hk => ?_, by simp [Call.moved, Progress.result?]⟩
    obtain ⟨_, -, hresult⟩ := hreceived k hk
    simp [hp, Progress.result?] at hresult
  case receive k answer hp hbuffer =>
    refine ⟨hid, by simp, fun k' hk' => ?_, by simp⟩
    obtain rfl : k = k' := by simpa using hk'
    exact ⟨answer, hbuffered k answer hbuffer, rfl⟩
  case withdraw result hp | finish result hp =>
    simp only [hp, Progress.result?] at hreceived hsucceeded
    exact ⟨hid, hbuffered, hreceived, hsucceeded⟩

/-- Only `withdraw` leaves the registered stretch, and it removes the entry. -/
theorem Advanced.registered (h : b.Consistent) {call : Call}
    (hc : b.calls[c]? = some call) (hstep : Advanced b c call part b')
    {id i : ℕ} (hi : b'.pending[id]? = some i) :
    ∃ call : Call, b'.calls[i]? = some call ∧ call.id = id ∧
      call.progress.Registered := by
  obtain ⟨call', hcalls, hid, -⟩ := hstep.moved hc
  have hc' : b'.calls[c]? = some call' := by rw [hcalls, if_pos rfl]
  have hkept (hi : b.pending[id]? = some i)
      (hregistered : i = c → call'.progress.Registered) : ∃ call : Call,
      b'.calls[i]? = some call ∧ call.id = id ∧ call.progress.Registered := by
    obtain ⟨other, hother, hotherId, hprogress⟩ := h.registered id i hi
    by_cases heq : i = c
    · subst heq
      obtain rfl : call = other := by simpa [hc] using hother
      exact ⟨call', hc', hid.trans hotherId, hregistered rfl⟩
    · exact ⟨other, by rw [hcalls, if_neg heq, hother], hotherId, hprogress⟩
  have hown (hi : b.pending[id]? = some c) :
      call.id = id ∧ call.progress.Registered := by
    obtain ⟨other, hother, hotherId, hprogress⟩ := h.registered id c hi
    obtain rfl : call = other := by simpa [hc] using hother
    exact ⟨hotherId, hprogress⟩
  cases hstep <;> rw [put_calls hc, if_pos rfl] at hc' <;> cases hc'
  case announce hp =>
    refine hkept hi fun heq => ?_
    simpa [hp, Progress.Registered] using (hown (heq ▸ hi)).2
  case enroll hp =>
    simp only [Std.TreeMap.getElem?_insert] at hi
    split at hi
    · next heq =>
      cases hi
      exact ⟨call.moved .enrolled, by rw [hcalls, if_pos rfl],
        compare_eq_iff_eq.mp heq, trivial⟩
    · exact hkept hi fun _ => trivial
  case send | sendFailed | receive | giveUp => exact hkept hi fun _ => trivial
  case withdraw hp =>
    simp only [Std.TreeMap.getElem?_erase] at hi
    split at hi
    · cases hi
    · next hne =>
      refine hkept hi fun heq => ?_
      exact absurd (compare_eq_iff_eq.mpr (hown (heq ▸ hi)).1) hne
  case finish hp =>
    refine hkept hi fun heq => ?_
    simpa [hp, Progress.Registered] using (hown (heq ▸ hi)).2

theorem Consistent.advance (h : b.Consistent)
    (hadvance : b.advance c part = some b') : b'.Consistent := by
  obtain ⟨call, hc, hstep⟩ := advance_cases hadvance
  obtain ⟨call', hcalls, hid, -, hnext, harrivals, hlength⟩ := hstep.moved hc
  constructor
  · rw [hnext, hlength, h.next_eq]
  · intro i other hi
    rw [harrivals]
    by_cases heq : i = c
    · subst heq
      exact hstep.sound hc (h.sound i call hc) hi
    · rw [hcalls, if_neg heq] at hi
      exact h.sound i other hi
  · intro id i hi
    exact hstep.registered h hc hi

/-- `try_send` leaves everything but the buffer. -/
theorem trySend_eq (call : Call) (item : ℕ × Answer) :
    ∃ buffer, call.trySend item = { call with buffer := buffer } ∧
      (buffer = call.buffer ∨ buffer = some item) := by
  unfold Call.trySend
  split
  · exact ⟨_, rfl, .inl rfl⟩
  · exact ⟨_, rfl, .inl rfl⟩
  · exact ⟨_, rfl, .inr rfl⟩

/-- A handled reply changes one buffer. -/
theorem deliver_calls (id : ℕ) (answer : Answer) (b : Broker) (i : ℕ) :
    (b.deliver id answer).calls[i]? =
      if b.pending[id]? = some i then
        b.calls[i]?.map fun call => call.trySend (b.arrivals.length, answer)
      else b.calls[i]? := by
  unfold deliver
  cases hpending : b.pending[id]? with
  | none => simp
  | some c => 
      simp only [List.getElem?_modify, Option.some.injEq]
      split <;> simp

theorem Consistent.deliver (h : b.Consistent) (id : ℕ) (answer : Answer) :
    (b.deliver id answer).Consistent := by
  have hlength : (b.deliver id answer).calls.length = b.calls.length := by
    unfold Broker.deliver
    split <;> simp
  constructor
  · rw [hlength]
    exact h.next_eq
  · intro i call hi
    rw [deliver_calls] at hi
    change call.Sound (b.arrivals ++ [(id, answer)]) i
    split at hi
    · next hpending =>
      obtain ⟨old, hold, hid, -⟩ := h.registered id i hpending
      rw [hold, Option.map_some, Option.some_inj] at hi
      subst hi
      have hsound := (h.sound i old hold).mono [(id, answer)]
      obtain ⟨buffer, heq, hbuffer⟩ := trySend_eq old (b.arrivals.length, answer)
      rw [heq]
      refine ⟨hsound.id_eq, fun k answer' hk => ?_, hsound.received,
        hsound.succeeded⟩
      rcases hbuffer with hkeep | hnew
      · exact hsound.buffered k answer' (hkeep ▸ hk)
      · obtain ⟨rfl, rfl⟩ : b.arrivals.length = k ∧ answer = answer' := by
          simpa [hnew] using hk
        simp [hid]
    · exact (h.sound i call hi).mono _
  · intro other i hi
    simp only [Broker.deliver, Std.TreeMap.getElem?_erase] at hi
    split at hi
    · cases hi
    · obtain ⟨call, hc, hid, hprogress⟩ := h.registered other i hi
      rw [deliver_calls, hc, Option.map_some]
      split
      · obtain ⟨buffer, heq, -⟩ := trySend_eq call (b.arrivals.length, answer)
        exact ⟨_, rfl, by rw [heq]; exact hid, by rw [heq]; exact hprogress⟩
      · exact ⟨call, rfl, hid, hprogress⟩

theorem Consistent.clear (h : b.Consistent) : b.clear.Consistent where
  next_eq := h.next_eq
  sound := h.sound
  registered id c hc := by simp [Broker.clear] at hc

end Broker

/-! ## Invocations over time -/

/-- What stays when time passes for an invocation. -/
structure Call.Leads (call call' : Call) : Prop where
  id_eq : call'.id = call.id
  request_eq : call'.request = call.request
  posted : call.progress.Posted → call'.progress.Posted
  settled : call.progress.result?.isSome →
    call'.progress.result? = call.progress.result? ∧ call'.taken = call.taken

theorem Call.Leads.refl (call : Call) : call.Leads call :=
  ⟨rfl, rfl, fun h => h, fun _ => ⟨rfl, rfl⟩⟩

namespace Broker

/-- Every invocation of `b` is continued in `b'`. -/
def Leads (b b' : Broker) : Prop :=
  ∀ (c : ℕ) (call : Call), b.calls[c]? = some call →
    ∃ call', b'.calls[c]? = some call' ∧ call.Leads call'

variable {b b' : Broker} {c : ℕ} {part : CallStep}

theorem Leads.of_eq (h : b'.calls = b.calls) : b.Leads b' :=
  fun _ call hc => ⟨call, h ▸ hc, .refl call⟩

theorem leads_call {request : Request} (h : b.call request = some b') :
    b.Leads b' := by
  obtain ⟨-, rfl⟩ := call_eq request h
  exact fun _ call hc => ⟨call, getElem?_extend hc _, .refl call⟩

theorem Advanced.leads {call : Call} (hc : b.calls[c]? = some call)
    (h : Advanced b c call part b') {call' : Call}
    (hc' : b'.calls[c]? = some call') : call.Leads call' := by
  cases h <;> rw [put_calls hc, if_pos rfl] at hc' <;> cases hc'
  all_goals
    refine ⟨rfl, rfl, ?_, ?_⟩ <;>
      simp_all [Call.moved, Progress.Posted, Progress.result?]

theorem leads_advance (h : b.advance c part = some b') : b.Leads b' := by
  obtain ⟨call, hc, hstep⟩ := advance_cases h
  obtain ⟨call', hcalls, -⟩ := hstep.moved hc
  intro i other hi
  by_cases heq : i = c
  · subst heq
    obtain rfl : call = other := by simpa [hc] using hi
    have hc' : b'.calls[i]? = some call' := by rw [hcalls, if_pos rfl]
    exact ⟨call', hc', hstep.leads hc hc'⟩
  · exact ⟨other, by rw [hcalls, if_neg heq, hi], .refl other⟩

theorem leads_deliver (id : ℕ) (answer : Answer) (b : Broker) :
    b.Leads (b.deliver id answer) := by
  intro i call hi
  rw [deliver_calls, hi]
  split
  · obtain ⟨buffer, heq, -⟩ := trySend_eq call (b.arrivals.length, answer)
    refine ⟨{ call with buffer := buffer }, by rw [Option.map_some, heq], ?_⟩
    exact ⟨rfl, rfl, fun h => h, fun _ => ⟨rfl, rfl⟩⟩
  · exact ⟨call, rfl, .refl call⟩

end Broker

/-! ## Calls against an arbitrary supervisor -/

/-- A reply of the supervisor.  `caller` is a history variable: the
invocation that sent the answered request. -/
structure Reply where
  caller : ℕ
  id : ℕ
  answer : Answer
  deriving DecidableEq, Repr

/-- The broker with the replies on their way to it.  `arrived` is a history
variable: the replies that the main loop has handled, oldest first. -/
structure Exchange where
  broker : Broker
  replies : List Reply
  arrived : List Reply

namespace Exchange

def initial : Exchange where
  broker := .initial
  replies := []
  arrived := []

/-- The supervisor takes the request at place `i` and may reply to it. -/
def serve (i : ℕ) (reply : Option Reply) (s : Exchange) : Exchange :=
  { s with
    broker := { s.broker with outbox := s.broker.outbox.eraseIdx i }
    replies := s.replies ++ reply.toList }

/-- The main loop handles the reply at place `i`. -/
def deliver (i : ℕ) (reply : Reply) (s : Exchange) : Exchange where
  broker := s.broker.deliver reply.id reply.answer
  replies := s.replies.eraseIdx i
  arrived := s.arrived ++ [reply]

/-- One step of a thread, of the main loop or of a supervisor whose replies
carry the id of the request they answer. -/
inductive Step : Exchange → Exchange → Prop
  | call (s : Exchange) (request : Request) (broker : Broker)
      (h : s.broker.call request = some broker) :
      Step s { s with broker := broker }
  | advance (s : Exchange) (c : ℕ) (part : CallStep) (broker : Broker)
      (h : s.broker.advance c part = some broker) :
      Step s { s with broker := broker }
  | ready (s : Exchange) :
      Step s { s with broker := { s.broker with
        outbox := s.broker.outbox ++ [⟨.ready, none⟩] } }
  | answer (s : Exchange) (i c id : ℕ) (request : Request) (answer : Answer)
      (h : s.broker.outbox[i]? = some ⟨.request id request, some c⟩) :
      Step s (s.serve i (some ⟨c, id, answer⟩))
  | ignore (s : Exchange) (i : ℕ) : Step s (s.serve i none)
  | deliver (s : Exchange) (i : ℕ) (reply : Reply)
      (h : s.replies[i]? = some reply) : Step s (s.deliver i reply)
  | close (s : Exchange) : Step s { s with broker := s.broker.clear }

abbrev Reachable : Exchange → Prop :=
  Transition.Reachable (· = initial) Step

/-- The invocations whose request is on its way or was answered. -/
def callers (s : Exchange) : List ℕ :=
  s.broker.outbox.filterMap Posted.caller ++
    (s.replies ++ s.arrived).map Reply.caller

/-- Requests and replies name the invocation whose id they carry, and each
invocation at most once. -/
structure Invariant (s : Exchange) : Prop where
  consistent : s.broker.Consistent
  arrivals_eq : s.broker.arrivals =
    s.arrived.map fun reply => (reply.id, reply.answer)
  asked : ∀ p ∈ s.broker.outbox, ∀ c, p.caller = some c → ∃ call : Call,
    s.broker.calls[c]? = some call ∧
      p.message = .request call.id call.request
  unasked : ∀ p ∈ s.broker.outbox, p.caller = none → p.message = .ready
  addressed : ∀ reply ∈ s.replies ++ s.arrived, reply.id = reply.caller + 1
  posted : ∀ c ∈ s.callers, ∃ call : Call, s.broker.calls[c]? = some call ∧
    call.progress.Posted
  once : s.callers.Nodup

/-- An invocation whose closure has returned stays so, with the same reply or
without any, and stays out of `pending`. -/
structure Settled (c : ℕ) (taken : Option ℕ) (b : Broker) : Prop where
  settled : ∃ call : Call, b.calls[c]? = some call ∧
    call.progress.result?.isSome ∧ call.taken = taken
  absent : b.pending[c + 1]? = none

variable {s s' : Exchange}

theorem initial_invariant : initial.Invariant where
  consistent := Broker.initial_consistent
  arrivals_eq := rfl
  asked p hp := by simp [initial, Broker.initial] at hp
  unasked p hp := by simp [initial, Broker.initial] at hp
  addressed reply hreply := by simp [initial] at hreply
  posted c hc := by simp [callers, initial, Broker.initial] at hc
  once := by simp [callers, initial, Broker.initial]

/-- A step inside the broker that posts nothing. -/
theorem Invariant.internal (h : s.Invariant) {b : Broker}
    (hconsistent : b.Consistent) (hleads : s.broker.Leads b)
    (harrivals : b.arrivals = s.broker.arrivals)
    (houtbox : b.outbox = s.broker.outbox) :
    { s with broker := b }.Invariant := by
  have hcallers : callers { s with broker := b } = s.callers := by
    simp [callers, houtbox]
  refine ⟨hconsistent, harrivals.trans h.arrivals_eq, ?_,
    fun p hp => h.unasked p (houtbox ▸ hp), h.addressed, ?_, ?_⟩
  · intro p hp c hcaller
    obtain ⟨call, hc, hmessage⟩ := h.asked p (houtbox ▸ hp) c hcaller
    obtain ⟨call', hc', hlead⟩ := hleads c call hc
    exact ⟨call', hc', by rw [hmessage, hlead.id_eq, hlead.request_eq]⟩
  · intro c hmem
    obtain ⟨call, hc, hposted⟩ := h.posted c (hcallers ▸ hmem)
    obtain ⟨call', hc', hlead⟩ := hleads c call hc
    exact ⟨call', hc', hlead.posted hposted⟩
  · rw [hcallers]
    exact h.once

/-- Only `send` changes the outbox. -/
theorem Invariant.advance (h : s.Invariant) {c : ℕ} {part : CallStep}
    {b : Broker} (hadvance : s.broker.advance c part = some b) :
    { s with broker := b }.Invariant := by
  have hconsistent := h.consistent.advance hadvance
  have hleads := Broker.leads_advance hadvance
  obtain ⟨call, hc, hstep⟩ := Broker.advance_cases hadvance
  obtain ⟨call', hcalls, hid, hrequest, -, harrivals, -⟩ := hstep.moved hc
  cases hstep
  case send hp =>
    have hmoved : call.Leads call' := by
      obtain ⟨call'', hc'', hlead⟩ := hleads c call hc
      rw [hcalls, if_pos rfl] at hc''
      cases hc''
      exact hlead
    have hposted : call'.progress.Posted := by
      have hc' := hcalls c
      rw [if_pos rfl, Broker.put_calls hc, if_pos rfl] at hc'
      cases hc'
      trivial
    have hnew : c ∉ s.callers := by
      intro hmem
      obtain ⟨other, hother, hbad⟩ := h.posted c hmem
      obtain rfl : call = other := by simpa [hc] using hother
      simp [hp, Progress.Posted] at hbad
    have hcallers : (callers { s with broker := { s.broker.put c
        (call.moved .sent) with outbox := s.broker.outbox ++
          [⟨.request call.id call.request, some c⟩] } }).Perm
        (c :: s.callers) := by
      simp only [callers, List.filterMap_append, List.filterMap_cons,
        List.filterMap_nil, List.append_assoc, List.singleton_append]
      exact List.perm_middle
    refine ⟨hconsistent, harrivals.trans h.arrivals_eq, ?_, ?_, h.addressed,
      ?_, ?_⟩
    · intro p hp i hcaller
      rcases List.mem_append.mp hp with hold | hlast
      · obtain ⟨other, hother, hmessage⟩ := h.asked p hold i hcaller
        obtain ⟨other', hother', hlead⟩ := hleads i other hother
        exact ⟨other', hother', by rw [hmessage, hlead.id_eq, hlead.request_eq]⟩
      · obtain rfl := List.mem_singleton.mp hlast
        obtain rfl : c = i := by simpa using hcaller
        exact ⟨call', by rw [hcalls, if_pos rfl], by rw [hid, hrequest]⟩
    · intro p hp hcaller
      rcases List.mem_append.mp hp with hold | hlast
      · exact h.unasked p hold hcaller
      · obtain rfl := List.mem_singleton.mp hlast
        cases hcaller
    · intro i hmem
      rcases List.mem_cons.mp (hcallers.mem_iff.mp hmem) with rfl | hold
      · exact ⟨call', by rw [hcalls, if_pos rfl], hposted⟩
      · obtain ⟨other, hother, hother_posted⟩ := h.posted i hold
        obtain ⟨other', hother', hlead⟩ := hleads i other hother
        exact ⟨other', hother', hlead.posted hother_posted⟩
    · exact hcallers.nodup_iff.mpr (List.nodup_cons.mpr ⟨hnew, h.once⟩)
  all_goals exact h.internal hconsistent hleads rfl rfl

/-- The message leaves the outbox; its caller moves on to the reply. -/
theorem Invariant.serve (h : s.Invariant) (i : ℕ) (reply : Option Reply)
    (hreply : ∀ r ∈ reply, ∃ request, s.broker.outbox[i]? =
      some ⟨.request r.id request, some r.caller⟩) :
    (s.serve i reply).Invariant := by
  have hsub : (s.broker.outbox.eraseIdx i).Sublist s.broker.outbox :=
    List.eraseIdx_sublist _ _
  have hcallers : ∃ rest, (s.serve i reply).callers.Sublist rest ∧
      rest.Perm s.callers := by
    cases reply with
    | none =>
        refine ⟨s.callers, ?_, .refl _⟩
        have hkept := (hsub.filterMap Posted.caller).append_right
          ((s.replies ++ s.arrived).map Reply.caller)
        simpa [callers, Exchange.serve] using hkept
    | some r =>
        obtain ⟨request, hi⟩ := hreply r rfl
        obtain ⟨hlt, hget⟩ := List.getElem?_eq_some_iff.mp hi
        have hperm := (List.getElem_cons_eraseIdx_perm hlt).filterMap
          Posted.caller
        simp only [hget, List.filterMap_cons] at hperm
        refine ⟨_, .refl _, ?_⟩
        refine .trans ?_ (hperm.append_right _)
        simp only [callers, Exchange.serve, Option.toList_some, List.map_append,
          List.append_assoc, List.map_cons, List.cons_append, List.nil_append]
        rw [← List.append_assoc, ← List.append_assoc]
        exact List.perm_middle
  obtain ⟨rest, hsublist, hperm⟩ := hcallers
  refine ⟨⟨h.consistent.next_eq, h.consistent.sound, h.consistent.registered⟩,
    h.arrivals_eq, fun p hp => h.asked p (hsub.subset hp),
    fun p hp => h.unasked p (hsub.subset hp), ?_, ?_, ?_⟩
  · intro r hr
    rcases List.mem_append.mp hr with hr | hr
    · rcases List.mem_append.mp hr with hr | hr
      · exact h.addressed r (List.mem_append_left _ hr)
      · obtain ⟨request, hi⟩ := hreply r (Option.mem_toList.mp hr)
        obtain ⟨call, hc, hmessage⟩ :=
          h.asked _ (List.mem_of_getElem? hi) r.caller rfl
        obtain ⟨hid, -⟩ := Message.request.inj hmessage
        exact hid.trans (h.consistent.sound r.caller call hc).id_eq
    · exact h.addressed r (List.mem_append_right _ hr)
  · exact fun c hc => h.posted c (hperm.subset (hsublist.subset hc))
  · exact (hperm.nodup_iff.mpr h.once).sublist hsublist

theorem Invariant.deliver (h : s.Invariant) {i : ℕ} {reply : Reply}
    (hi : s.replies[i]? = some reply) : (s.deliver i reply).Invariant := by
  obtain ⟨hlt, hget⟩ := List.getElem?_eq_some_iff.mp hi
  have hreplies : ((s.deliver i reply).replies ++
      (s.deliver i reply).arrived).Perm (s.replies ++ s.arrived) := by
    have hperm := List.getElem_cons_eraseIdx_perm hlt
    rw [hget] at hperm
    refine .trans ?_ (hperm.append_right _)
    simp only [Exchange.deliver]
    rw [← List.append_assoc]
    exact List.perm_append_singleton _ _
  have hcallers : (s.deliver i reply).callers.Perm s.callers :=
    (hreplies.map Reply.caller).append_left _
  have hleads := Broker.leads_deliver reply.id reply.answer s.broker
  refine ⟨h.consistent.deliver _ _, ?_, ?_, h.unasked, ?_, ?_, ?_⟩
  · simp [Exchange.deliver, Broker.deliver, h.arrivals_eq]
  · intro p hp c hcaller
    obtain ⟨call, hc, hmessage⟩ := h.asked p hp c hcaller
    obtain ⟨call', hc', hlead⟩ := hleads c call hc
    exact ⟨call', hc', by rw [hmessage, hlead.id_eq, hlead.request_eq]⟩
  · exact fun r hr => h.addressed r (hreplies.subset hr)
  · intro c hmem
    obtain ⟨call, hc, hposted⟩ := h.posted c (hcallers.subset hmem)
    obtain ⟨call', hc', hlead⟩ := hleads c call hc
    exact ⟨call', hc', hlead.posted hposted⟩
  · exact hcallers.nodup_iff.mpr h.once

theorem Step.invariant (hstep : Step s s') (h : s.Invariant) :
    s'.Invariant := by
  cases hstep
  case call request b hb =>
    refine h.internal (h.consistent.call hb) (Broker.leads_call hb) ?_ ?_ <;>
    · obtain ⟨-, rfl⟩ := Broker.call_eq request hb
      rfl
  case advance c part b hb => exact h.advance hb
  case ready =>
    refine ⟨⟨h.consistent.next_eq, h.consistent.sound, h.consistent.registered⟩,
      h.arrivals_eq, ?_, ?_, h.addressed, ?_, ?_⟩
    · intro p hp c hcaller
      rcases List.mem_append.mp hp with hold | hlast
      · exact h.asked p hold c hcaller
      · obtain rfl := List.mem_singleton.mp hlast
        cases hcaller
    · intro p hp hcaller
      rcases List.mem_append.mp hp with hold | hlast
      · exact h.unasked p hold hcaller
      · obtain rfl := List.mem_singleton.mp hlast
        rfl
    · intro c hmem
      exact h.posted c (by simpa [callers] using hmem)
    · simpa [callers] using h.once
  case answer i c id request answer hi =>
    refine h.serve i _ fun r hr => ?_
    obtain rfl := Option.mem_some_iff.mp hr
    exact ⟨request, hi⟩
  case ignore i => exact h.serve i none (by simp)
  case deliver i reply hi => exact h.deliver hi
  case close => exact h.internal h.consistent.clear (.of_eq rfl) rfl rfl

theorem Reachable.invariant (h : Reachable s) : s.Invariant := by
  refine @Transition.Reachable.invariant _ _ _ Invariant ?_ ?_ s h
  · rintro s rfl
    exact initial_invariant
  · intro s s' _ hinv hstep
    exact hstep.invariant hinv

/-! ## Late replies -/

theorem Settled.leads {c : ℕ} {taken : Option ℕ} {b b' : Broker}
    (h : Settled c taken b) (hleads : b.Leads b')
    (habsent : b'.pending[c + 1]? = none) : Settled c taken b' := by
  obtain ⟨⟨call, hc, hresult, htaken⟩, -⟩ := h
  obtain ⟨call', hc', hlead⟩ := hleads c call hc
  obtain ⟨hresult', htaken'⟩ := hlead.settled hresult
  exact ⟨⟨call', hc', hresult' ▸ hresult, htaken'.trans htaken⟩, habsent⟩

/-- Only `enroll` adds to `pending`, and it is over for this invocation. -/
theorem Settled.advance {c : ℕ} {taken : Option ℕ} {b b' : Broker}
    (hconsistent : b.Consistent) (h : Settled c taken b) {i : ℕ}
    {part : CallStep} (hadvance : b.advance i part = some b') :
    Settled c taken b' := by
  refine h.leads (Broker.leads_advance hadvance) ?_
  obtain ⟨call, hi, hstep⟩ := Broker.advance_cases hadvance
  cases hstep
  case enroll hp =>
    have hne : i ≠ c := by
      rintro rfl
      obtain ⟨⟨other, hother, hresult, -⟩, -⟩ := h
      obtain rfl : call = other := by simpa [hi] using hother
      simp [hp, Progress.result?] at hresult
    simp only [Std.TreeMap.getElem?_insert, compare_eq_iff_eq,
      (hconsistent.sound i call hi).id_eq]
    rw [if_neg (by omega)]
    exact h.absent
  case withdraw =>
    simp only [Std.TreeMap.getElem?_erase]
    split
    · rfl
    · exact h.absent
  all_goals exact h.absent

theorem Step.settled {c : ℕ} {taken : Option ℕ} (hinv : s.Invariant)
    (h : Settled c taken s.broker) (hstep : Step s s') :
    Settled c taken s'.broker := by
  cases hstep
  case call request b hb =>
    refine h.leads (Broker.leads_call hb) ?_
    obtain ⟨-, rfl⟩ := Broker.call_eq request hb
    exact h.absent
  case advance i part b hb => exact h.advance hinv.consistent hb
  case deliver i reply hi =>
    refine h.leads (Broker.leads_deliver _ _ _) ?_
    simp only [Exchange.deliver, Broker.deliver, Std.TreeMap.getElem?_erase]
    split
    · rfl
    · exact h.absent
  case close => exact ⟨h.settled, by simp [Broker.clear]⟩
  case ready | answer | ignore => exact ⟨h.settled, h.absent⟩

/-- The reply at place `k` belongs to an invocation that did not take it. -/
theorem Settled.untaken {c k : ℕ} {taken : Option ℕ} {reply : Reply}
    (hinv : s.Invariant) (h : Settled c taken s.broker)
    (hk : s.arrived[k]? = some reply) (hcaller : reply.caller = c)
    (hne : taken ≠ some k) {i : ℕ} {call : Call}
    (hi : s.broker.calls[i]? = some call) : call.taken ≠ some k := by
  intro htaken
  have hsound := hinv.consistent.sound i call hi
  obtain ⟨answer, harrival, -⟩ := hsound.received k htaken
  rw [hinv.arrivals_eq, List.getElem?_map, hk, Option.map_some,
    Option.some_inj] at harrival
  have hid := hinv.addressed reply
    (List.mem_append_right _ (List.mem_of_getElem? hk))
  have heq : i = c := by
    have hids := congrArg Prod.fst harrival
    have hown := hsound.id_eq
    simp only at hids
    omega
  subst heq
  obtain ⟨⟨own, hown, -, hownTaken⟩, -⟩ := h
  obtain rfl : call = own := by simpa [hi] using hown
  exact hne (hownTaken.symm.trans htaken)

/-! ## Runs on given moves -/

inductive Move where
  | call (request : Request)
  | advance (c : ℕ) (part : CallStep)
  | answer (answer : Answer)
  | deliver

/-- Make a move, if it is possible, with a supervisor that answers in order. -/
def move (m : Move) (s : Exchange) : Exchange :=
  match m with
  | .call request =>
      match s.broker.call request with
      | some b => { s with broker := b }
      | none => s
  | .advance c part =>
      match s.broker.advance c part with
      | some b => { s with broker := b }
      | none => s
  | .answer answer =>
      match s.broker.outbox.head? with
      | some { message := .request id _, caller := some c } =>
          s.serve 0 (some ⟨c, id, answer⟩)
      | _ => s
  | .deliver =>
      match s.replies.head? with
      | some reply => s.deliver 0 reply
      | none => s

def play (moves : List Move) : Exchange :=
  moves.foldl (fun s m => s.move m) initial

theorem move_run (m : Move) (s : Exchange) :
    ReflTransGen Step s (s.move m) := by
  cases m with
  | call request =>
      simp only [move]
      split
      · next b hb => exact .single (.call s request b hb)
      · exact .refl
  | advance c part =>
      simp only [move]
      split
      · next b hb => exact .single (.advance s c part b hb)
      · exact .refl
  | answer answer =>
      simp only [move]
      split
      · next id request c hi =>
        rw [List.head?_eq_getElem?] at hi
        exact .single (.answer s 0 c id request answer hi)
      · exact .refl
  | deliver =>
      simp only [move]
      split
      · next reply hi =>
        rw [List.head?_eq_getElem?] at hi
        exact .single (.deliver s 0 reply hi)
      · exact .refl

theorem play_reachable (moves : List Move) : Reachable (play moves) := by
  refine ⟨initial, rfl, ?_⟩
  unfold play
  generalize initial = s
  induction moves generalizing s with
  | nil => exact .refl
  | cons m rest ih => exact (move_run m s).trans (ih _)

/-- A value comes from the reply that the invocation has taken. -/
theorem Invariant.replied (h : s.Invariant) {c : ℕ} {call : Call}
    {message : String} {fds : List Fd} (hc : s.broker.calls[c]? = some call)
    (hresult : call.progress.result? = some (.ok (message, fds))) :
    ∃ k reply, call.taken = some k ∧ s.arrived[k]? = some reply ∧
      reply.caller = c ∧ reply.answer = ⟨true, message, fds⟩ := by
  have hsound := h.consistent.sound c call hc
  obtain ⟨k, hk⟩ := Option.isSome_iff_exists.mp (hsound.succeeded _ hresult)
  obtain ⟨answer, harrival, hanswer⟩ := hsound.received k hk
  rw [h.arrivals_eq, List.getElem?_map, Option.map_eq_some_iff] at harrival
  obtain ⟨reply, hreply, heq⟩ := harrival
  obtain ⟨hid, rfl⟩ := Prod.mk.inj heq
  have hcaller : reply.caller = c := by
    have haddressed := h.addressed reply
      (List.mem_append_right _ (List.mem_of_getElem? hreply))
    have hown := hsound.id_eq
    omega
  refine ⟨k, reply, hk, hreply, hcaller, ?_⟩
  rw [hresult, Option.some_inj] at hanswer
  unfold Answer.result at hanswer
  split at hanswer
  · next hok =>
    obtain ⟨rfl, rfl⟩ : message = _ ∧ fds = _ := by simpa using hanswer
    rw [← hok]
  · cases hanswer

/-! ## Main result -/

/-- A call that returns a value returns the reply to its own request, no reply
is taken twice, and a reply that finds its caller gone is never taken and
leaves nothing behind. -/
theorem reply_matching (h : Reachable s) :
    (∀ (c : ℕ) (call : Call) (message : String) (fds : List Fd),
      s.broker.calls[c]? = some call →
      call.progress = .returned (.ok (message, fds)) →
      ∃ k reply, call.taken = some k ∧ s.arrived[k]? = some reply ∧
        reply.caller = c ∧ reply.answer = ⟨true, message, fds⟩ ∧
        ∀ other ∈ s.replies ++ s.arrived, other.caller = c → other = reply) ∧
    (∀ (k c c' : ℕ) (call call' : Call), s.broker.calls[c]? = some call →
      s.broker.calls[c']? = some call' → call.taken = some k →
      call'.taken = some k → c = c') ∧
    (∀ (i : ℕ) (reply : Reply) (call : Call), s.replies[i]? = some reply →
      s.broker.calls[reply.caller]? = some call →
      call.progress.result?.isSome → ∀ later,
      ReflTransGen Step (s.deliver i reply) later →
      later.broker.pending[reply.id]? = none ∧
        ∀ (c : ℕ) (other : Call), later.broker.calls[c]? = some other →
          other.taken ≠ some s.arrived.length) := by
  have hinv := h.invariant
  refine ⟨?_, ?_, ?_⟩
  · intro c call message fds hc hprogress
    have hresult : call.progress.result? = some (.ok (message, fds)) := by
      rw [hprogress, Progress.result?]
    obtain ⟨k, reply, hk, hreply, hcaller, hanswer⟩ := hinv.replied hc hresult
    have hmem : reply ∈ s.replies ++ s.arrived :=
      List.mem_append_right _ (List.mem_of_getElem? hreply)
    refine ⟨k, reply, hk, hreply, hcaller, hanswer, ?_⟩
    intro other hother hsame
    have honce := (List.nodup_append.mp hinv.once).2.1
    exact List.inj_on_of_nodup_map honce hother hmem (hsame.trans hcaller.symm)
  · intro k c c' call call' hc hc' hk hk'
    have hsound := hinv.consistent.sound c call hc
    have hsound' := hinv.consistent.sound c' call' hc'
    obtain ⟨answer, harrival, -⟩ := hsound.received k hk
    obtain ⟨answer', harrival', -⟩ := hsound'.received k hk'
    have hsame : call.id = call'.id := by
      rw [harrival, Option.some_inj] at harrival'
      exact congrArg Prod.fst harrival'
    have hid := hsound.id_eq
    have hid' := hsound'.id_eq
    omega
  · intro i reply call hi hc hresult later hrun
    have hmem : reply ∈ s.replies ++ s.arrived :=
      List.mem_append_left _ (List.mem_of_getElem? hi)
    have hid := hinv.addressed reply hmem
    have hstart : Settled reply.caller call.taken
        (s.deliver i reply).broker := by
      obtain ⟨call', hc', hlead⟩ := Broker.leads_deliver reply.id reply.answer
        s.broker reply.caller call hc
      obtain ⟨hresult', htaken'⟩ := hlead.settled hresult
      refine ⟨⟨call', hc', hresult' ▸ hresult, htaken'⟩, ?_⟩
      simp [Exchange.deliver, Broker.deliver, hid]
    have hplace : call.taken ≠ some s.arrived.length := by
      intro htaken
      obtain ⟨answer, harrival, -⟩ :=
        (hinv.consistent.sound reply.caller call hc).received _ htaken
      rw [hinv.arrivals_eq, List.getElem?_map,
        List.getElem?_eq_none le_rfl] at harrival
      cases harrival
    -- The reply keeps its place, and its caller stays settled without it.
    have hlater : later.Invariant ∧
        Settled reply.caller call.taken later.broker ∧
        later.arrived[s.arrived.length]? = some reply := by
      refine @Transition.stable _ _ (fun t => t.Invariant ∧
        Settled reply.caller call.taken t.broker ∧
        t.arrived[s.arrived.length]? = some reply) ?_ _ _ ?_ hrun
      · rintro t t' ⟨htinv, hsettled, hkept⟩ hstep
        refine ⟨hstep.invariant htinv, hstep.settled htinv hsettled, ?_⟩
        cases hstep
        case deliver => exact getElem?_extend hkept _
        all_goals exact hkept
      · exact ⟨hinv.deliver hi, hstart, by simp [Exchange.deliver]⟩
    obtain ⟨hlinv, hsettled, hkept⟩ := hlater
    refine ⟨hid ▸ hsettled.absent, fun c other hother => ?_⟩
    exact hsettled.untaken hlinv hkept rfl hplace hother

/-- Two threads call, the second gives up before its reply comes in. -/
def lateReply : Exchange :=
  play [.call (.spawn 1 "sync:"), .advance 0 .announce, .advance 0 .enroll,
    .call (.spawn 2 "sync:"), .advance 0 (.send (.ok ())),
    .advance 1 .announce, .advance 1 .enroll, .advance 1 (.send (.ok ())),
    .answer ⟨true, "40", [7]⟩, .deliver, .advance 0 .receive,
    .advance 1 (.giveUp "timed out"), .advance 0 .withdraw, .advance 0 .finish,
    .answer ⟨true, "41", [8]⟩]

theorem reply_matching_late :
    (∃ (k : ℕ) (reply : Reply), lateReply.arrived[k]? = some reply ∧
      reply.answer = ⟨true, "40", [7]⟩) ∧
    ∀ later, ReflTransGen Step (lateReply.deliver 0 ⟨1, 2, ⟨true, "41", [8]⟩⟩)
      later → later.broker.pending[2]? = none := by
  obtain ⟨hreturned, -, hlate⟩ := reply_matching (play_reachable _ : Reachable lateReply)
  have hfirst : lateReply.broker.calls[0]? = some ⟨1, .spawn 1 "sync:",
      .returned (.ok ("40", [7])), none, some 0⟩ := by rfl
  have hsecond : lateReply.broker.calls[1]? = some ⟨2, .spawn 2 "sync:",
      .settled (.error "timed out"), none, none⟩ := by rfl
  obtain ⟨k, reply, -, hk, -, hanswer, -⟩ := hreturned 0 _ "40" [7] hfirst rfl
  refine ⟨⟨k, reply, hk, hanswer⟩, fun later hrun => ?_⟩
  exact (hlate 0 ⟨1, 2, ⟨true, "41", [8]⟩⟩ _ (by rfl) hsecond rfl later hrun).1

end Exchange

end Altdb
