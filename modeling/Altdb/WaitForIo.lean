import Altdb.OutputLimit

/-!
# Waiting for input and output

When a turn of a connection found nothing to do, it waits for the descriptors
that may give it something.  A pass over the services decides by itself what it
reads and writes, so the descriptors have to be those of its next reads and
writes.
-/

namespace Altdb

open Fallible

/-! ## The poll set -/

/-- What a descriptor of the poll set belongs to. -/
inductive Watched where
  | network
  | stream (id : UInt32) (fd : Fd)
  | listener (fd : Fd)
  deriving DecidableEq, Repr

/-- `libc::pollfd`, with `POLLIN` and `POLLOUT`. -/
structure PollFd where
  watched : Watched
  input : Bool
  output : Bool
  deriving DecidableEq, Repr

/-- The entry polls the service socket of the stream. -/
def PollFd.Watches (p : PollFd) (id : UInt32) (s : Stream) : Prop :=
  ∃ socket, s.source = .socket socket ∧ p.watched = .stream id socket.fd

/-- The entry of a stream.  A stream that is not ready for anything has none. -/
def Stream.pollFd (queued : ℕ) (id : UInt32) (s : Stream) : Option PollFd :=
  match s.source with
  | .bytes _ => none
  | .socket source =>
      let output := !s.pending.isEmpty
      let input := s.opening.isNone && s.closing.isNone && !s.waiting &&
        decide (queued < 4 * 1024 * 1024)
      if input || output then some ⟨.stream id source.fd, input, output⟩ else none

namespace Connection

/-- `fds` of `wait_for_io`. -/
def waitForIo (c : Connection) : List PollFd :=
  [⟨.network, true, decide (0 < c.tls.queued)⟩] ++
    c.streams.toList.filterMap (fun entry => entry.2.pollFd c.tls.queued entry.1) ++
    if c.streams.size < maxStreams then
      c.reverse.toList.map fun entry => ⟨.listener entry.2.listener, true, false⟩
    else []

/-! ## What the next pass could do -/

/-- The next pass could read output of the stream without another packet of the
host, once the backlog is short enough. -/
def CouldRead (c : Connection) (id : UInt32) (s : Stream) : Prop :=
  ∃ io queued data, queued ≤ c.tls.queued ∧
    Observation.read id data ∈ (s.service io queued c.max id).observations

/-- The next pass could write pending data to the service. -/
def CouldWrite (c : Connection) (id : UInt32) (s : Stream) : Prop :=
  ∃ io queued data, data ≠ [] ∧
    Observation.wrote id data ∈ (s.service io queued c.max id).observations

/-- The stream is held back by the backlog, and the network socket is polled
for writing. -/
def HeldBack (c : Connection) : Prop :=
  4 * 1024 * 1024 ≤ c.tls.queued ∧
    ∃ p ∈ c.waitForIo, p.watched = .network ∧ p.output = true

/-- The descriptors of the poll set signal all that the next pass could do. -/
def Covered (c : Connection) : Prop :=
  ∀ id s, c.streams[id]? = some s →
    (c.CouldRead id s →
      (∃ p ∈ c.waitForIo, p.Watches id s ∧ p.input = true) ∨ c.HeldBack) ∧
    (c.CouldWrite id s → ∃ p ∈ c.waitForIo, p.Watches id s ∧ p.output = true)

end Connection

/-- Nothing but the backlog keeps a pass from reading. -/
def Stream.Idle (s : Stream) : Prop :=
  s.opening = none ∧ s.closing = none ∧ s.waiting = false

/-- The stream has a reply in memory that a pass can read. -/
def Stream.Replies (s : Stream) : Prop :=
  s.Idle ∧ ∃ rest, s.source = .bytes rest ∧ rest ≠ []

namespace Stream

variable {s : Stream} {io : Io} {queued max : ℕ} {id : UInt32} {data : Bytes}

theorem flushPending_work (s : Stream) (script : List WriteOutcome) :
    (s.flushPending true script).result ≠ .ok false := by
  induction script generalizing s with
  | nil =>
      unfold flushPending
      repeat' split
      all_goals exact fun h => by cases h
  | cons outcome script ih =>
      unfold flushPending
      split
      · exact fun h => by cases h
      · split
        · exact fun h => by cases h
        · dsimp only
          split
          · exact ih _
          · exact ih _
        · exact fun h => by cases h
        · exact fun h => by cases h

/-- A flush that wrote nothing left the stream as it was. -/
theorem flushPending_idle {script : List WriteOutcome}
    (h : (s.flushPending false script).result = .ok false) :
    (s.flushPending false script).stream = s := by
  cases script with
  | nil =>
      unfold flushPending
      repeat' split
      all_goals rfl
  | cons outcome script =>
      unfold flushPending at h ⊢
      split
      · rfl
      · next data rest hpending =>
        rw [hpending] at h
        dsimp only at h
        split
        · rfl
        · next n hne hwrite =>
          rw [hwrite] at h
          cases n with
          | zero => exact (hne rfl).elim
          | succ n => exact absurd h (flushPending_work _ _)
        · rfl
        · rfl

/-- Only a socket takes data. -/
theorem flushPending_written {work : Bool} {script : List WriteOutcome}
    (h : (s.flushPending work script).written ≠ []) :
    s.pending ≠ [] ∧ ∃ socket, s.source = .socket socket := by
  have hempty : s.pending ≠ [] := by
    intro hpending
    apply h
    cases script with
    | nil => simp [flushPending, hpending]
    | cons outcome script => simp [flushPending, hpending]
  refine ⟨hempty, ?_⟩
  cases hsource : s.source with
  | socket socket => exact ⟨socket, rfl⟩
  | bytes rest =>
      exfalso
      apply h
      obtain ⟨data, others, hpending⟩ := List.exists_cons_of_ne_nil hempty
      cases script with
      | nil => simp [flushPending, hpending, hsource, Source.write]
      | cons outcome script => simp [flushPending, hpending, hsource, Source.write]

/-- A reply in memory is read-only. -/
theorem flushPending_bytes {rest : Bytes} (hsource : s.source = .bytes rest)
    (hpending : s.pending ≠ []) (script : List WriteOutcome) :
    ∃ error, (s.flushPending false script).result = .error error := by
  obtain ⟨data, others, hpending⟩ := List.exists_cons_of_ne_nil hpending
  cases script with
  | nil => exact ⟨"read-only service", by simp [flushPending, hpending, hsource, Source.write]⟩
  | cons outcome script =>
      exact ⟨"write failed", by simp [flushPending, hpending, hsource, Source.write]⟩

/-- A pass without work leaves the stream as it was and has nothing to send. -/
theorem service_idle (hwork : (s.service io queued max id).work = false)
    (hclosed : (s.service io queued max id).closed = false) :
    (s.service io queued max id).stream = s ∧ (s.service io queued max id).events = [] := by
  have hpass := s.service_pass io queued max id
  generalize s.service io queued max id = r at hpass hwork hclosed ⊢
  cases hpass with
  | timeout => cases hclosed
  | writeFailed => cases hclosed
  | closing t work hresult hclosing =>
      obtain rfl : work = false := hwork
      exact ⟨flushPending_idle hresult, rfl⟩
  | ended => cases hclosed
  | idle work hresult hclosing =>
      obtain rfl : work = false := hwork
      have hsame := flushPending_idle hresult
      refine ⟨hsame, ?_⟩
      rw [hsame, drained, if_neg fun h => h.1 h.2.1]
  | read => cases hwork

/-- What is read comes from an idle stream. -/
theorem read_service (h : Observation.read id data ∈ (s.service io queued max id).observations) :
    s.Idle ∧ ∀ rest, s.source = .bytes rest → rest ≠ [] := by
  obtain ⟨pending, offset, hflushed⟩ := s.flushPending_frame false (io.write id)
  unfold service at h
  split at h
  · cases h
  · dsimp only at h
    split at h
    · simp at h
    · split at h
      · simp at h
      · next hclosing =>
        rw [hflushed] at h hclosing
        unfold serviceRead at h
        split at h
        · next hready =>
          refine ⟨⟨hready.1, hclosing, hready.2.1⟩, ?_⟩
          rintro rest hsource rfl
          change s.source = _ at hsource
          simp [hsource, Source.read] at h
        · simp at h

theorem wrote_service (hdata : data ≠ [])
    (h : Observation.wrote id data ∈ (s.service io queued max id).observations) :
    s.pending ≠ [] ∧ ∃ socket, s.source = .socket socket := by
  have hpass := s.service_pass io queued max id
  have hwritten : data = (s.flushPending false (io.write id)).written := by
    generalize s.service io queued max id = r at hpass h
    cases hpass with
    | timeout => cases h
    | writeFailed | closing | ended | idle | read => simpa using h
  exact flushPending_written (hwritten ▸ hdata)

theorem flushPending_nil (hpending : s.pending = []) (script : List WriteOutcome) :
    s.flushPending false script = ⟨s, [], .ok false⟩ := by
  cases script with
  | nil => simp [flushPending, hpending]
  | cons outcome script => simp [flushPending, hpending]

/-- A pass reads a reply, unless the backlog keeps it from reading. -/
theorem Replies.service (h : s.Replies) (hpending : s.pending = [])
    (hqueued : queued < 4 * 1024 * 1024) (hmax : 0 < max) :
    (s.service io queued max id).work = true ∧
      ∃ data, Observation.read id data ∈ (s.service io queued max id).observations := by
  obtain ⟨⟨hopening, hclosing, hwaiting⟩, rest, hsource, hrest⟩ := h
  have hflush := flushPending_nil hpending (io.write id)
  obtain ⟨first, others, rfl⟩ := List.exists_cons_of_ne_nil hrest
  obtain ⟨n, hn⟩ : ∃ n, min max chunkSize = n + 1 :=
    ⟨min max chunkSize - 1, by
      have hchunk : 0 < chunkSize := by decide
      omega⟩
  unfold Stream.service
  rw [hopening, Option.any_none, if_neg Bool.false_ne_true, hflush]
  dsimp only
  rw [hclosing]
  dsimp only
  unfold serviceRead
  rw [if_pos ⟨hopening, hwaiting, hqueued⟩, hsource, hn]
  exact ⟨rfl, first :: others.take n, List.mem_cons_of_mem _ List.mem_cons_self⟩

/-- A pass closes a reply that has input. -/
theorem Replies.closed (h : s.Replies) (hpending : s.pending ≠ []) :
    (s.service io queued max id).closed = true := by
  obtain ⟨⟨hopening, -, -⟩, rest, hsource, -⟩ := h
  obtain ⟨error, hresult⟩ := flushPending_bytes hsource hpending (io.write id)
  unfold Stream.service
  rw [hopening, Option.any_none, if_neg Bool.false_ne_true]
  dsimp only
  rw [hresult]

/-- The backlog keeps a pass from reading. -/
theorem Idle.held (h : s.Idle) (hpending : s.pending = []) (hqueued : 4 * 1024 * 1024 ≤ queued) :
    (s.service io queued max id).work = false ∧ (s.service io queued max id).closed = false := by
  obtain ⟨hopening, hclosing, hwaiting⟩ := h
  unfold Stream.service
  rw [hopening, Option.any_none, if_neg Bool.false_ne_true, flushPending_nil hpending]
  dsimp only
  rw [hclosing]
  dsimp only
  unfold serviceRead
  rw [if_neg fun hready => Nat.not_lt_of_le hqueued hready.2.2]
  exact ⟨rfl, rfl⟩

end Stream

namespace Connection

variable {c c₁ c₂ c₃ : Connection} {io : Io}

/-! ## Turns without work -/

/-- No stream gives a pass anything to do. -/
def Rests (io : Io) (c : Connection) : Prop :=
  ∀ id s, c.streams[id]? = some s →
    (passed io c id s).work = false ∧ (passed io c id s).closed = false

theorem services_value :
    wp (services io)
      (fun work _ =>
        work = ((results io c).any (fun r => r.2.work) || decide (ended io c ≠ [])))
      (fun _ _ => True) c := by
  simp only [services, wp_bind, wp_get, wp_modify]
  change wp (((results io c).flatMap fun r => r.2.events).forM (send io)) _ _ (looped io c)
  refine wp_intro (fun _ c₁ _ => ?_) fun _ _ _ => trivial
  simp only [wp_bind]
  change wp ((ended io c).forM (closeStream io)) _ _ c₁
  refine wp_intro (fun _ c₂ _ => ?_) fun _ _ _ => trivial
  rfl

theorem Rests.services (h : c.Rests io) : Connection.services io c = .ok false (looped io c) := by
  have hresult : ∀ r ∈ results io c, r.2.work = false ∧ r.2.events = [] := by
    intro r hr
    obtain ⟨s, hs, heq⟩ := mem_results.mp hr
    obtain ⟨hwork, hclosed⟩ := h r.1 s hs
    exact ⟨heq ▸ hwork, heq ▸ (Stream.service_idle hwork hclosed).2⟩
  have hevents : ((results io c).flatMap fun r => r.2.events) = [] :=
    List.flatMap_eq_nil_iff.mpr fun r hr => (hresult r hr).2
  have hended : ended io c = [] := by
    refine List.eq_nil_iff_forall_not_mem.mpr fun id hid => ?_
    obtain ⟨s, hs, hclosed⟩ := mem_ended.mp hid
    exact Bool.false_ne_true ((h id s hs).2.symm.trans hclosed)
  have hany : ((results io c).any fun r => r.2.work) = false :=
    List.any_eq_false.mpr fun r hr => by rw [(hresult r hr).1]; exact Bool.false_ne_true
  apply eq_ok_of_wp
  simp only [Connection.services, wp_bind, wp_get, wp_modify]
  change wp (((results io c).flatMap fun r => r.2.events).forM (send io)) _ _ (looped io c)
  rw [hevents]
  change wp (_ >>= _) _ _ (looped io c)
  simp only [wp_bind]
  change wp ((ended io c).forM (closeStream io)) _ _ (looped io c)
  rw [hended]
  change ((results io c).any (fun r => r.2.work) || decide (ended io c ≠ [])) = false ∧ _
  rw [hany, hended]
  exact ⟨rfl, rfl⟩

/-- A pass that reports no work found none and left the streams as they were. -/
theorem rests_of_services (h : services io c = .ok false c₁) :
    c.Rests io ∧ c₁ = looped io c := by
  have hvalue := wp_of_ok services_value h
  rw [eq_comm, Bool.or_eq_false_iff, decide_eq_false_iff_not, not_not] at hvalue
  obtain ⟨hany, hended⟩ := hvalue
  have hrests : c.Rests io := by
    intro id s hs
    constructor
    · have hwork := List.any_eq_false.mp hany (id, passed io c id s) (mem_results.mpr ⟨s, hs, rfl⟩)
      exact Bool.eq_false_iff.mpr hwork
    · rw [Bool.eq_false_iff]
      intro hclosed
      have hmem := mem_ended.mpr ⟨s, hs, hclosed⟩
      rw [hended] at hmem
      cases hmem
  refine ⟨hrests, ?_⟩
  rw [hrests.services] at h
  cases h
  rfl

theorem Rests.streams (h : c.Rests io) (id : UInt32) :
    (looped io c).streams[id]? = c.streams[id]? := by
  rw [looped_streams]
  cases hs : c.streams[id]? with
  | none => rfl
  | some s =>
      obtain ⟨hwork, hclosed⟩ := h id s hs
      exact congrArg some (Stream.service_idle hwork hclosed).1

theorem reverseAccept_false (h : reverseAccept io c = .ok false c₁) : c₁ = c := by
  have hspec : wp (reverseAccept io) (fun work c' => work = false → c' = c)
      (fun _ _ => True) c := by
    simp only [reverseAccept, wp_bind, wp_get, wp_ite]
    refine ⟨fun _ _ => rfl, fun _ => ?_⟩
    generalize (c.reverse.toList.filterMap fun entry =>
      (io.accept entry.2.listener).map fun fd => (fd, entry.2.target)) = sockets
    cases sockets with
    | nil => exact fun _ => rfl
    | cons socket rest =>
        refine wp_intro (fun _ c' _ => ?_) fun _ _ _ => trivial
        intro hwork
        exact absurd (List.cons_ne_nil socket rest) (of_decide_eq_false hwork)
  exact wp_of_ok hspec h rfl

theorem flush_ok (h : flush io c = .ok () c₁) : ∃ tls, c₁ = { c with tls := tls } := by
  have hspec : wp (flush io) (fun _ c' => ∃ tls, c' = { c with tls := tls })
      (fun _ _ => True) c := by
    simp only [flush, wp_bind, wp_get, wp_lift, wp_modify]
    exact ⟨fun tls _ => ⟨tls, rfl⟩, fun _ _ => trivial⟩
  exact wp_of_ok hspec h

/-! ## The entries of the poll set -/

theorem mem_waitForIo {id : UInt32} {s : Stream} {p : PollFd} (hs : c.streams[id]? = some s)
    (hp : s.pollFd c.tls.queued id = some p) : p ∈ c.waitForIo := by
  refine List.mem_append_left _ (List.mem_append_right _ ?_)
  exact List.mem_filterMap.mpr
    ⟨(id, s), Std.TreeMap.mem_toList_iff_getElem?_eq_some.mpr hs, hp⟩

theorem network_mem (h : 0 < c.tls.queued) :
    ∃ p ∈ c.waitForIo, p.watched = .network ∧ p.output = true :=
  ⟨_, List.mem_append_left _ (List.mem_append_left _ List.mem_cons_self), rfl, decide_eq_true h⟩

end Connection

namespace Stream

variable {s : Stream} {queued : ℕ} {socket : ServiceSocket}

/-- An idle socket is polled for reading while the backlog is short enough. -/
theorem pollFd_input (hsource : s.source = .socket socket) (hidle : s.Idle)
    (hqueued : queued < 4 * 1024 * 1024) (id : UInt32) :
    ∃ p, s.pollFd queued id = some p ∧ p.Watches id s ∧ p.input = true := by
  obtain ⟨hopening, hclosing, hwaiting⟩ := hidle
  unfold Stream.pollFd
  rw [hsource]
  dsimp only
  rw [hopening, hclosing, hwaiting, decide_eq_true hqueued]
  exact ⟨_, rfl, ⟨socket, hsource, rfl⟩, rfl⟩

/-- A socket with pending data is polled for writing. -/
theorem pollFd_output (hsource : s.source = .socket socket) (hpending : s.pending ≠ [])
    (queued : ℕ) (id : UInt32) :
    ∃ p, s.pollFd queued id = some p ∧ p.Watches id s ∧ p.output = true := by
  obtain ⟨data, rest, hpending⟩ := List.exists_cons_of_ne_nil hpending
  unfold Stream.pollFd
  rw [hsource]
  dsimp only
  rw [hpending, List.isEmpty_cons, Bool.not_false, Bool.or_true]
  exact ⟨_, rfl, ⟨socket, hsource, rfl⟩, rfl⟩

end Stream

namespace Connection

variable {c c₁ c₂ c₃ : Connection} {io io' io'' : Io}

/-- What could be written is polled for. -/
theorem CouldWrite.polled {id : UInt32} {s : Stream} (h : c.CouldWrite id s)
    (hs : c.streams[id]? = some s) :
    ∃ p ∈ c.waitForIo, p.Watches id s ∧ p.output = true := by
  obtain ⟨io, queued, data, hdata, hwrote⟩ := h
  obtain ⟨hpending, socket, hsource⟩ := Stream.wrote_service hdata hwrote
  obtain ⟨p, hp, hwatched, houtput⟩ := Stream.pollFd_output hsource hpending c.tls.queued id
  exact ⟨p, mem_waitForIo hs hp, hwatched, houtput⟩

/-- What could be read is a reply in memory, polled for, or held back. -/
theorem CouldRead.polled {id : UInt32} {s : Stream} (h : c.CouldRead id s)
    (hs : c.streams[id]? = some s) :
    (c.tls.queued < 4 * 1024 * 1024 ∧ s.Replies) ∨
      (∃ p ∈ c.waitForIo, p.Watches id s ∧ p.input = true) ∨ c.HeldBack := by
  obtain ⟨io, queued, data, -, hread⟩ := h
  obtain ⟨hidle, hrest⟩ := Stream.read_service hread
  by_cases hqueued : c.tls.queued < 4 * 1024 * 1024
  · cases hsource : s.source with
    | bytes rest => exact .inl ⟨hqueued, hidle, rest, hsource, hrest rest hsource⟩
    | socket socket =>
        obtain ⟨p, hp, hwatched, hinput⟩ := Stream.pollFd_input hsource hidle hqueued id
        exact .inr (.inl ⟨p, mem_waitForIo hs hp, hwatched, hinput⟩)
  · have hlong := Nat.le_of_not_lt hqueued
    exact .inr (.inr ⟨hlong, network_mem (Nat.lt_of_lt_of_le (by decide) hlong)⟩)

/-- A reply in memory that the backlog does not hold back is not polled for. -/
theorem not_covered {id : UInt32} {s : Stream} (hs : c.streams[id]? = some s)
    (hreplies : s.Replies) (hpending : s.pending = []) (hqueued : c.tls.queued < 4 * 1024 * 1024)
    (hmax : 0 < c.max) (io : Io) : ¬c.Covered := by
  intro hcovered
  obtain ⟨data, hread⟩ := (hreplies.service hpending hqueued hmax).2
  have hcould : c.CouldRead id s := ⟨io, c.tls.queued, data, le_rfl, hread⟩
  rcases (hcovered id s hs).1 hcould with ⟨p, -, ⟨socket, hsocket, -⟩, -⟩ | hheld
  · obtain ⟨-, rest, hbytes, -⟩ := hreplies
    cases hbytes.symm.trans hsocket
  · exact absurd hqueued (Nat.not_lt_of_le hheld.1)

/-- A connection waits for all that its next pass could do, unless the backlog
held back a reply in memory during the last pass and was sent since. -/
theorem wait_covered (h : Reachable c) (hservices : services io c = .ok false c₁)
    (haccept : reverseAccept io' c₁ = .ok false c₂) (hflush : flush io'' c₂ = .ok () c₃) :
    c₃.Covered ↔
      ¬(4 * 1024 * 1024 ≤ c.tls.queued ∧ c₃.tls.queued < 4 * 1024 * 1024 ∧
        ∃ (id : UInt32) (s : Stream), c.streams[id]? = some s ∧ s.Replies) := by
  obtain ⟨hrests, rfl⟩ := rests_of_services hservices
  obtain rfl := reverseAccept_false haccept
  obtain ⟨tls, rfl⟩ := flush_ok hflush
  have hstreams : ∀ id, ({ looped io c with tls := tls } : Connection).streams[id]? =
      c.streams[id]? := hrests.streams
  have hmax : 0 < c.max := Nat.lt_of_lt_of_le (by decide) (ReachableWithin.bounded h).1
  -- The pass would have read a reply, or closed its stream.
  have hreply : ∀ (id : UInt32) (s : Stream), c.streams[id]? = some s → s.Replies →
      s.pending = [] ∧ 4 * 1024 * 1024 ≤ c.tls.queued := by
    intro id s hs hreplies
    obtain ⟨hwork, hclosed⟩ := hrests id s hs
    have hpending : s.pending = [] := by
      by_contra hpending
      exact Bool.false_ne_true (hclosed.symm.trans (hreplies.closed hpending))
    refine ⟨hpending, Nat.le_of_not_lt fun hqueued => ?_⟩
    exact Bool.false_ne_true (hwork.symm.trans (hreplies.service hpending hqueued hmax).1)
  constructor
  · rintro hcovered ⟨-, hqueued, id, s, hs, hreplies⟩
    exact not_covered ((hstreams id).trans hs) hreplies (hreply id s hs hreplies).1 hqueued hmax io
      hcovered
  · intro hnot id s hs'
    have hs := (hstreams id).symm.trans hs'
    refine ⟨fun hread => ?_, fun hwrite => hwrite.polled hs'⟩
    rcases hread.polled hs' with ⟨hqueued, hreplies⟩ | hpolled
    · exact absurd ⟨(hreply id s hs hreplies).2, hqueued, id, s, hs, hreplies⟩ hnot
    · exact hpolled

/-! ## A reply behind a backlog -/

/-- The network takes nothing until it is flushed. -/
def stalled : Io where
  now := 0
  clock _ := 0
  tlsWrite _ tls bytes := Wire.blocked (Wire.pieces bytes.length bytes) tls bytes
  tlsFlush _ := .ok ⟨[], 0⟩
  broker _ := .error "not connected"
  nonblocking _ := .ok ()
  write _ := []
  read _ := .wouldBlock
  accept _ := none

/-- A connection without streams that has sent some packets. -/
def backlog (bytes : Bytes) (transcript : List Observation) : Connection :=
  { fresh with tls := ⟨bytes, 0⟩, transcript := transcript }

theorem send_stalled {c : Connection} {p : Packet} (hoffset : c.tls.offset = 0)
    (hdata : p.data = []) (hfits : c.tls.outgoing.length + 24 ≤ tlsOutputLimit) :
    send stalled p c = .ok () { c with
      tls := ⟨c.tls.outgoing ++ p.encode false, 0⟩, transcript := c.transcript ++ [.sent p] } := by
  have hlength : (p.encode false).length = 24 := by
    rw [Packet.encode_eq, List.length_append, Packet.length_header, hdata]
    rfl
  have hne : p.encode false ≠ [] := List.ne_nil_of_length_pos (by omega)
  have hqueued : c.tls.queued + (p.encode false).length ≤ tlsOutputLimit := by
    rw [Tls.queued, hoffset, hlength]
    exact hfits
  have hwrite := Wire.blocked_eq (Wire.pieces_chunks (le_refl (p.encode false).length)) hne c.tls
  rw [if_pos hqueued, hoffset, List.drop_zero] at hwrite
  apply eq_ok_of_wp
  simp only [send, wp_bind, wp_get, wp_lift, wp_modify]
  rw [Packet.write, if_neg (by rw [hdata]; decide)]
  constructor
  · intro tls htls
    obtain rfl := Except.ok.inj (hwrite.symm.trans htls)
    exact ⟨trivial, rfl⟩
  · intro error herror
    cases hwrite.symm.trans herror

theorem handle_refused (bytes : Bytes) (transcript : List Observation)
    (hfits : bytes.length + 24 ≤ tlsOutputLimit) :
    handle stalled ⟨OPEN, 7, 0, []⟩ (backlog bytes transcript) =
      .ok () (backlog (bytes ++ (⟨CLSE, 0, 7, []⟩ : Packet).encode false)
        (transcript ++ [.sent ⟨CLSE, 0, 7, []⟩])) := by
  exact @send_stalled (backlog bytes transcript) ⟨CLSE, 0, 7, []⟩ rfl rfl hfits

/-- Refused streams leave a backlog of any length. -/
theorem backlog_reachable (n : ℕ) (hfits : 24 * n ≤ tlsOutputLimit) :
    ∃ bytes transcript, bytes.length = 24 * n ∧ Reachable (backlog bytes transcript) := by
  induction n with
  | zero =>
      have hinitial : Initial (backlog [] []) := ⟨_, _, _, _, by decide, by decide, rfl⟩
      exact ⟨[], [], rfl, Transition.Reachable.start hinitial⟩
  | succ n ih =>
      obtain ⟨bytes, transcript, hlength, hreach⟩ := ih (by omega)
      have hstep : Step (fun _ => True) (backlog bytes transcript) (backlog _ _) :=
        ⟨stalled, .packet ⟨OPEN, 7, 0, []⟩, fun _ _ => trivial, ⟨fun _ => ⟨le_rfl, le_rfl⟩, le_rfl⟩,
          _, handle_refused bytes transcript (by omega), rfl⟩
      refine ⟨_, _, ?_, Transition.Reachable.next hreach hstep⟩
      rw [List.length_append, hlength]
      rfl

def listForward : Packet := ⟨OPEN, 7, 0, utf8 "reverse:list-forward\x00"⟩

/-- The connection after the host asked for the reverse listeners. -/
def listed (bytes : Bytes) (transcript : List Observation) : Connection :=
  { backlog bytes transcript with
    streams := (∅ : Streams).insert 1 (hostStream 7 (.bytes (utf8 "0000"))), next := 2 }

theorem openService_listForward (bytes : Bytes) (transcript : List Observation) :
    openService stalled listForward.data (backlog bytes transcript) =
      .ok (.bytes (utf8 "0000")) (backlog bytes transcript) := by
  have hname : String.fromUTF8? ⟨listForward.data.dropLast.toArray⟩ =
      some "reverse:list-forward" := by decide +kernel
  have hprefix : stripPrefix "reverse:" "reverse:list-forward" = some "list-forward" := by
    decide +kernel
  apply eq_ok_of_wp
  simp only [openService, wp_bind, wp_ensure, hname, hprefix]
  refine ⟨fun _ => ⟨fun _ => ?_, fun h => absurd (by decide +kernel) h⟩,
    fun h => absurd (by decide +kernel) h⟩
  rw [if_neg (by decide +kernel)]
  simp only [wp_bind, wp_attempt, reverseCommand, if_pos, wp_get, wp_pure]
  have hlist : utf8 (hex4 "".utf8ByteSize ++ "") = utf8 "0000" := by decide +kernel
  exact ⟨congrArg Source.bytes hlist, trivial⟩

theorem handle_listForward (bytes : Bytes) (transcript : List Observation)
    (hfits : bytes.length + 24 ≤ tlsOutputLimit) :
    handle stalled listForward (backlog bytes transcript) =
      .ok () (listed (bytes ++ (⟨OKAY, 1, 7, []⟩ : Packet).encode false)
        (transcript ++ [.sent ⟨OKAY, 1, 7, []⟩])) := by
  have hsend := @send_stalled (listed bytes transcript) ⟨OKAY, 1, 7, []⟩ rfl rfl hfits
  have hopen := openService_listForward bytes transcript
  have hroom : ¬maxStreams ≤ (∅ : Streams).size := by decide
  have hnone : ¬∃ entry ∈ (∅ : Streams).toList, entry.2.remote = listForward.arg0 := by decide
  apply eq_ok_of_wp
  change wp (handleOpen stalled listForward) _ _ _
  simp only [handleOpen, wp_bind, wp_ensure, wp_get, wp_ite, wp_attempt]
  refine ⟨fun _ => ⟨fun _ => ⟨fun h => absurd h hroom, fun _ => ?_⟩, fun h => absurd hnone h⟩,
    fun h => absurd (by decide) h⟩
  rw [wp, hopen]
  change wp (send stalled ⟨OKAY, 1, 7, []⟩) _ _ (listed bytes transcript)
  rw [wp, hsend]
  exact ⟨trivial, rfl⟩

/-- The host opens a stream and writes to it. -/
def pendingTurns : List Turn :=
  [.packet 1 OPEN 7 0 [115, 121, 110, 99, 58, 0], .packet 2 WRTE 7 1 [1, 2, 3]]

theorem reverseAccept_stalled (c : Connection) : reverseAccept stalled c = .ok false c := by
  apply eq_ok_of_wp
  simp only [reverseAccept, wp_bind, wp_get, wp_ite]
  have hnone : (c.reverse.toList.filterMap fun entry =>
      (stalled.accept entry.2.listener).map fun fd => (fd, entry.2.target)) = [] := by
    simp [stalled]
  rw [hnone]
  exact ⟨fun _ => ⟨rfl, rfl⟩, fun _ => ⟨rfl, rfl⟩⟩

/-- A service that takes nothing is polled for writing. -/
theorem wait_covered_pending :
    ∃ c c₁ c₂ c₃, Reachable c ∧ services stalled c = .ok false c₁ ∧
      reverseAccept stalled c₁ = .ok false c₂ ∧ flush stalled c₂ = .ok () c₃ ∧ c₃.Covered ∧
        ∃ s, c.streams[(1 : UInt32)]? = some s ∧ s.pending = [[1, 2, 3]] := by
  have hruns : ∃ c ∈ run (fun _ => True) fresh pendingTurns, c.tls.queued < 4 * 1024 * 1024 ∧
      (∀ entry ∈ c.streams.toList, (passed stalled c entry.1 entry.2).work = false ∧
        (passed stalled c entry.1 entry.2).closed = false) ∧
      ∃ s ∈ c.streams[(1 : UInt32)]?, s.pending = [[1, 2, 3]] := by
    decide +kernel
  obtain ⟨c, hrun, hqueued, hpassed, s, hs, hpending⟩ := hruns
  have hrests : c.Rests stalled := by
    intro id s hs
    exact hpassed (id, s) (Std.TreeMap.mem_toList_iff_getElem?_eq_some.mpr hs)
  have haccept := reverseAccept_stalled (looped stalled c)
  have hflush : flush stalled (looped stalled c) =
      .ok () { looped stalled c with tls := ⟨[], 0⟩ } := rfl
  refine ⟨c, _, _, _, run_reachable hrun, hrests.services, haccept, hflush, ?_, s, hs, hpending⟩
  apply (wait_covered (run_reachable hrun) hrests.services haccept hflush).mpr
  intro hheld
  exact absurd hqueued (Nat.not_lt_of_le hheld.1)

theorem wait_covered_fails :
    ∃ c c₁ c₂ c₃, Reachable c ∧ services stalled c = .ok false c₁ ∧
      reverseAccept stalled c₁ = .ok false c₂ ∧ flush stalled c₂ = .ok () c₃ ∧ ¬c₃.Covered := by
  obtain ⟨bytes, transcript, hlength, hreach⟩ := backlog_reachable 174763 (by decide)
  have hfits : bytes.length + 24 ≤ tlsOutputLimit := by
    rw [hlength]
    decide
  have hlong : 4 * 1024 * 1024 ≤ (bytes ++ (⟨OKAY, 1, 7, []⟩ : Packet).encode false).length := by
    rw [List.length_append, hlength]
    omega
  have hlisted := handle_listForward bytes transcript hfits
  generalize bytes ++ (⟨OKAY, 1, 7, []⟩ : Packet).encode false = sent at hlong hlisted
  generalize transcript ++ [.sent ⟨OKAY, 1, 7, []⟩] = transcript' at hlisted
  have hstep : Step (fun _ => True) (backlog bytes transcript) (listed sent transcript') :=
    ⟨stalled, .packet listForward, fun _ _ => trivial, ⟨fun _ => ⟨le_rfl, le_rfl⟩, le_rfl⟩,
      _, hlisted, rfl⟩
  have hreplies : (hostStream 7 (.bytes (utf8 "0000"))).Replies :=
    ⟨⟨rfl, rfl, rfl⟩, _, rfl, by decide +kernel⟩
  have hstream : (listed sent transcript').streams[(1 : UInt32)]? =
      some (hostStream 7 (.bytes (utf8 "0000"))) := Std.TreeMap.getElem?_insert_self
  have hrests : (listed sent transcript').Rests stalled := by
    intro id s hs
    have hone : s = hostStream 7 (.bytes (utf8 "0000")) := by
      change ((∅ : Streams).insert 1 _)[id]? = some s at hs
      rw [Std.TreeMap.getElem?_insert] at hs
      split at hs
      · exact (Option.some.inj hs).symm
      · simp at hs
    subst hone
    exact hreplies.1.held rfl hlong
  have haccept := reverseAccept_stalled (looped stalled (listed sent transcript'))
  refine ⟨_, _, _, _, Transition.Reachable.next hreach hstep, hrests.services, haccept, rfl, ?_⟩
  exact not_covered ((hrests.streams 1).trans hstream) hreplies rfl
    (show 0 < 4 * 1024 * 1024 by decide) (show 0 < 65536 by decide) stalled

end Connection

end Altdb
