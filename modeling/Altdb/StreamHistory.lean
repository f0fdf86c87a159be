import Altdb.ConnectionSteps

/-!
# The history of one stream

`view` is what a connection holds for one stream id: the stream, the part of
the transcript that concerns it and whether the id has been allocated.
-/

namespace Altdb

/-- The part of an observation that concerns one stream. -/
inductive StreamEvent where
  | accepted (what : Acceptance)
  | wrote (data : Bytes)
  | read (data : Bytes)
  | sent (packet : Packet)
  deriving DecidableEq, Repr

/-- A packet concerns the stream that it names first. -/
def Observation.about (id : UInt32) : Observation → Option StreamEvent
  | .accepted i what => if i = id then some (.accepted what) else none
  | .wrote i data => if i = id then some (.wrote data) else none
  | .read i data => if i = id then some (.read data) else none
  | .sent p => if p.arg0 = id then some (.sent p) else none
  | .called _ => none

/-! ## Parts of a history -/

namespace StreamEvent

/-- The bytes that the event wrote to the service. -/
def written : StreamEvent → Bytes
  | .wrote data => data
  | .accepted _ | .read _ | .sent _ => []

/-- The payload that the event accepted from the host. -/
def received : StreamEvent → Bytes
  | .accepted (.payload data) => data
  | .accepted .opened | .accepted .acknowledged | .accepted (.closed _)
  | .wrote _ | .read _ | .sent _ => []

/-- The bytes that the event read from the service. -/
def output : StreamEvent → Bytes
  | .read data => data
  | .accepted _ | .wrote _ | .sent _ => []

def packet? : StreamEvent → Option Packet
  | .sent p => some p
  | .accepted _ | .wrote _ | .read _ => none

end StreamEvent

/-- The bytes that reached the service. -/
def written (h : List StreamEvent) : Bytes := h.flatMap (·.written)

/-- The payloads of the accepted packets in the order of their arrival. -/
def received (h : List StreamEvent) : Bytes := h.flatMap (·.received)

/-- The bytes that came from the service. -/
def output (h : List StreamEvent) : Bytes := h.flatMap (·.output)

/-- The packets that were sent. -/
def packets (h : List StreamEvent) : List Packet := h.filterMap (·.packet?)

section

variable (h h' : List StreamEvent) (what : Acceptance) (data : Bytes)
  (p : Packet) (t : Instant)

@[simp] theorem written_nil : written [] = [] := rfl

@[simp] theorem written_append : written (h ++ h') = written h ++ written h' :=
  List.flatMap_append

@[simp] theorem written_accepted :
    written (.accepted what :: h) = written h := rfl

@[simp] theorem written_wrote :
    written (.wrote data :: h) = data ++ written h := rfl

@[simp] theorem written_read : written (.read data :: h) = written h := rfl

@[simp] theorem written_sent : written (.sent p :: h) = written h := rfl

@[simp] theorem received_nil : received [] = [] := rfl

@[simp] theorem received_append :
    received (h ++ h') = received h ++ received h' :=
  List.flatMap_append

@[simp] theorem received_opened :
    received (.accepted .opened :: h) = received h := rfl

@[simp] theorem received_acknowledged :
    received (.accepted .acknowledged :: h) = received h := rfl

@[simp] theorem received_payload :
    received (.accepted (.payload data) :: h) = data ++ received h := rfl

@[simp] theorem received_closed :
    received (.accepted (.closed t) :: h) = received h := rfl

@[simp] theorem received_wrote :
    received (.wrote data :: h) = received h := rfl

@[simp] theorem received_read : received (.read data :: h) = received h := rfl

@[simp] theorem received_sent : received (.sent p :: h) = received h := rfl

@[simp] theorem output_nil : output [] = [] := rfl

@[simp] theorem output_append : output (h ++ h') = output h ++ output h' :=
  List.flatMap_append

@[simp] theorem output_accepted :
    output (.accepted what :: h) = output h := rfl

@[simp] theorem output_wrote : output (.wrote data :: h) = output h := rfl

@[simp] theorem output_read :
    output (.read data :: h) = data ++ output h := rfl

@[simp] theorem output_sent : output (.sent p :: h) = output h := rfl

@[simp] theorem packets_nil : packets [] = [] := rfl

@[simp] theorem packets_append :
    packets (h ++ h') = packets h ++ packets h' :=
  List.filterMap_append

@[simp] theorem packets_accepted :
    packets (.accepted what :: h) = packets h := rfl

@[simp] theorem packets_wrote : packets (.wrote data :: h) = packets h := rfl

@[simp] theorem packets_read : packets (.read data :: h) = packets h := rfl

@[simp] theorem packets_sent : packets (.sent p :: h) = p :: packets h := rfl

end

theorem mem_packets {h : List StreamEvent} {p : Packet} :
    p ∈ packets h ↔ .sent p ∈ h := by
  simp only [packets, List.mem_filterMap]
  constructor
  · rintro ⟨e, he, hp⟩
    cases e with
    | sent q =>
        obtain rfl := Option.some.inj hp
        exact he
    | accepted | wrote | read => cases hp
  · exact fun hmem => ⟨_, hmem, rfl⟩

/-- The host was offered the stream. -/
def Offered (h : List StreamEvent) : Prop := ∃ p ∈ packets h, p.command = OPEN

/-- Packets to the host are no bytes of the service. -/
@[simp] theorem written_map_sent (ps : List Packet) :
    written (ps.map .sent) = [] := by
  induction ps with
  | nil => rfl
  | cons p rest ih => simpa using ih

@[simp] theorem received_map_sent (ps : List Packet) :
    received (ps.map .sent) = [] := by
  induction ps with
  | nil => rfl
  | cons p rest ih => simpa using ih

@[simp] theorem output_map_sent (ps : List Packet) :
    output (ps.map .sent) = [] := by
  induction ps with
  | nil => rfl
  | cons p rest ih => simpa using ih

@[simp] theorem packets_map_sent (ps : List Packet) :
    packets (ps.map .sent) = ps := by
  induction ps with
  | nil => rfl
  | cons p rest ih => simpa using ih

/-! ## Views -/

@[ext] structure StreamView where
  stream : Option Stream
  history : List StreamEvent
  allocated : Bool

namespace Connection

def history (c : Connection) (id : UInt32) : List StreamEvent :=
  c.transcript.filterMap (·.about id)

def view (c : Connection) (id : UInt32) : StreamView where
  stream := c.streams[id]?
  history := c.history id
  allocated := c.allocated id

@[simp] theorem view_stream (c : Connection) (id : UInt32) :
    (c.view id).stream = c.streams[id]? := rfl

@[simp] theorem view_history (c : Connection) (id : UInt32) :
    (c.view id).history = c.history id := rfl

variable {c c' : Connection}

/-! ## Views after a change -/

theorem streams_insert (streams : Streams) (id other : UInt32) (s : Stream) :
    (streams.insert id s)[other]? = if id = other then some s else streams[other]? := by
  simp only [Std.TreeMap.getElem?_insert, Std.LawfulEqCmp.compare_eq_iff_eq]

/-- Calls of the supervisor are no part of a view. -/
theorem Talks.view (h : Talks c c') (id : UInt32) : c'.view id = c.view id := by
  obtain ⟨reverse, calls, rfl⟩ := h
  have hcalls : (calls.map Observation.called).filterMap (·.about id) = [] := by
    rw [List.filterMap_eq_nil_iff]
    intro o ho
    obtain ⟨r, -, rfl⟩ := List.mem_map.mp ho
    rfl
  refine StreamView.ext rfl ?_ rfl
  simp [Connection.view, history, hcalls]

theorem Talks.streams_eq (h : Talks c c') : c'.streams = c.streams := by
  obtain ⟨reverse, calls, rfl⟩ := h
  rfl

theorem Talks.next_eq (h : Talks c c') : c'.next = c.next := by
  obtain ⟨reverse, calls, rfl⟩ := h
  rfl

theorem Talks.max_eq (h : Talks c c') : c'.max = c.max := by
  obtain ⟨reverse, calls, rfl⟩ := h
  rfl

theorem view_updated_self (c : Connection) (id : UInt32) (s : Stream)
    (what : Acceptance) :
    (c.updated id s what).view id =
      ⟨some s, c.history id ++ [.accepted what], c.allocated id⟩ := by
  refine StreamView.ext ?_ ?_ rfl <;>
    simp [view, history, updated, Observation.about]

theorem view_updated_ne {id other : UInt32} (c : Connection) (s : Stream)
    (what : Acceptance) (hne : id ≠ other) :
    (c.updated id s what).view other = c.view other := by
  refine StreamView.ext ?_ ?_ rfl <;>
    simp [view, history, updated, Observation.about, streams_insert, hne]

theorem view_sent_self (c : Connection) (tls : Tls) (p : Packet) :
    (c.withSent tls [p]).view p.arg0 =
      ⟨c.streams[p.arg0]?, c.history p.arg0 ++ [.sent p],
        c.allocated p.arg0⟩ := by
  refine StreamView.ext rfl ?_ rfl
  simp [view, history, withSent, Observation.about]

theorem view_sent_ne {other : UInt32} (c : Connection) (tls : Tls) (p : Packet)
    (hne : p.arg0 ≠ other) : (c.withSent tls [p]).view other = c.view other := by
  refine StreamView.ext rfl ?_ rfl
  simp [view, history, withSent, Observation.about, hne]

theorem next_succ (hid : c.next.toNat + 1 < UInt32.size) :
    (c.next + 1).toNat = c.next.toNat + 1 := by
  rw [UInt32.toNat_add]
  exact Nat.mod_eq_of_lt hid

theorem view_opened_self (c : Connection) (s : Stream) (tls : Tls) (p : Packet)
    (hp : p.arg0 = c.next) (hpos : 0 < c.next.toNat)
    (hid : c.next.toNat + 1 < UInt32.size) :
    (c.opened c.next s tls p).view c.next =
      ⟨some s, c.history c.next ++ [.sent p], true⟩ := by
  simp [view, history, opened, Observation.about, allocated, hp, next_succ hid,
    hpos]

theorem view_opened_ne {other : UInt32} (c : Connection) (s : Stream)
    (tls : Tls) (p : Packet) (hp : p.arg0 = c.next) (hne : c.next ≠ other)
    (hid : c.next.toNat + 1 < UInt32.size) :
    (c.opened c.next s tls p).view other = c.view other := by
  have hlt : other.toNat < c.next.toNat + 1 ↔ other.toNat < c.next.toNat := by
    have : other.toNat ≠ c.next.toNat := fun h => hne (UInt32.toNat.inj h).symm
    omega
  simp [view, history, opened, Observation.about, allocated, streams_insert, hp,
    next_succ hid, hne, hlt]

theorem view_acknowledged_self (c : Connection) (tls : Tls)
    (id remote : UInt32) :
    (c.acknowledged tls id remote).view id =
      ⟨c.streams[id]?, c.history id ++ [.accepted (.payload []),
        .sent ⟨OKAY, id, remote, []⟩], c.allocated id⟩ := by
  refine StreamView.ext rfl ?_ rfl
  simp [view, history, acknowledged, Observation.about]

theorem view_acknowledged_ne {id other : UInt32} (c : Connection) (tls : Tls)
    (remote : UInt32) (hne : id ≠ other) :
    (c.acknowledged tls id remote).view other = c.view other := by
  refine StreamView.ext rfl ?_ rfl
  simp [view, history, acknowledged, Observation.about, hne]

theorem view_of_stream {id : UInt32} {s : Stream}
    (hstream : c.streams[id]? = some s) :
    c.view id = ⟨some s, c.history id, c.allocated id⟩ :=
  StreamView.ext hstream rfl rfl

theorem view_of_none {id : UInt32} (hstream : c.streams[id]? = none) :
    c.view id = ⟨none, c.history id, c.allocated id⟩ :=
  StreamView.ext hstream rfl rfl

end Connection

end Altdb
