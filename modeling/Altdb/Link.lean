import Altdb.StreamSteps

/-!
# A connection and its host

A host talks to a connection over two FIFO channels.  It opens streams of its
own, answers the streams that the device offers at any later time, and closes
a stream at most once.  Flow control is a separate restriction on its actions,
so that agreement on the open streams can be stated without it.
-/

namespace Altdb

open Relation

/-! ## The host -/

/-- What a host knows of one of its ids. -/
inductive PeerStream where
  | idle
  | opening
  | opened (device : UInt32) (unacked : Bool) (owed : ℕ)
  | closing (device : UInt32)
  | done
  deriving DecidableEq, Repr

namespace PeerStream

/-- The id of the device, as long as the host has not dropped the stream. -/
def device : PeerStream → Option UInt32
  | .opened d _ _ => some d
  | .closing d => some d
  | .idle | .opening | .done => none

/-- A `WRTE` of the host may wait for its `OKAY`. -/
def unacked : PeerStream → Bool
  | .opened _ unacked _ => unacked
  | .idle | .opening | .closing _ | .done => true

/-- The number of received `WRTE` that the host has not acknowledged. -/
def owed : PeerStream → ℕ
  | .opened _ _ owed => owed
  | .idle | .opening | .closing _ | .done => 0

end PeerStream

/-- What a host does with an `OPEN` of the device. -/
inductive Offer where
  | unseen
  | pending
  | accepted
  | refused
  deriving DecidableEq, Repr

structure Peer where
  streams : Std.TreeMap UInt32 PeerStream
  offers : Std.TreeMap UInt32 Offer

inductive PeerAction where
  | openStream (h : UInt32) (data : Bytes)
  | accept (d h : UInt32)
  | refuse (d : UInt32)
  | write (h : UInt32) (data : Bytes)
  | acknowledge (h : UInt32)
  | close (h : UInt32)
  deriving DecidableEq, Repr

namespace Peer

def stream (peer : Peer) (h : UInt32) : PeerStream :=
  peer.streams[h]?.getD .idle

def offer (peer : Peer) (d : UInt32) : Offer := peer.offers[d]?.getD .unseen

def setStream (peer : Peer) (h : UInt32) (s : PeerStream) : Peer :=
  { peer with streams := peer.streams.insert h s }

def setOffer (peer : Peer) (d : UInt32) (o : Offer) : Peer :=
  { peer with offers := peer.offers.insert d o }

@[simp] theorem stream_setStream (peer : Peer) (h h' : UInt32) (s : PeerStream) :
    (peer.setStream h s).stream h' = if h = h' then s else peer.stream h' := by
  simp only [stream, setStream, Std.TreeMap.getElem?_insert,
    Std.LawfulEqCmp.compare_eq_iff_eq]
  split <;> rfl

@[simp] theorem stream_setOffer (peer : Peer) (d h : UInt32) (o : Offer) :
    (peer.setOffer d o).stream h = peer.stream h := rfl

@[simp] theorem offer_setStream (peer : Peer) (h d : UInt32) (s : PeerStream) :
    (peer.setStream h s).offer d = peer.offer d := rfl

@[simp] theorem offer_setOffer (peer : Peer) (d d' : UInt32) (o : Offer) :
    (peer.setOffer d o).offer d' = if d = d' then o else peer.offer d' := by
  simp only [offer, setOffer, Std.TreeMap.getElem?_insert,
    Std.LawfulEqCmp.compare_eq_iff_eq]
  split <;> rfl

/-- An action that the host may take by itself, and the packet it sends. -/
def act (peer : Peer) : PeerAction → Option (Peer × Packet)
  | .openStream h data =>
      if h ≠ 0 ∧ peer.stream h = .idle then
        some (peer.setStream h .opening, ⟨OPEN, h, 0, data⟩)
      else none
  | .accept d h =>
      if peer.offer d = .pending ∧ h ≠ 0 ∧ peer.stream h = .idle then
        some ((peer.setOffer d .accepted).setStream h (.opened d false 0),
          ⟨OKAY, h, d, []⟩)
      else none
  | .refuse d =>
      if peer.offer d = .pending then
        some (peer.setOffer d .refused, ⟨CLSE, 0, d, []⟩)
      else none
  | .write h data =>
      match peer.stream h with
      | .opened d _ owed =>
          some (peer.setStream h (.opened d true owed), ⟨WRTE, h, d, data⟩)
      | .idle | .opening | .closing _ | .done => none
  | .acknowledge h =>
      match peer.stream h with
      | .opened d unacked owed =>
          some (peer.setStream h (.opened d unacked (owed - 1)),
            ⟨OKAY, h, d, []⟩)
      | .idle | .opening | .closing _ | .done => none
  | .close h =>
      match peer.stream h with
      | .opened d _ _ => some (peer.setStream h (.closing d), ⟨CLSE, h, d, []⟩)
      | .idle | .opening | .closing _ | .done => none

/-- What the host does with a packet of the device, and its answer. -/
def receive (peer : Peer) (p : Packet) : Peer × List Packet :=
  if p.command = OPEN then (peer.setOffer p.arg0 .pending, [])
  else
    match peer.stream p.arg1 with
    | .idle | .done => (peer, [])
    | .opening =>
        if p.command = OKAY then
          (peer.setStream p.arg1 (.opened p.arg0 false 0), [])
        else if p.command = CLSE then (peer.setStream p.arg1 .done, [])
        else (peer, [])
    | .opened d unacked owed =>
        if p.arg0 ≠ d then (peer, [])
        else if p.command = OKAY then
          (peer.setStream p.arg1 (.opened d false owed), [])
        else if p.command = WRTE then
          (peer.setStream p.arg1 (.opened d unacked (owed + 1)), [])
        else if p.command = CLSE then
          (peer.setStream p.arg1 .done, [⟨CLSE, p.arg1, d, []⟩])
        else (peer, [])
    | .closing d =>
        if p.command = CLSE ∧ p.arg0 = d then
          (peer.setStream p.arg1 .done, [])
        else (peer, [])

/-- The number of streams that the host has not dropped. -/
def live (peer : Peer) : ℕ :=
  (peer.streams.toList.filter fun e => e.2 ≠ .idle ∧ e.2 ≠ .done).length

/-- Flow control: at most 64 streams, payloads of at most `max` bytes, one
unacknowledged `WRTE` a stream and one `OKAY` for each received `WRTE`. -/
def Respects (peer : Peer) (max : ℕ) : PeerAction → Prop
  | .openStream _ data => peer.live < 64 ∧ data.length ≤ max
  | .accept _ _ => peer.live < 64
  | .write h data => (peer.stream h).unacked = false ∧ data.length ≤ max
  | .acknowledge h => 0 < (peer.stream h).owed
  | .refuse _ | .close _ => True

instance (peer : Peer) (max : ℕ) :
    (action : PeerAction) → Decidable (peer.Respects max action)
  | .openStream _ data =>
      inferInstanceAs (Decidable (peer.live < 64 ∧ data.length ≤ max))
  | .accept _ _ => inferInstanceAs (Decidable (peer.live < 64))
  | .write h data =>
      inferInstanceAs
        (Decidable ((peer.stream h).unacked = false ∧ data.length ≤ max))
  | .acknowledge h => inferInstanceAs (Decidable (0 < (peer.stream h).owed))
  | .refuse _ => inferInstanceAs (Decidable True)
  | .close _ => inferInstanceAs (Decidable True)

end Peer

/-! ## Both parties -/

namespace Connection

/-- All packets that the connection has sent. -/
def sent (c : Connection) : List Packet :=
  c.transcript.filterMap fun
    | .sent p => some p
    | .accepted _ _ | .wrote _ _ | .read _ _ | .called _ => none

/-- An `OKAY` for an offered stream that is gone before the host accepted
it. -/
def Late (c : Connection) (p : Packet) : Prop :=
  p.command = OKAY ∧ c.streams[p.arg1]? = none ∧
    Offered (c.history p.arg1) ∧
    .accepted .opened ∉ c.history p.arg1

end Connection

structure Link where
  device : Connection
  peer : Peer
  toDevice : List Packet
  toPeer : List Packet

namespace Link

open Connection

def Initial (l : Link) : Prop :=
  l.device.Initial ∧ l.peer = ⟨∅, ∅⟩ ∧ l.toDevice = [] ∧ l.toPeer = []

/-- A step of one party.  With `late` the device may be given an `OKAY` for a
stream it has withdrawn; with `strict` the host respects flow control. -/
inductive Step (late strict : Prop) : Link → Link → Prop
  | device (l : Link) (io : Io) (event : Event) (c : Connection)
      (ps : List Packet) (hevent : ∀ p, event ≠ .packet p)
      (hstep : StepOf io event l.device c) (hsent : c.sent = l.device.sent ++ ps) :
      Step late strict l { l with device := c, toPeer := l.toPeer ++ ps }
  | deliver (l : Link) (io : Io) (p : Packet) (rest : List Packet)
      (c : Connection) (ps : List Packet) (hhead : l.toDevice = p :: rest)
      (hlate : l.device.Late p → late)
      (hstep : StepOf io (.packet p) l.device c)
      (hsent : c.sent = l.device.sent ++ ps) :
      Step late strict l
        { l with device := c, toDevice := rest, toPeer := l.toPeer ++ ps }
  | act (l : Link) (action : PeerAction) (peer : Peer) (p : Packet)
      (hact : l.peer.act action = some (peer, p))
      (hrespects : strict → l.peer.Respects l.device.max action) :
      Step late strict l { l with peer := peer, toDevice := l.toDevice ++ [p] }
  | receive (l : Link) (p : Packet) (rest : List Packet)
      (hhead : l.toPeer = p :: rest) :
      Step late strict l
        { l with
          peer := (l.peer.receive p).1
          toPeer := rest
          toDevice := l.toDevice ++ (l.peer.receive p).2 }

/-- The states of the runs of both parties. -/
abbrev Reachable (late strict : Prop) : Link → Prop :=
  Transition.Reachable Initial (Step late strict)

/-- The host holds the stream `h` with the id `d` of the device. -/
def OpenOnHost (l : Link) (h d : UInt32) : Prop :=
  ∃ unacked owed, l.peer.stream h = .opened d unacked owed

/-- The device holds the stream `d` with the id `h` of the host. -/
def OpenOnDevice (l : Link) (h d : UInt32) : Prop :=
  ∃ s, l.device.streams[d]? = some s ∧ s.remote = h

/-- No packet is in flight, no open is pending and no close is draining. -/
structure Settled (l : Link) : Prop where
  toDevice : l.toDevice = []
  toPeer : l.toPeer = []
  device : ∀ (d : UInt32) (s : Stream), l.device.streams[d]? = some s →
    s.opening = none ∧ s.closing = none
  peer : ∀ h, l.peer.stream h ≠ .opening ∧ ∀ d, l.peer.stream h ≠ .closing d
  offers : ∀ d, l.peer.offer d ≠ .pending

end Link

end Altdb
