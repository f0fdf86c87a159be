import Altdb.MdnsResponse
import Altdb.Network
import Altdb.SoftState
import Mathlib.Tactic.Linarith

/-!
# The publisher of multicast DNS

The publisher repeats its records before they expire, answers queries for them, and
takes them back before it changes them and when it is dropped.  A resolver that
hears its packets therefore knows the current records and no others.
-/

namespace Altdb

namespace Mdns

/-! ## The publisher -/

/-- `Mdns`.  The time before the start is negative. -/
structure Publisher where
  sockets : List Fd
  specs : List Endpoint
  endpoints : List Endpoint
  guid : String
  pair : Option UInt16
  last : ℤ
  lastReply : ℤ
  deriving DecidableEq, Repr

namespace Publisher

/-- `Mdns::new`. -/
def new (sockets : List Fd) (specs endpoints : List Endpoint) (guid : String) (now : ℤ) :
    Publisher :=
  ⟨sockets, specs, endpoints, guid, none, now - secs 120, now - secs 1⟩

/-- The endpoints on the interface of a socket. -/
def onInterface (p : Publisher) (spec : Endpoint) : List Endpoint :=
  p.endpoints.filter fun e => e.index == spec.index

def packet (p : Publisher) (spec : Endpoint) (ttl : UInt32) : Bytes :=
  response p.guid (p.onInterface spec) p.pair ttl

/-- The packets of an announcement, with the sockets that they are sent on. -/
def announcement (p : Publisher) (ttl : UInt32) : List (Endpoint × Bytes) :=
  (p.sockets.zip p.specs).map fun entry => (entry.2, p.packet entry.2 ttl)

end Publisher

/-! ## Resolvers -/

/-- A record without its lifetime. -/
def Resource.key (r : Resource) : Resource := { r with ttl := 0 }

/-- What a packet tells a resolver. -/
def notices (data : Bytes) : List (SoftState.Notice Resource) :=
  match walk data (beWord data 6) 12 with
  | some (resources, _) => resources.map fun r => ⟨r.key, secs r.ttl⟩
  | none => []

/-- The publisher with the resolvers of its networks, one for each socket.
`replies` is a history variable: when queries were answered. -/
structure Publication where
  publisher : Publisher
  caches : Endpoint → SoftState.Cache Resource
  replies : List ℤ

namespace Publication

/-- `announce`: the packets arrive at the time that `last` takes. -/
def announce (now : ℤ) (ttl : UInt32) (n : Publication) : Publication :=
  { n with
    publisher := { n.publisher with last := now }
    caches := (n.publisher.announcement ttl).foldl
      (fun caches sent => Function.update caches sent.1
        (SoftState.absorbAll now (caches sent.1) (notices sent.2))) n.caches }

def setPair (port : Option UInt16) (n : Publication) : Publication :=
  { n with publisher := { n.publisher with pair := port } }

/-- `pairing`, with the times of its two announcements. -/
def pairing (now now' : ℤ) (port : Option UInt16) (n : Publication) : Publication :=
  ((n.announce now 0).setPair port).announce now' 120

/-- The clock during `tick`: at the two comparisons, at the announcements and at the
end. -/
structure Clock where
  began : ℤ
  refreshed : ℤ
  compared : ℤ
  answered : ℤ
  ended : ℤ

/-- The datagrams that a socket returns before it would block or fails. -/
def asked (guid : String) (received : List (List Bytes)) : Bool :=
  received.any fun datagrams => (datagrams.take 16).any fun data => relevant (data.take 9000) guid

def refresh (clock : Clock) (n : Publication) : Publication :=
  if secs 60 ≤ clock.began - n.publisher.last then n.announce clock.refreshed 120 else n

def answer (clock : Clock) (received : List (List Bytes)) (n : Publication) : Publication :=
  if asked n.publisher.guid (received.take n.publisher.sockets.length) ∧
      250000000 ≤ clock.compared - n.publisher.lastReply then
    let n := n.announce clock.answered 120
    { n with
      publisher := { n.publisher with lastReply := clock.ended }
      replies := n.replies ++ [clock.answered] }
  else n

def tick (clock : Clock) (received : List (List Bytes)) (n : Publication) : Publication :=
  (n.refresh clock).answer clock received

/-- `drop`. -/
def drop (now : ℤ) (n : Publication) : Publication := n.announce now 0

inductive Call where
  | pairing (now now' : ℤ) (port : Option UInt16)
  | tick (clock : Clock) (received : List (List Bytes))

def perform (n : Publication) : Call → Publication
  | .pairing now now' port => n.pairing now now' port
  | .tick clock received => n.tick clock received

def Call.began : Call → ℤ
  | .pairing now _ _ => now
  | .tick clock _ => clock.began

def Call.ended : Call → ℤ
  | .pairing _ now' _ => now'
  | .tick clock _ => clock.ended

/-- The clock does not run backwards during a call. -/
def Call.Ordered : Call → Prop
  | .pairing now now' _ => now ≤ now'
  | .tick clock _ => clock.began ≤ clock.refreshed ∧ clock.refreshed ≤ clock.compared ∧
      clock.compared ≤ clock.answered ∧ clock.answered ≤ clock.ended

/-- Nor between the calls. -/
def Ordered : ℤ → List Call → Prop
  | _, [] => True
  | time, call :: rest => time ≤ call.began ∧ call.Ordered ∧ Ordered call.ended rest

/-- The publisher at its start, when no resolver knows it. -/
def start (sockets : List Fd) (specs endpoints : List Endpoint) (guid : String) (now : ℤ) :
    Publication :=
  ⟨.new sockets specs endpoints guid now, fun _ => SoftState.empty, []⟩

def run (n : Publication) (calls : List Call) : Publication := calls.foldl perform n

end Publication

/-! ## Packets and their records -/

variable {guid : String} {p : Publisher} {n : Publication} {spec : Endpoint} {ttl : UInt32}
  {sockets : List Fd} {specs endpoints : List Endpoint} {now time : ℤ}
  {received : List (List Bytes)}

/-- An announcement is read as its records. -/
theorem notices_response (hguid : GuidLabel guid) {endpoints : List Endpoint}
    (hendpoints : endpoints.length ≤ 32) (pair : Option UInt16) (ttl : UInt32) :
    notices (response guid endpoints pair ttl) =
      (announced guid endpoints pair ttl).map fun r => ⟨r.key, secs r.ttl⟩ := by
  have hpacket : ∃ packet, Written packet (announced guid endpoints pair ttl) ∧
      response guid endpoints pair ttl =
        packet.out.take 6 ++ beBytes16 packet.count ++ packet.out.drop 8 := by
    cases endpoints with
    | nil => exact ⟨_, written_header, rfl⟩
    | cons ep rest =>
        have hconnect := written_header.announce ttl hguid (.inl rfl) ep.port
        cases pair with
        | none => exact ⟨_, hconnect.addresses hguid (ep :: rest), rfl⟩
        | some port =>
            have hpair := hconnect.announce ttl hguid (.inr rfl) port
            exact ⟨_, hpair.addresses hguid (ep :: rest), rfl⟩
  have hlength := length_announced guid endpoints pair ttl
  obtain ⟨packet, hwritten, hresponse⟩ := hpacket
  obtain ⟨hcount, hwalk⟩ := hwritten.walk (by omega)
  unfold notices
  rw [hresponse, hcount, hwalk]

/-- The records that the publisher stands for on an interface. -/
def Publisher.records (p : Publisher) (spec : Endpoint) : List Resource :=
  announced p.guid (p.onInterface spec) p.pair 0

/-- All records of an announcement have its lifetime. -/
theorem announced_ttl (guid : String) (endpoints : List Endpoint) (pair : Option UInt16)
    (ttl : UInt32) : (announced guid endpoints pair ttl).map (fun r => (r.key, r.ttl)) =
      (announced guid endpoints pair 0).map fun r => (r, ttl.toNat) := by
  have hservice : ∀ service port, (serviceRecords guid ttl service port).map
      (fun r => (r.key, r.ttl)) =
        (serviceRecords guid 0 service port).map fun r => (r, ttl.toNat) := by
    intro service port
    rfl
  have haddresses : (endpoints.map (addressRecord guid ttl)).map (fun r => (r.key, r.ttl)) =
      (endpoints.map (addressRecord guid 0)).map fun r => (r, ttl.toNat) := by
    rw [List.map_map, List.map_map]
    rfl
  unfold announced
  rw [List.map_append, List.map_append, haddresses]
  congr 1
  cases endpoints with
  | nil => rfl
  | cons ep rest =>
      dsimp only
      rw [List.map_append, List.map_append, hservice]
      congr 1
      cases pair with
      | none => rfl
      | some port => exact hservice PAIR port

/-- What the resolver behind a socket is told. -/
theorem notices_packet (hguid : GuidLabel p.guid) (hendpoints : p.endpoints.length ≤ 32)
    (spec : Endpoint) (ttl : UInt32) :
    notices (p.packet spec ttl) = (p.records spec).map (⟨·, secs ttl.toNat⟩) := by
  have hlength : (p.onInterface spec).length ≤ 32 :=
    (List.length_filter_le _ _).trans hendpoints
  have hmap := congrArg (List.map fun entry : Resource × ℕ =>
    (⟨entry.1, secs entry.2⟩ : SoftState.Notice Resource))
    (announced_ttl p.guid (p.onInterface spec) p.pair ttl)
  rw [List.map_map, List.map_map] at hmap
  rw [Publisher.packet, notices_response hguid hlength]
  exact hmap

/-! ## One announcement -/

/-- What has to hold of the publisher for its packets to be read. -/
structure Publisher.Ready (p : Publisher) : Prop where
  guid : GuidLabel p.guid
  endpoints : p.endpoints.length ≤ 32
  sockets : p.sockets.length = p.specs.length
  specs : p.specs.Nodup

theorem announcement_eq (h : p.Ready) (ttl : UInt32) :
    p.announcement ttl = p.specs.map fun spec => (spec, p.packet spec ttl) := by
  have hzip : (p.sockets.zip p.specs).map Prod.snd = p.specs :=
    List.map_snd_zip h.sockets.ge
  rw [Publisher.announcement, ← hzip, List.map_map, hzip]
  rfl

/-- A fold that updates each place once. -/
theorem foldl_update {α β : Type} [DecidableEq α] (f : α → β → β) (places : List α)
    (hnodup : places.Nodup) (g : α → β) (a : α) :
    places.foldl (fun g a => Function.update g a (f a (g a))) g a =
      if a ∈ places then f a (g a) else g a := by
  induction places generalizing g with
  | nil => rfl
  | cons first rest ih =>
      obtain ⟨hfirst, hrest⟩ := List.nodup_cons.mp hnodup
      rw [List.foldl_cons, ih hrest]
      by_cases ha : a = first
      · subst ha
        rw [if_neg hfirst, Function.update_self, if_pos List.mem_cons_self]
      · rw [Function.update_of_ne ha]
        by_cases hmem : a ∈ rest
        · rw [if_pos hmem, if_pos (List.mem_cons_of_mem _ hmem)]
        · have hnot : a ∉ first :: rest := fun h => (List.mem_cons.mp h).elim ha hmem
          rw [if_neg hmem, if_neg hnot]

namespace Publication

theorem announce_caches (h : n.publisher.Ready) (now : ℤ) (ttl : UInt32)
    (hspec : spec ∈ n.publisher.specs) :
    (n.announce now ttl).caches spec =
      SoftState.absorbAll now (n.caches spec)
        ((n.publisher.records spec).map (⟨·, secs ttl.toNat⟩)) := by
  change ((n.publisher.announcement ttl).foldl _ n.caches) spec = _
  rw [announcement_eq h, List.foldl_map, foldl_update
    (fun spec cache => SoftState.absorbAll now cache (notices (n.publisher.packet spec ttl)))
    n.publisher.specs h.specs, if_pos hspec, notices_packet h.guid h.endpoints]

/-- The resolvers know none but the current records. -/
def Clean (n : Publication) : Prop :=
  ∀ spec ∈ n.publisher.specs, SoftState.Within (n.publisher.records spec) (n.caches spec)

/-- The resolvers know the current records until their lifetime has passed. -/
def Fresh (n : Publication) : Prop :=
  ∀ spec ∈ n.publisher.specs, n.caches spec =
    SoftState.filled (n.publisher.records spec) (n.publisher.last + secs 120)

theorem Fresh.clean (h : n.Fresh) : n.Clean := by
  intro spec hspec
  rw [h spec hspec]
  exact SoftState.within_filled _ _

theorem announce_fresh (hready : n.publisher.Ready) (h : n.Clean) (now : ℤ) :
    (n.announce now 120).Fresh := by
  intro spec hspec
  have hspec : spec ∈ n.publisher.specs := hspec
  rw [announce_caches hready now 120 hspec,
    SoftState.absorbAll_renew (h spec hspec) now (by decide)]
  rfl

theorem announce_forgets (hready : n.publisher.Ready) (h : n.Clean) (now : ℤ)
    (hspec : spec ∈ n.publisher.specs) : (n.announce now 0).caches spec = SoftState.empty := by
  rw [announce_caches hready now 0 hspec]
  exact SoftState.absorbAll_forget (h spec hspec) now

/-! ## Runs -/

theorem ready_announce (h : n.publisher.Ready) (now : ℤ) (ttl : UInt32) :
    (n.announce now ttl).publisher.Ready := ⟨h.guid, h.endpoints, h.sockets, h.specs⟩

/-- Where the resolvers stand at some time: they know the records, or nothing yet and
the next tick announces. -/
structure Held (n : Publication) (time : ℤ) : Prop where
  ready : n.publisher.Ready
  clean : n.Clean
  known : n.Fresh ∨ n.publisher.last + secs 60 ≤ time

/-- After a call the records are known for at least a minute from its beginning. -/
structure Renewed (n : Publication) (began : ℤ) : Prop where
  ready : n.publisher.Ready
  fresh : n.Fresh
  recent : began < n.publisher.last + secs 60

theorem Renewed.held (h : n.Renewed time) (time' : ℤ) : n.Held time' :=
  ⟨h.ready, h.fresh.clean, .inl h.fresh⟩

theorem renewed_announce (hready : n.publisher.Ready) (h : n.Clean) {began now : ℤ}
    (hnow : began ≤ now) : (n.announce now 120).Renewed began := by
  refine ⟨ready_announce hready now 120, announce_fresh hready h now, ?_⟩
  change began < now + secs 60
  have hpos : (0 : ℤ) < secs 60 := by decide
  omega

theorem Held.pairing (h : n.Held time) {now now' : ℤ} (hnow : now ≤ now') (port : Option UInt16) :
    (n.pairing now now' port).Renewed now := by
  have hready : ((n.announce now 0).setPair port).publisher.Ready :=
    ⟨h.ready.guid, h.ready.endpoints, h.ready.sockets, h.ready.specs⟩
  have hclean : ((n.announce now 0).setPair port).Clean := by
    intro spec hspec
    have hempty := announce_forgets h.ready h.clean now hspec
    change SoftState.Within _ ((n.announce now 0).caches spec)
    rw [hempty]
    exact SoftState.within_empty _
  exact renewed_announce hready hclean hnow

theorem Held.refresh (h : n.Held time) {clock : Clock} (htime : time ≤ clock.began)
    (hclock : clock.began ≤ clock.refreshed) : (n.refresh clock).Renewed clock.began := by
  unfold Publication.refresh
  split
  · exact renewed_announce h.ready h.clean hclock
  · next hrecent =>
    refine ⟨h.ready, h.known.resolve_right fun hold => ?_, ?_⟩
    · omega
    · omega

theorem Renewed.answer (h : n.Renewed time) {clock : Clock} (hclock : time ≤ clock.answered) :
    (n.answer clock received).Renewed time := by
  unfold Publication.answer
  split
  · have hagain := renewed_announce h.ready h.fresh.clean hclock
    exact ⟨⟨hagain.ready.guid, hagain.ready.endpoints, hagain.ready.sockets, hagain.ready.specs⟩,
      hagain.fresh, hagain.recent⟩
  · exact h

theorem Held.tick (h : n.Held time) {clock : Clock} (htime : time ≤ clock.began)
    (hclock : (Call.tick clock received).Ordered) :
    (n.tick clock received).Renewed clock.began := by
  obtain ⟨hrefreshed, hcompared, hanswered, -⟩ := hclock
  exact (h.refresh htime hrefreshed).answer (hrefreshed.trans (hcompared.trans hanswered))

theorem Held.perform (h : n.Held time) {call : Call} (htime : time ≤ call.began)
    (hcall : call.Ordered) : (n.perform call).Renewed call.began := by
  cases call with
  | pairing now now' port => exact h.pairing hcall port
  | tick clock received => exact h.tick htime hcall

/-- What never changes in a publisher, and its port. -/
def settings (n : Publication) : List Endpoint × List Endpoint × String × Option UInt16 :=
  (n.publisher.specs, n.publisher.endpoints, n.publisher.guid, n.publisher.pair)

/-- The answers are apart from each other, and `last_reply` is behind them. -/
structure Spaced (n : Publication) : Prop where
  apart : n.replies.Pairwise fun a b => a + 250000000 ≤ b
  behind : ∀ time ∈ n.replies, time ≤ n.publisher.lastReply

theorem Spaced.refresh (h : n.Spaced) (clock : Clock) : (n.refresh clock).Spaced := by
  unfold Publication.refresh
  split
  · exact ⟨h.apart, h.behind⟩
  · exact h

theorem Spaced.answer (h : n.Spaced) {clock : Clock} (hanswered : clock.compared ≤ clock.answered)
    (hended : clock.answered ≤ clock.ended) : (n.answer clock received).Spaced := by
  unfold Publication.answer
  split
  · next hreply =>
    have hold : ∀ time ∈ n.replies, time + 250000000 ≤ clock.answered := by
      intro time htime
      have hbehind := h.behind time htime
      have hapart := hreply.2
      omega
    constructor
    · change (n.replies ++ [clock.answered]).Pairwise _
      rw [List.pairwise_append]
      refine ⟨h.apart, List.pairwise_singleton _ _, ?_⟩
      intro a ha b hb
      rw [List.mem_singleton.mp hb]
      exact hold a ha
    · intro time htime
      change time ≤ clock.ended
      rcases List.mem_append.mp htime with hbefore | hnew
      · have hle := hold time hbefore
        omega
      · rw [List.mem_singleton.mp hnew]
        exact hended
  · exact h

theorem Spaced.perform (h : n.Spaced) {call : Call} (hcall : call.Ordered) :
    (n.perform call).Spaced := by
  cases call with
  | pairing now now' port => exact ⟨h.apart, h.behind⟩
  | tick clock received =>
      obtain ⟨-, -, hanswered, hended⟩ := hcall
      exact (h.refresh clock).answer hanswered hended

end Publication

end Mdns

end Altdb
