import Altdb.StreamSteps

/-!
# The remote ids of the streams

A stream gets the id that the host knows it by from the `OPEN` of the host or
from the first `OKAY` to a reverse connection.  Only an `OPEN` is checked
against the other streams.  The ids differ as long as every such `OKAY` names
an id that no other stream has.
-/

namespace Altdb.Connection

open Fallible Relation

variable {io : Io} {c c' : Connection}

/-- No two streams have the same remote id, apart from those that have none. -/
def DistinctRemotes (c : Connection) : Prop :=
  ∀ (id id' : UInt32) (s s' : Stream), c.streams[id]? = some s →
    c.streams[id']? = some s' → s.remote ≠ 0 → s.remote = s'.remote → id = id'

/-- An `OKAY` that answers the offer of a reverse connection names an id that
no other stream has. -/
def Event.Fresh (c : Connection) : Event → Prop
  | .packet p => p.command = OKAY → ∀ s ∈ c.streams[p.arg1]?, s.opening.isSome →
      ∀ entry ∈ c.streams.toList, entry.1 ≠ p.arg1 → entry.2.remote ≠ p.arg0
  | .services | .reverseAccept | .flush => True

/-! ## Changes of the streams -/

/-- Every stream was there before and had the same remote id. -/
theorem DistinctRemotes.inherit (h : c.DistinctRemotes)
    (hold : ∀ (id : UInt32) (s' : Stream), c'.streams[id]? = some s' →
      ∃ s, c.streams[id]? = some s ∧ s.remote = s'.remote) :
    c'.DistinctRemotes := by
  intro id id' s s' hs hs' hremote hsame
  obtain ⟨t, ht, hts⟩ := hold id s hs
  obtain ⟨t', ht', hts'⟩ := hold id' s' hs'
  exact h id id' t t' ht ht' (hts ▸ hremote) (hts.trans (hsame.trans hts'.symm))

/-- A stream whose remote id no other one has. -/
theorem DistinctRemotes.insert (h : c.DistinctRemotes) {id : UInt32} {s : Stream}
    (hstreams : c'.streams = c.streams.insert id s)
    (hnew : s.remote ≠ 0 → ∀ (other : UInt32) (t : Stream), other ≠ id →
      c.streams[other]? = some t → t.remote ≠ s.remote) : c'.DistinctRemotes := by
  intro a b x y hx hy hremote hsame
  rw [hstreams, streams_insert] at hx hy
  split at hx
  · next ha =>
    obtain rfl := Option.some_inj.mp hx
    split at hy
    · next hb => exact ha.symm.trans hb
    · next hb => exact (hnew hremote b y (Ne.symm hb) hy hsame.symm).elim
  · next ha =>
    split at hy
    · next hb =>
      obtain rfl := Option.some_inj.mp hy
      exact (hnew (hsame ▸ hremote) a x (Ne.symm ha) hx hsame).elim
    · exact h a b x y hx hy hremote hsame

/-- A change of a stream that keeps its remote id. -/
theorem DistinctRemotes.updated {id : UInt32} {s s' : Stream} {what : Acceptance}
    (h : c.DistinctRemotes) (hstream : c.streams[id]? = some s)
    (hremote : s'.remote = s.remote) : (c.updated id s' what).DistinctRemotes := by
  refine h.insert rfl fun hnonzero other t hother ht hsame => ?_
  rw [hremote] at hnonzero hsame
  exact hother (h id other s t hstream ht hnonzero hsame.symm).symm

theorem DistinctRemotes.congr (h : c.DistinctRemotes)
    (hstreams : c'.streams = c.streams) : c'.DistinctRemotes :=
  h.inherit fun _ s' hs' => ⟨s', hstreams ▸ hs', rfl⟩

/-! ## Steps -/

theorem Handled.distinct {p : Packet} (h : c.DistinctRemotes)
    (hfresh : (Event.packet p).Fresh c) (hhandled : Handled io p c c') :
    c'.DistinctRemotes := by
  cases hhandled with
  | openHost source c₁ tls hcommand hremote hunused htalks hallocate =>
      obtain ⟨reverse, calls, rfl⟩ := htalks
      exact h.insert rfl fun _ other t _ ht => hunused other t ht
  | refuseOpen c₁ tls hcommand hremote htalks => exact h.congr htalks.streams_eq
  | ackOpen s hcommand hstream hremote hopening hunbound =>
      refine h.insert rfl fun _ other t hother ht => ?_
      exact hfresh hcommand s hstream hopening (other, t)
        (Std.TreeMap.mem_toList_iff_getElem?_eq_some.mpr ht) hother
  | ackData s hcommand hstream hopening hremote hwaiting =>
      exact h.updated hstream rfl
  | write s hcommand hstream => exact h.updated hstream rfl
  | writeEmpty | writeStray => exact h.congr rfl
  | close s hcommand hstream hid => exact h.updated hstream rfl
  | stray => exact h

theorem DistinctRemotes.passed (h : c.DistinctRemotes)
    (hpassed : ∀ id, PassedView io c c' id) : c'.DistinctRemotes := by
  refine h.inherit fun id s' hs' => ?_
  obtain ⟨s, hs, rfl⟩ := (hpassed id).kept hs'
  exact ⟨s, hs, (s.service_frame io _ _ id).1.symm⟩

/-- A stream that is offered has no remote id. -/
theorem DistinctRemotes.offers (h : c.DistinctRemotes)
    (hoffers : ReflTransGen (Offers io) c c') : c'.DistinctRemotes := by
  refine Transition.stable ?_ h hoffers
  rintro c₁ c₂ h₁ ⟨fd, target, tls, -, rfl⟩
  exact h₁.insert rfl fun hnonzero => absurd rfl hnonzero

theorem Performed.distinct {event : Event} (h : c.DistinctRemotes)
    (hfresh : event.Fresh c) (hperformed : Performed io c event c') :
    c'.DistinctRemotes := by
  cases hperformed with
  | packet p _ hhandled => exact hhandled.distinct h hfresh
  | services _ _ _ hpassed => exact h.passed hpassed
  | reverseAccept _ hoffers => exact h.offers hoffers
  | flush tls => exact h.congr rfl

/-- An accepted `OKAY` that takes the id of another stream. -/
theorem not_distinct_of_stale {event : Event} (h : StepOf io event c c')
    (hstale : ¬event.Fresh c) : ¬c'.DistinctRemotes := by
  obtain ⟨c₁, hperformed, rfl⟩ := h.performed
  cases hperformed with
  | services | reverseAccept | flush => exact absurd trivial hstale
  | packet p _ hhandled =>
      simp only [Event.Fresh, not_forall, ne_eq, not_not] at hstale
      obtain ⟨hcommand, s, hstream, hopening, ⟨other, t⟩, ht, hother, hremote⟩ := hstale
      have hstream : c.streams[p.arg1]? = some s := hstream
      have ht := Std.TreeMap.mem_toList_iff_getElem?_eq_some.mp ht
      intro hdistinct
      cases hhandled with
      | openHost source c₂ tls hopen => exact absurd (hopen.symm.trans hcommand) (by decide)
      | refuseOpen c₂ tls hopen => exact absurd (hopen.symm.trans hcommand) (by decide)
      | ackData s' hokay hstream' hopening' =>
          obtain rfl := Option.some_inj.mp (hstream.symm.trans hstream')
          simp [hopening'] at hopening
      | write s' hwrite => exact absurd (hwrite.symm.trans hcommand) (by decide)
      | writeEmpty s' tls hwrite => exact absurd (hwrite.symm.trans hcommand) (by decide)
      | writeStray tls hwrite => exact absurd (hwrite.symm.trans hcommand) (by decide)
      | close s' hclose => exact absurd (hclose.symm.trans hcommand) (by decide)
      | stray hokay hnone => cases hstream.symm.trans hnone
      | ackOpen s' hokay hstream' hnonzero =>
          have hself : (c.streams.insert p.arg1
              { s' with opening := none, remote := p.arg0 })[p.arg1]? =
              some { s' with opening := none, remote := p.arg0 } := by
            rw [streams_insert, if_pos rfl]
          have hkept : (c.streams.insert p.arg1
              { s' with opening := none, remote := p.arg0 })[other]? = some t := by
            rw [streams_insert, if_neg (Ne.symm hother), ht]
          exact hother (hdistinct p.arg1 other _ t hself hkept hnonzero
            hremote.symm).symm

/-! ## Runs -/

/-- A step whose event is fresh. -/
def FreshStep (c c' : Connection) : Prop :=
  ∃ io event, event.Fresh c ∧ StepOf io event c c'

/-- In the runs of fresh events the remote ids differ, and any other event that
the connection accepts gives two streams the same one. -/
theorem remotes_distinct (c : Connection) :
    (Transition.Reachable Initial FreshStep c → c.DistinctRemotes) ∧
    ∀ io event c', StepOf io event c c' → ¬event.Fresh c → ¬c'.DistinctRemotes := by
  refine ⟨fun h => h.invariant ?_ ?_, fun io event c' => not_distinct_of_stale⟩
  · rintro c ⟨tls, transport, max, now, -, -, rfl⟩ id id' s s' hs
    simp [initial] at hs
  · rintro c c' - hc ⟨io, event, hfresh, hstep⟩
    obtain ⟨c₁, hperformed, rfl⟩ := hstep.performed
    exact (hperformed.distinct hc hfresh).congr rfl

/-- The host opens a stream and forwards a port, and one connection to the port
is offered to it. -/
def forwardTurns : List Turn :=
  [.packet 1 OPEN 7 0 (utf8 "shell:\x00"),
    .packet 2 OPEN 8 0 (utf8 "reverse:forward:tcp:0;tcp:80\x00"),
    ⟨3, .reverseAccept, [], .wouldBlock, some 9⟩]

/-- Any events but an `OKAY` are fresh. -/
theorem run_fresh {turns : List Turn} (h : run (fun _ => True) c turns = some c')
    (hother : ∀ turn ∈ turns, ∀ p, turn.event = .packet p → p.command ≠ OKAY) :
    ReflTransGen FreshStep c c' := by
  induction turns generalizing c with
  | nil =>
      obtain rfl := Option.some.inj h
      exact .refl
  | cons turn rest ih =>
      obtain ⟨c₁, -, hstep, hrest⟩ := run_cons h
      obtain ⟨hturn, hother⟩ := List.forall_mem_cons.mp hother
      refine .head ⟨turn.answers, turn.event, ?_, hstep⟩ (ih hrest hother)
      cases hevent : turn.event with
      | packet p => exact fun hokay => absurd hokay (hturn p hevent)
      | services | reverseAccept | flush => trivial

/-- The host takes the connection under the id of the stream that it opened. -/
theorem remotes_distinct_fails :
    ∃ c, run (fun _ => True) fresh (forwardTurns ++ [.packet 4 OKAY 7 3 []]) = some c ∧
      Reachable c ∧ ¬c.DistinctRemotes := by
  have hruns : ∃ c ∈ run (fun _ => True) fresh (forwardTurns ++ [.packet 4 OKAY 7 3 []]),
      (c.streams[(1 : UInt32)]?.map fun s => s.remote) = some 7 ∧
      (c.streams[(3 : UInt32)]?.map fun s => s.remote) = some 7 := by
    decide +kernel
  obtain ⟨c, hrun, hfirst, hsecond⟩ := hruns
  obtain ⟨s, hs, hremote⟩ := Option.map_eq_some_iff.mp hfirst
  obtain ⟨s', hs', hremote'⟩ := Option.map_eq_some_iff.mp hsecond
  refine ⟨c, hrun, run_reachable hrun, fun hdistinct => ?_⟩
  have hnonzero : s.remote ≠ 0 := by rw [hremote]; decide
  exact absurd (hdistinct 1 3 s s' hs hs' hnonzero (hremote.trans hremote'.symm))
    (by decide)

theorem remotes_distinct_forward :
    ∃ c : Connection, c.DistinctRemotes ∧
      (c.streams[(1 : UInt32)]?.map fun s => s.remote) = some 7 ∧
      (c.streams[(3 : UInt32)]?.map fun s => s.remote) = some 9 := by
  have hruns : ∃ c ∈ run (fun _ => True) fresh forwardTurns,
      (c.streams.toList.all fun entry => entry.2.remote ≠ 9) ∧
      ∃ c' ∈ run (fun _ => True) c [.packet 4 OKAY 9 3 []],
        (c'.streams[(1 : UInt32)]?.map fun s => s.remote) = some 7 ∧
        (c'.streams[(3 : UInt32)]?.map fun s => s.remote) = some 9 := by
    decide +kernel
  obtain ⟨c, hrun, hunused, c', hlast, hremotes⟩ := hruns
  have hfresh : (Turn.packet 4 OKAY 9 3 []).event.Fresh c := by
    intro _ s _ _ entry hentry _
    simpa using List.all_eq_true.mp hunused entry hentry
  have hbefore : ReflTransGen FreshStep fresh c := by
    refine run_fresh hrun ?_
    rintro turn hturn p hp
    simp only [forwardTurns, Turn.packet, List.mem_cons, List.not_mem_nil, or_false] at hturn
    rcases hturn with rfl | rfl | rfl
    · obtain rfl := Event.packet.inj hp
      decide
    · obtain rfl := Event.packet.inj hp
      decide
    · cases hp
  have hreach : Transition.Reachable Initial FreshStep c' :=
    ⟨fresh, ⟨_, _, _, _, by decide, by decide, rfl⟩,
      hbefore.tail ⟨_, _, hfresh, stepOf_of_run hlast⟩⟩
  exact ⟨c', (remotes_distinct c').1 hreach, hremotes⟩

end Altdb.Connection
