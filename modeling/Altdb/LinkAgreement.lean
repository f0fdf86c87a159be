import Altdb.LinkSteps

/-!
# No half-open streams

When nothing is in flight the parties hold the same streams, as long as no late
`OKAY` reaches the device.  A run with one such `OKAY` leaves a stream open on
the host alone.
-/

namespace Altdb

open Fallible Relation

/-! ## Settled sessions -/

variable {late strict : Prop} {peer : Peer} {d : UInt32} {v : StreamView}

/-- Without packets in flight an id is open on both sides or on none. -/
theorem Session.settled (hsession : Session False strict peer d v [] [])
    (hoffer : peer.offer d ≠ .pending)
    (hopening : ∀ s, v.stream = some s → s.opening = none) :
    v.stream = none ∧ peer.Free d ∨
      ∃ k s, v.stream = some s ∧ Bound strict peer k d s [] [] := by
  cases hsession with
  | unused _ hstream _ _ _ hfree =>
      left
      exact ⟨hstream, hfree⟩
  | answered _ _ _ _ hout | answeredGone _ _ _ _ hout => cases hout
  | offered _ _ _ _ hout => cases hout
  | pending _ _ hpending => exact absurd hpending hoffer
  | refused s hstream _ hsome =>
      rw [hopening s hstream] at hsome
      cases hsome
  | accepted _ _ _ hin => cases hin
  | bound k s hstream hbound =>
      right
      exact ⟨k, s, hstream, hbound⟩
  | ending k _ _ _ _ _ hclose =>
      obtain ⟨p, hp, -⟩ := hclose
      cases hp
  | leaked _ hlate => exact hlate.elim
  | ended _ hstream hfree =>
      left
      exact ⟨hstream, hfree⟩

namespace Link

open Connection

variable {l l' : Link}

/-- While no late `OKAY` reaches the device, both parties hold the same streams
whenever nothing is in flight. -/
theorem settled_agreement (h : Link.Reachable False strict l) (hsettled : l.Settled)
    (k d : UInt32) : l.OpenOnHost k d ↔ l.OpenOnDevice k d := by
  obtain ⟨hreach, hagreed⟩ := h.agreed
  by_cases hd : d = 0
  · subst hd
    constructor
    · rintro ⟨unacked, owed, hpeer⟩
      have hnone := hagreed.tokens.device k
      rw [hpeer] at hnone
      exact absurd rfl hnone
    · rintro ⟨s, hs, -⟩
      rw [(ReachableWithin.wellFormed hreach).zero] at hs
      cases hs
  · have hsession := hagreed.session d hd
    rw [hsettled.toDevice, hsettled.toPeer] at hsession
    rcases hsession.settled (hsettled.offers d) (fun s hs => (hsettled.device d s hs).1)
      with ⟨hnone, hfree⟩ | ⟨k', s, hstream, hbound⟩
    · constructor
      · rintro ⟨unacked, owed, hpeer⟩
        have hdevice := hfree k
        rw [hpeer] at hdevice
        exact absurd rfl hdevice
      · rintro ⟨s, hs, -⟩
        rw [view_stream, hs] at hnone
        cases hnone
    · constructor
      · rintro ⟨unacked, owed, hpeer⟩
        have hk : k = k' := hbound.inbound.only k (by rw [hpeer]; rfl)
        subst hk
        exact ⟨s, hstream, hbound.remote⟩
      · rintro ⟨s', hs', hk⟩
        obtain rfl := Option.some.inj (hstream.symm.trans hs')
        rw [hbound.remote] at hk
        subst hk
        rcases PeerStream.eq_of_device hbound.inbound.device with hopened | hclosing
        · exact hopened
        · exact absurd hclosing ((hsettled.peer k').2 d)

/-! ## Scripted runs -/

/-- What one party does next. -/
inductive Move where
  | device (turn : Turn)
  | deliver (now : Instant)
  | act (action : PeerAction)
  | receive

instance (c : Connection) (p : Packet) : Decidable (c.Late p) :=
  inferInstanceAs (Decidable (_ ∧ _ ∧ (∃ q ∈ packets _, _) ∧ _ ∉ _))

/-- A turn of the device and the packets that it sends. -/
def turned (l : Link) (turn : Turn) : Option (Connection × List Packet) :=
  if l.device.clock ≤ turn.now then
    match perform turn.answers turn.event l.device with
    | .ok _ c =>
        if l.device.sent <+: c.sent then
          some ({ c with clock := turn.now }, c.sent.drop l.device.sent.length)
        else none
    | .error _ _ => none
  else none

def move (late strict : Prop) [Decidable late] [Decidable strict] (l : Link) :
    Move → Option Link
  | .device turn =>
      match turn.event with
      | .packet _ => none
      | .services | .reverseAccept | .flush =>
          (l.turned turn).map fun (c, ps) =>
            { l with device := c, toPeer := l.toPeer ++ ps }
  | .deliver now =>
      match l.toDevice with
      | [] => none
      | p :: rest =>
          if l.device.Late p → late then
            (l.turned ⟨now, .packet p, [], .wouldBlock, none⟩).map fun (c, ps) =>
              { l with device := c, toDevice := rest, toPeer := l.toPeer ++ ps }
          else none
  | .act action =>
      if strict → l.peer.Respects l.device.max action then
        (l.peer.act action).map fun (peer, p) =>
          { l with peer := peer, toDevice := l.toDevice ++ [p] }
      else none
  | .receive =>
      match l.toPeer with
      | [] => none
      | p :: rest =>
          some
            { l with
              peer := (l.peer.receive p).1
              toPeer := rest
              toDevice := l.toDevice ++ (l.peer.receive p).2 }

def play (late strict : Prop) [Decidable late] [Decidable strict] (l : Link)
    (moves : List Move) : Option Link :=
  moves.foldlM (move late strict) l

/-- A fresh connection and its host. -/
def start : Link := ⟨fresh, ⟨∅, ∅⟩, [], []⟩

theorem turned_step {turn : Turn} {c : Connection} {ps : List Packet}
    (h : l.turned turn = some (c, ps)) :
    StepOf turn.answers turn.event l.device c ∧ c.sent = l.device.sent ++ ps := by
  unfold turned at h
  split at h
  · next htime =>
    split at h
    · next c₁ hperform =>
      split at h
      · next hprefix =>
        obtain ⟨rfl, rfl⟩ := Prod.mk.inj (Option.some.inj h)
        refine ⟨⟨⟨fun _ => ⟨htime, le_rfl⟩, htime⟩, c₁, hperform, rfl⟩, ?_⟩
        exact (List.prefix_iff_eq_append.mp hprefix).symm
      · cases h
    · cases h
  · cases h

theorem move_step [Decidable late] [Decidable strict] {m : Move}
    (h : l.move late strict m = some l') : Step late strict l l' := by
  cases m with
  | device turn =>
      simp only [move] at h
      split at h
      · cases h
      all_goals
        obtain ⟨⟨c, ps⟩, hturned, rfl⟩ := Option.map_eq_some_iff.mp h
        obtain ⟨hstep, hsent⟩ := turned_step hturned
        refine .device l turn.answers turn.event c ps ?_ hstep hsent
        intro p hp
        simp_all
  | deliver now =>
      simp only [move] at h
      split at h
      · cases h
      · next p rest hhead =>
        split at h
        · next hlate =>
          obtain ⟨⟨c, ps⟩, hturned, rfl⟩ := Option.map_eq_some_iff.mp h
          obtain ⟨hstep, hsent⟩ := turned_step hturned
          exact .deliver l _ p rest c ps hhead hlate hstep hsent
        · cases h
  | act action =>
      simp only [move] at h
      split at h
      · next hrespects =>
        obtain ⟨⟨peer, p⟩, hact, rfl⟩ := Option.map_eq_some_iff.mp h
        exact .act l action peer p hact hrespects
      · cases h
  | receive =>
      simp only [move] at h
      split at h
      · cases h
      · next p rest hhead =>
        obtain rfl := Option.some.inj h
        exact .receive l p rest hhead

theorem play_reachable [Decidable late] [Decidable strict] {moves : List Move}
    (h : start.play late strict moves = some l) : Link.Reachable late strict l := by
  have hstart : Initial start :=
    ⟨⟨_, _, _, _, by decide, by decide, rfl⟩, rfl, rfl, rfl⟩
  refine ⟨start, hstart, ?_⟩
  clear hstart
  generalize start = l₀ at h ⊢
  induction moves generalizing l₀ with
  | nil =>
      obtain rfl := Option.some.inj h
      exact .refl
  | cons m rest ih =>
      rw [play, List.foldlM_cons] at h
      obtain ⟨l₁, hmove, hrest⟩ := Option.bind_eq_some_iff.mp h
      exact .head (move_step hmove) (ih l₁ hrest)

theorem settled_of_lists (hin : l.toDevice = []) (hout : l.toPeer = [])
    (hdevice : ∀ e ∈ l.device.streams.toList,
      e.2.opening = none ∧ e.2.closing = none)
    (hpeer : ∀ e ∈ l.peer.streams.toList, e.2 ≠ .opening ∧
      e.2.device.all fun d => e.2 ≠ .closing d)
    (hoffers : ∀ e ∈ l.peer.offers.toList, e.2 ≠ .pending) : l.Settled := by
  refine ⟨hin, hout, ?_, ?_, ?_⟩
  · intro d s hs
    exact hdevice (d, s) (Std.TreeMap.mem_toList_iff_getElem?_eq_some.mpr hs)
  · intro k
    unfold Peer.stream
    cases hs : l.peer.streams[k]? with
    | none => simp
    | some s =>
        obtain ⟨hopening, hclosing⟩ :=
          hpeer (k, s) (Std.TreeMap.mem_toList_iff_getElem?_eq_some.mpr hs)
        refine ⟨hopening, ?_⟩
        rintro d rfl
        rw [Option.all_eq_true] at hclosing
        exact of_decide_eq_true (hclosing d rfl) rfl
  · intro d
    unfold Peer.offer
    cases ho : l.peer.offers[d]? with
    | none => simp
    | some o => exact hoffers (d, o) (Std.TreeMap.mem_toList_iff_getElem?_eq_some.mpr ho)

/-- The host forwards a port, and the device offers a connection to it. -/
def offeredMoves : List Move :=
  [.act (.openStream 7 (utf8 "reverse:forward:tcp:0;tcp:80\x00")), .deliver 1,
    .receive, .device ⟨2, .reverseAccept, [], .wouldBlock, some 9⟩]

theorem settled_agreement_offered :
    ∃ l : Link, Link.Reachable False False l ∧ l.Settled ∧ l.OpenOnHost 9 2 ∧
      l.OpenOnDevice 9 2 := by
  have hplay : ∃ l ∈ start.play False False
      (offeredMoves ++ [.receive, .act (.accept 2 9), .deliver 3]),
      (l.toDevice = [] ∧ l.toPeer = [] ∧
        (∀ e ∈ l.device.streams.toList, e.2.opening = none ∧ e.2.closing = none) ∧
        (∀ e ∈ l.peer.streams.toList, e.2 ≠ .opening ∧
          e.2.device.all fun d => e.2 ≠ .closing d) ∧
        ∀ e ∈ l.peer.offers.toList, e.2 ≠ .pending) ∧
      l.peer.stream 9 = .opened 2 false 0 := by
    decide +kernel
  obtain ⟨l, hplay, ⟨hin, hout, hdevice, hpeer, hoffers⟩, hopen⟩ := hplay
  have hreach := play_reachable hplay
  have hsettled := settled_of_lists hin hout hdevice hpeer hoffers
  have hhost : l.OpenOnHost 9 2 := ⟨false, 0, hopen⟩
  exact ⟨l, hreach, hsettled, hhost, (settled_agreement hreach hsettled 9 2).mp hhost⟩

/-- The offer times out while the host accepts it: the `OKAY` is dropped and
the host keeps a stream that the device does not have. -/
theorem late_acceptance_leaks :
    ¬∀ l : Link, Link.Reachable True False l → l.Settled →
      ∀ k d, l.OpenOnHost k d ↔ l.OpenOnDevice k d := by
  have hplay : ∃ l ∈ start.play True False
      (offeredMoves ++ [.device (.services (3 + secs 10) [] .wouldBlock), .receive,
        .act (.accept 2 9), .receive, .receive, .deliver (3 + secs 10),
        .act (.acknowledge 7), .deliver (3 + secs 10)]),
      (l.toDevice = [] ∧ l.toPeer = [] ∧
        (∀ e ∈ l.device.streams.toList, e.2.opening = none ∧ e.2.closing = none) ∧
        (∀ e ∈ l.peer.streams.toList, e.2 ≠ .opening ∧
          e.2.device.all fun d => e.2 ≠ .closing d) ∧
        ∀ e ∈ l.peer.offers.toList, e.2 ≠ .pending) ∧
      l.peer.stream 9 = .opened 2 false 0 ∧
      l.device.streams[(2 : UInt32)]? = none := by
    decide +kernel
  obtain ⟨l, hplay, ⟨hin, hout, hdevice, hpeer, hoffers⟩, hopen, hnone⟩ := hplay
  intro hall
  have hsettled := settled_of_lists hin hout hdevice hpeer hoffers
  obtain ⟨s, hs, -⟩ := (hall l (play_reachable hplay) hsettled 9 2).mp ⟨false, 0, hopen⟩
  rw [hnone] at hs
  cases hs

end Link

end Altdb
