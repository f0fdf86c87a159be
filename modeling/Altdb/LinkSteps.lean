import Altdb.LinkInvariant

/-!
# Every step keeps the agreement

A packet changes the session of the id that it names, and an action of the host
the session of the stream that it is about.  The other sessions are framed.
-/

namespace Altdb

open Fallible Relation

namespace Connection

variable {c c' : Connection}

theorem Talks.sent_eq (h : Talks c c') : c'.sent = c.sent := by
  obtain ⟨reverse, calls, rfl⟩ := h
  simp [sent]

theorem sent_updated (c : Connection) (id : UInt32) (s : Stream)
    (what : Acceptance) : (c.updated id s what).sent = c.sent := by
  simp [sent, updated]

theorem sent_withSent (c : Connection) (tls : Tls) (p : Packet) :
    (c.withSent tls [p]).sent = c.sent ++ [p] := by
  simp [sent, withSent]

theorem sent_opened (c : Connection) (id : UInt32) (s : Stream) (tls : Tls)
    (p : Packet) : (c.opened id s tls p).sent = c.sent ++ [p] := by
  simp [sent, opened]

theorem sent_acknowledged (c : Connection) (tls : Tls) (id remote : UInt32) :
    (c.acknowledged tls id remote).sent =
      c.sent ++ [⟨OKAY, id, remote, []⟩] := by
  simp [sent, acknowledged]

end Connection

variable {late strict : Prop} {peer peer' : Peer} {d h : UInt32}
  {v : StreamView} {outbox inbox toDevice toPeer rest ps : List Packet}
  {p q : Packet}

/-- A stream that the host holds is neither new nor being opened. -/
theorem PeerStream.held {s : PeerStream} (hdevice : s.device = some d) :
    s ≠ .idle ∧ s ≠ .opening ∧ s ≠ .done := by
  rcases PeerStream.eq_of_device hdevice with ⟨unacked, owed, rfl⟩ | rfl <;> simp

/-- The id of a write for a missing stream was used by the host. -/
theorem Session.stray_known {history : List StreamEvent} {a : Bool}
    (hsession : Session late strict peer d ⟨none, history, a⟩ outbox (p :: inbox))
    (hcommand : p.command = WRTE) :
    p.arg0 = 0 ∨ peer.stream p.arg0 ≠ .idle ∧ peer.stream p.arg0 ≠ .opening := by
  have hheld : ∀ {h : UInt32}, Inbound peer h d (p :: inbox) →
      peer.stream p.arg0 ≠ .idle ∧ peer.stream p.arg0 ≠ .opening := by
    intro h hinbound
    have hp := (hinbound.packets p List.mem_cons_self).1
    have hheld := PeerStream.held hinbound.device
    rw [hp]
    exact ⟨hheld.1, hheld.2.1⟩
  cases hsession with
  | unused _ _ _ hin | answeredGone _ _ _ _ _ hin | offered _ _ _ _ _ hin
  | pending _ hin => cases hin
  | answered _ _ _ hstream | refused _ hstream | bound _ _ hstream => cases hstream
  | accepted h rest hoffering hin =>
      obtain ⟨rfl, -⟩ := List.cons.inj hin
      exact absurd hcommand wrte_ne_okay.symm
  | ending h _ _ hinbound | leaked h _ _ _ hinbound =>
      right
      exact hheld hinbound
  | ended _ _ _ _ _ hin =>
      rcases hin p List.mem_cons_self with hzero | hdone
      · left
        exact hzero
      · right
        simp [hdone]

namespace Agreed

open Connection

variable {io : Io} {c c' : Connection}

/-- The session of a packet that opens nothing starts its inbox with it. -/
theorem head (h : Agreed late strict c peer (p :: rest) toPeer)
    (hopen : p.command ≠ OPEN) :
    p.arg1 ≠ 0 ∧ Session late strict peer p.arg1 (c.view p.arg1)
      (outboxOf p.arg1 toPeer) (p :: inboxOf p.arg1 rest) := by
  have hnonzero := h.tokens.others p List.mem_cons_self hopen
  have hsession := h.session p.arg1 hnonzero
  rw [inboxOf_cons, if_pos ⟨rfl, hopen⟩] at hsession
  exact ⟨hnonzero, hsession⟩

/-- A packet that changes one session and is answered under its id. -/
theorem of_head (h : Agreed late strict c peer (p :: rest) toPeer)
    (hviews : ∀ d, p.arg1 ≠ d → c'.view d = c.view d)
    (hps : ∀ q ∈ ps, q.arg0 = p.arg1)
    (htokens : Tokens peer rest (toPeer ++ ps))
    (hself : Session late strict peer p.arg1 (c'.view p.arg1)
      (outboxOf p.arg1 toPeer ++ ps) (inboxOf p.arg1 rest)) :
    Agreed late strict c' peer rest (toPeer ++ ps) := by
  constructor
  · exact htokens
  · intro d hd
    rw [outboxOf_append]
    by_cases hid : p.arg1 = d
    · subst hid
      have hall : outboxOf p.arg1 ps = ps :=
        List.filter_eq_self.mpr fun q hq => by simpa using hps q hq
      rw [hall]
      exact hself
    · have hnone : outboxOf d ps = [] := by
        apply List.filter_eq_nil_iff.mpr
        intro q hq
        simpa [hps q hq] using hid
      have hsession := h.session d hd
      rw [inboxOf_cons, if_neg fun hp => hid hp.1] at hsession
      rw [hviews d hid, hnone, List.append_nil]
      exact hsession

/-- A packet that changes one stream and is not answered. -/
theorem of_updated (h : Agreed late strict c peer (p :: rest) toPeer) {s : Stream}
    {what : Acceptance}
    (hself : Session late strict peer p.arg1
      ⟨some s, c.history p.arg1 ++ [.accepted what], c.allocated p.arg1⟩
      (outboxOf p.arg1 toPeer) (inboxOf p.arg1 rest)) :
    ∃ ps, (c.updated p.arg1 s what).sent = c.sent ++ ps ∧
      Agreed late strict (c.updated p.arg1 s what) peer rest (toPeer ++ ps) := by
  refine ⟨[], by rw [sent_updated, List.append_nil], ?_⟩
  apply h.of_head
  · intro d hid
    exact view_updated_ne c _ _ hid
  · simp
  · rw [List.append_nil]
    exact h.tokens.pop
  · rw [view_updated_self, List.append_nil]
    exact hself

/-- An `OPEN` of the host is answered. -/
theorem of_open (h : Agreed late strict c peer (p :: rest) toPeer)
    (hopen : p.command = OPEN) (hq : q.arg1 = p.arg0)
    (hrefused : q.arg0 = 0 → q.command = CLSE)
    (hviews : ∀ d, d ≠ 0 → q.arg0 ≠ d → c'.view d = c.view d)
    (hself : q.arg0 ≠ 0 → Session late strict peer q.arg0 (c'.view q.arg0)
      (outboxOf q.arg0 toPeer ++ [q]) (inboxOf q.arg0 rest)) :
    Agreed late strict c' peer rest (toPeer ++ [q]) := by
  constructor
  · exact h.tokens.answer hopen hq hrefused
  · intro d hd
    rw [outboxOf_append, outboxOf_cons, outboxOf_nil]
    by_cases hid : q.arg0 = d
    · subst hid
      rw [if_pos rfl]
      exact hself hd
    · have hsession := h.session d hd
      rw [inboxOf_cons, if_neg fun hp => hp.2 hopen] at hsession
      rw [hviews d hd hid, if_neg hid, List.append_nil]
      exact hsession

/-- The device handles the next packet of the host. -/
theorem handled (h : Agreed late strict c peer (p :: rest) toPeer)
    (hwf : c.WellFormed)
    (hdelivery : ∀ d, DeliveryInvariant c.clock (c.view d))
    (hlate : c.Late p → late) (hhandled : Handled io p c c') :
    ∃ ps, c'.sent = c.sent ++ ps ∧
      Agreed late strict c' peer rest (toPeer ++ ps) := by
  cases hhandled with
  | openHost source c₁ tls hcommand hremote hfresh htalks hallocate =>
      obtain ⟨hnonzero, -, hpeer, -⟩ := h.tokens.opens p List.mem_cons_self hcommand
      have hviews := htalks.view
      have hwf₁ : c₁.WellFormed := hwf.moves (@Talks.moves (fun _ => True) io _ _ htalks)
      have hid : c₁.next.toNat + 1 < UInt32.size := htalks.next_eq ▸ hallocate.id
      rw [← htalks.next_eq]
      refine ⟨[⟨OKAY, c₁.next, p.arg0, []⟩], ?_, ?_⟩
      · rw [sent_opened, htalks.sent_eq]
      · apply h.of_open hcommand rfl
        · intro hzero
          exact absurd hzero hwf₁.next_ne_zero
        · intro d _ hne
          rw [view_opened_ne c₁ _ tls _ rfl hne hid, hviews]
        · intro hnonzero'
          have hsession := h.session c₁.next hnonzero'
          rw [← hviews, hwf₁.view_next, inboxOf_cons, if_neg fun hp => hp.2 hcommand]
            at hsession
          rw [view_opened_self c₁ _ tls _ rfl hwf₁.next_pos hid]
          exact hsession.openHost source hpeer hnonzero rfl
  | refuseOpen c₁ tls hcommand hremote htalks =>
      refine ⟨[⟨CLSE, 0, p.arg0, []⟩], ?_, ?_⟩
      · rw [sent_withSent, htalks.sent_eq]
      · apply h.of_open hcommand rfl
        · intro _
          rfl
        · intro d _ hid
          rw [view_sent_ne c₁ tls _ hid, htalks.view]
        · intro hzero
          exact absurd rfl hzero
  | ackOpen s hcommand hstream hremote hopening hunbound =>
      obtain ⟨-, hsession⟩ := h.head (hcommand ▸ okay_ne_open)
      rw [view_of_stream hstream] at hsession
      have hunopened := (hdelivery p.arg1).unopened s hstream
      exact h.of_updated (hsession.ackOpen hunopened hcommand hopening)
  | ackData s hcommand hstream hopening hremote hwaiting =>
      obtain ⟨-, hsession⟩ := h.head (hcommand ▸ okay_ne_open)
      rw [view_of_stream hstream] at hsession
      exact h.of_updated (hsession.ackData hcommand hopening hwaiting)
  | write s hcommand hstream hremote hopening hclosing hdata hlimit hqueue =>
      obtain ⟨-, hsession⟩ := h.head (hcommand ▸ wrte_ne_open)
      rw [view_of_stream hstream] at hsession
      exact h.of_updated (hsession.write hcommand hopening hclosing)
  | writeEmpty s tls hcommand hstream hremote hopening hclosing hdata =>
      obtain ⟨hd, hsession⟩ := h.head (hcommand ▸ wrte_ne_open)
      rw [view_of_stream hstream] at hsession
      refine ⟨_, sent_acknowledged c tls p.arg1 p.arg0, ?_⟩
      apply h.of_head
      · intro d hid
        exact view_acknowledged_ne c tls _ hid
      · simp
      · apply h.tokens.pop.send
        intro q hq
        rw [List.mem_singleton.mp hq, ← hremote]
        exact ⟨hd, h.known hd hstream⟩
      · rw [view_acknowledged_self, hstream, ← hremote]
        exact hsession.writeEmpty hcommand hopening hclosing
  | writeStray tls hcommand hstream =>
      obtain ⟨hd, hsession⟩ := h.head (hcommand ▸ wrte_ne_open)
      rw [view_of_none hstream] at hsession
      refine ⟨_, sent_withSent c tls _, ?_⟩
      apply h.of_head
      · intro d hid
        exact view_sent_ne c tls _ hid
      · simp
      · apply h.tokens.pop.send
        intro q hq
        rw [List.mem_singleton.mp hq]
        refine ⟨hd, (hsession.stray_known hcommand).imp_right ?_⟩
        rintro ⟨hidle, hopening⟩
        exact ⟨hidle, fun heq => absurd heq hopening⟩
      · have hview := view_sent_self c tls ⟨CLSE, p.arg1, p.arg0, []⟩
        simp only [hstream] at hview
        rw [hview]
        exact hsession.stray hcommand
  | close s hcommand hstream hid =>
      obtain ⟨-, hsession⟩ := h.head (hcommand ▸ clse_ne_open)
      rw [view_of_stream hstream] at hsession
      exact h.of_updated (hsession.close io.now hcommand)
  | stray hcommand hstream =>
      have hopen : p.command ≠ OPEN := by
        rcases hcommand with hcommand | hcommand <;> rw [hcommand] <;> decide
      obtain ⟨-, hsession⟩ := h.head hopen
      rw [view_of_none hstream] at hsession
      refine ⟨[], by rw [List.append_nil], ?_⟩
      apply h.of_head
      · intro d _
        rfl
      · simp
      · rw [List.append_nil]
        exact h.tokens.pop
      · rw [view_of_none hstream, List.append_nil]
        apply hsession.drop
        intro hokay hoffered hunanswered
        exact hlate ⟨hokay, hstream, hoffered, hunanswered⟩

end Agreed

/-! ## The host acts -/

namespace Tokens

theorem setStream {s : PeerStream} {k : UInt32} (h : Tokens peer toDevice toPeer)
    (hnonzero : k ≠ 0) (hidle : s ≠ .idle) (hopening : s ≠ .opening)
    (hdevice : s.device ≠ some 0)
    (hanswered : peer.stream k = .opening →
      (∀ p ∈ toDevice, p.command = OPEN → p.arg0 ≠ k) ∧
        ∀ p ∈ toPeer, p.arg0 = 0 → p.arg1 ≠ k) :
    Tokens (peer.setStream k s) toDevice toPeer := by
  apply h.change
  · intro k'
    rw [Peer.stream_setStream]
    by_cases heq : k = k'
    · subst heq
      rw [if_pos rfl]
      exact .inr ⟨hidle, hopening, hnonzero, hanswered⟩
    · rw [if_neg heq]
      exact .inl rfl
  · intro k'
    rw [Peer.stream_setStream]
    split
    · exact hdevice
    · exact h.device k'
  · exact h.offer

theorem setOffer {o : Offer} (h : Tokens peer toDevice toPeer) (hd : d ≠ 0) :
    Tokens (peer.setOffer d o) toDevice toPeer := by
  apply h.change
  · intro k
    exact .inl rfl
  · exact h.device
  · rw [Peer.offer_setOffer, if_neg hd]
    exact h.offer

/-- A stream that the host holds has another id than 0. -/
theorem nonzero_of_device {k : UInt32} (h : Tokens peer toDevice toPeer)
    (hdevice : (peer.stream k).device = some d) : k ≠ 0 ∧ d ≠ 0 := by
  constructor
  · rintro rfl
    rw [h.zero] at hdevice
    cases hdevice
  · rintro rfl
    exact h.device k hdevice

end Tokens

namespace Peer

theorem apart_setStream {s : PeerStream} {k : UInt32}
    (hold : (peer.stream k).device ≠ some d) (hnew : s.device ≠ some d)
    (hdone : peer.stream k ≠ .done)
    (hopening : peer.stream k = .opening → ∀ p ∈ outbox, p.arg1 ≠ k) :
    Peer.Apart d outbox peer (peer.setStream k s) := by
  refine ⟨rfl, fun k' => ?_⟩
  rw [Peer.stream_setStream]
  by_cases heq : k = k'
  · subst heq
    rw [if_pos rfl]
    exact .inr ⟨hold, hnew, hdone, hopening⟩
  · rw [if_neg heq]
    exact .inl rfl

theorem apart_setOffer {o : Offer} {d' : UInt32} (hne : d' ≠ d) :
    Peer.Apart d outbox peer (peer.setOffer d' o) :=
  ⟨by rw [Peer.offer_setOffer, if_neg hne], fun _ => .inl rfl⟩

end Peer

namespace Agreed

variable {c : Connection}

/-- A packet of the host reaches the session of its id and no other. -/
theorem sessions_post (hd : p.arg1 = d) (hopen : p.command ≠ OPEN)
    (hmine : d ≠ 0 → Session late strict peer' d (c.view d) (outboxOf d toPeer)
      (inboxOf d toDevice ++ [p]))
    (hother : ∀ d' ≠ 0, d ≠ d' → Session late strict peer' d' (c.view d')
      (outboxOf d' toPeer) (inboxOf d' toDevice)) :
    ∀ d' ≠ 0, Session late strict peer' d' (c.view d') (outboxOf d' toPeer)
      (inboxOf d' (toDevice ++ [p])) := by
  intro d' hd'
  rw [inboxOf_append, inboxOf_cons, inboxOf_nil]
  by_cases heq : d = d'
  · subst heq
    rw [if_pos ⟨hd, hopen⟩]
    exact hmine hd'
  · rw [if_neg fun hp => heq (hd.symm.trans hp.1), List.append_nil]
    exact hother d' hd' heq

/-- The host sends a packet on a stream that it holds open. -/
theorem post {k : UInt32} {s : PeerStream} {unacked : Bool} {owed : ℕ}
    (h : Agreed late strict c peer toDevice toPeer)
    (hpeer : peer.stream k = .opened d unacked owed) (hdevice : s.device = some d)
    (hp : p.arg0 = k ∧
      (p.command = OKAY ∧ p.data = [] ∨ p.command = WRTE ∨ p.command = CLSE))
    (hd : p.arg1 = d) (hclose : p.command = CLSE → s = .closing d)
    (hflow : strict → packetCount OKAY [p] + s.owed ≤ owed ∧
      packetCount WRTE [p] + unacked.toNat ≤ s.unacked.toNat) :
    Agreed late strict c (peer.setStream k s) (toDevice ++ [p]) toPeer := by
  have hholds : (peer.stream k).device = some d := by rw [hpeer]; rfl
  obtain ⟨hk, hnonzero⟩ := h.tokens.nonzero_of_device hholds
  have hheld := PeerStream.held hdevice
  have hcommand : p.command ∈ [OKAY, WRTE, CLSE] := by
    rcases hp.2 with ⟨hcommand, -⟩ | hcommand | hcommand <;> simp [hcommand]
  have hopen : p.command ≠ OPEN := by
    rcases hp.2 with ⟨hcommand, -⟩ | hcommand | hcommand <;> rw [hcommand] <;> decide
  constructor
  · apply Tokens.post _ hcommand (hd ▸ hnonzero)
    apply h.tokens.setStream hk hheld.1 hheld.2.1
    · rw [hdevice]
      simpa using hnonzero
    · intro hopening
      rw [hpeer] at hopening
      cases hopening
  · refine sessions_post hd hopen (fun hd' => ?_) fun d' hd' heq => ?_
    · exact (h.session d hd').post hpeer hdevice hp hclose hflow
    · apply (h.session d' hd').frame
      apply Peer.apart_setStream
      · rw [hholds]
        simpa using heq
      · rw [hdevice]
        simpa using heq
      · rw [hpeer]
        simp
      · intro hopening
        rw [hpeer] at hopening
        cases hopening

/-- The host opens a stream. -/
theorem openStream {k : UInt32} (h : Agreed late strict c peer toDevice toPeer)
    (hk : k ≠ 0) (hidle : peer.stream k = .idle) (data : Bytes) :
    Agreed late strict c (peer.setStream k .opening)
      (toDevice ++ [⟨OPEN, k, 0, data⟩]) toPeer := by
  constructor
  · exact h.tokens.openStream hk hidle data
  · intro d hd
    rw [inboxOf_append, inboxOf_cons, inboxOf_nil, if_neg fun hp => hp.2 rfl,
      List.append_nil]
    apply (h.session d hd).frame
    apply Peer.apart_setStream
    · rw [hidle]
      simp [PeerStream.device]
    · simp [PeerStream.device]
    · rw [hidle]
      simp
    · intro hopening
      rw [hidle] at hopening
      cases hopening

/-- The host accepts an offer. -/
theorem accept {k : UInt32} (h : Agreed late strict c peer toDevice toPeer)
    (hoffer : peer.offer d = .pending) (hk : k ≠ 0) (hidle : peer.stream k = .idle) :
    Agreed late strict c ((peer.setOffer d .accepted).setStream k (.opened d false 0))
      (toDevice ++ [⟨OKAY, k, d, []⟩]) toPeer := by
  have hnonzero : d ≠ 0 := by
    rintro rfl
    rw [h.tokens.offer] at hoffer
    cases hoffer
  constructor
  · apply Tokens.post _ (by simp) hnonzero
    apply (h.tokens.setOffer hnonzero).setStream hk (by simp) (by simp)
    · simpa [PeerStream.device] using hnonzero
    · intro hopening
      rw [Peer.stream_setOffer, hidle] at hopening
      cases hopening
  · refine sessions_post rfl okay_ne_open (fun hd' => ?_) fun d' hd' heq => ?_
    · exact (h.session d hd').accept hoffer hk
    · apply ((h.session d' hd').frame (Peer.apart_setOffer heq)).frame
      apply Peer.apart_setStream
      · rw [Peer.stream_setOffer, hidle]
        simp [PeerStream.device]
      · simpa [PeerStream.device] using heq
      · rw [Peer.stream_setOffer, hidle]
        simp
      · intro hopening
        rw [Peer.stream_setOffer, hidle] at hopening
        cases hopening

/-- The host refuses an offer. -/
theorem refuse (h : Agreed late strict c peer toDevice toPeer)
    (hoffer : peer.offer d = .pending) :
    Agreed late strict c (peer.setOffer d .refused)
      (toDevice ++ [⟨CLSE, 0, d, []⟩]) toPeer := by
  have hnonzero : d ≠ 0 := by
    rintro rfl
    rw [h.tokens.offer] at hoffer
    cases hoffer
  constructor
  · exact (h.tokens.setOffer hnonzero).post (by simp) hnonzero
  · refine sessions_post rfl clse_ne_open (fun hd' => ?_) fun d' hd' heq => ?_
    · exact (h.session d hd').refuse hoffer
    · exact (h.session d' hd').frame (Peer.apart_setOffer heq)

/-- The host takes an action of its own. -/
theorem act {action : PeerAction} {max : ℕ}
    (h : Agreed late strict c peer toDevice toPeer)
    (hact : peer.act action = some (peer', p))
    (hrespects : strict → peer.Respects max action) :
    Agreed late strict c peer' (toDevice ++ [p]) toPeer := by
  cases action with
  | openStream k data =>
      simp only [Peer.act, Option.ite_none_right_eq_some, Option.some.injEq,
        Prod.mk.injEq] at hact
      obtain ⟨⟨hk, hidle⟩, rfl, rfl⟩ := hact
      exact h.openStream hk hidle data
  | accept d k =>
      simp only [Peer.act, Option.ite_none_right_eq_some, Option.some.injEq,
        Prod.mk.injEq] at hact
      obtain ⟨⟨hoffer, hk, hidle⟩, rfl, rfl⟩ := hact
      exact h.accept hoffer hk hidle
  | refuse d =>
      simp only [Peer.act, Option.ite_none_right_eq_some, Option.some.injEq,
        Prod.mk.injEq] at hact
      obtain ⟨hoffer, rfl, rfl⟩ := hact
      exact h.refuse hoffer
  | write k data =>
      cases hpeer : peer.stream k with
      | idle | opening | closing | done => simp [Peer.act, hpeer] at hact
      | opened d unacked owed =>
          simp only [Peer.act, hpeer, Option.some.injEq, Prod.mk.injEq] at hact
          obtain ⟨rfl, rfl⟩ := hact
          apply h.post hpeer rfl ⟨rfl, .inr (.inl rfl)⟩ rfl
          · intro hclose
            exact absurd hclose clse_ne_wrte.symm
          · intro hstrict
            have hunacked := (hrespects hstrict).1
            rw [hpeer] at hunacked
            change unacked = false at hunacked
            simp [hunacked, PeerStream.owed, PeerStream.unacked,
              wrte_ne_okay]
  | acknowledge k =>
      cases hpeer : peer.stream k with
      | idle | opening | closing | done => simp [Peer.act, hpeer] at hact
      | opened d unacked owed =>
          simp only [Peer.act, hpeer, Option.some.injEq, Prod.mk.injEq] at hact
          obtain ⟨rfl, rfl⟩ := hact
          apply h.post hpeer rfl ⟨rfl, .inl ⟨rfl, rfl⟩⟩ rfl
          · intro hclose
            exact absurd hclose clse_ne_okay.symm
          · intro hstrict
            have howed : 0 < (peer.stream k).owed := hrespects hstrict
            rw [hpeer] at howed
            change 0 < owed at howed
            simp only [packetCount_cons, packetCount_nil, PeerStream.owed,
              PeerStream.unacked, wrte_ne_okay.symm, if_true, if_false]
            omega
  | close k =>
      cases hpeer : peer.stream k with
      | idle | opening | closing | done => simp [Peer.act, hpeer] at hact
      | opened d unacked owed =>
          simp only [Peer.act, hpeer, Option.some.injEq, Prod.mk.injEq] at hact
          obtain ⟨rfl, rfl⟩ := hact
          apply h.post hpeer rfl ⟨rfl, .inr (.inr rfl)⟩ rfl
          · intro _
            rfl
          · intro _
            simp [PeerStream.owed, PeerStream.unacked, Bool.toNat_le,
              clse_ne_wrte, clse_ne_okay]

end Agreed

/-! ## The host takes a packet -/

/-- What a packet that opens nothing changes on the host. -/
theorem Peer.receive_cases (peer : Peer) (hopen : p.command ≠ OPEN) :
    peer.receive p = (peer, []) ∨
      ∃ s ps, peer.receive p = (peer.setStream p.arg1 s, ps) ∧
        s ≠ .idle ∧ s ≠ .opening ∧ (s.device = none ∨ s.device = some p.arg0) ∧
        (peer.stream p.arg1 = .opening ∧ (s.device = none ∨ p.command = OKAY) ∧
            ps = [] ∨
          (peer.stream p.arg1).device = some p.arg0 ∧
            (ps = [] ∨ ps = [⟨CLSE, p.arg1, p.arg0, []⟩])) := by
  cases hpeer : peer.stream p.arg1 with
  | idle | done =>
      left
      apply Peer.receive_ignored hopen
      simp [hpeer]
  | opening =>
      by_cases hokay : p.command = OKAY
      · right
        refine ⟨.opened p.arg0 false 0, [], Peer.receive_opening hokay hpeer, ?_⟩
        simp [PeerStream.device, hokay]
      · by_cases hclose : p.command = CLSE
        · right
          refine ⟨.done, [], ?_, ?_⟩
          · simp [Peer.receive, hpeer, hclose, clse_ne_open,
              clse_ne_okay]
          · simp [PeerStream.device]
        · left
          simp [Peer.receive, hpeer, hopen, hokay, hclose]
  | opened d unacked owed =>
      by_cases hd : p.arg0 = d
      · subst hd
        by_cases hokay : p.command = OKAY
        · right
          refine ⟨_, [], Peer.receive_okay hokay hpeer, ?_⟩
          simp [PeerStream.device]
        · by_cases hwrite : p.command = WRTE
          · right
            refine ⟨_, [], Peer.receive_write hwrite hpeer, ?_⟩
            simp [PeerStream.device]
          · by_cases hclose : p.command = CLSE
            · right
              refine ⟨_, _, Peer.receive_close hclose hpeer, ?_⟩
              simp [PeerStream.device]
            · left
              simp [Peer.receive, hpeer, hopen, hokay, hwrite, hclose]
      · left
        simp [Peer.receive, hpeer, hopen, hd]
  | closing d =>
      by_cases hclose : p.command = CLSE ∧ p.arg0 = d
      · obtain ⟨hclose, rfl⟩ := hclose
        right
        refine ⟨.done, [], ?_, ?_⟩
        · rw [Peer.receive_closing hopen hpeer, if_pos hclose]
        · simp [PeerStream.device]
      · left
        simp [Peer.receive, hpeer, hopen, hclose]

namespace Agreed

variable {c : Connection}

/-- What the packet of another id does not touch. -/
theorem receive_frame (h : Agreed late strict c peer toDevice (p :: rest))
    (hd : d ≠ 0) (hne : p.arg0 ≠ d) :
    Session late strict (peer.receive p).1 d (c.view d) (outboxOf d rest)
      (inboxOf d (toDevice ++ (peer.receive p).2)) := by
  have hsession := h.session d hd
  rw [outboxOf_cons, if_neg hne] at hsession
  by_cases hopen : p.command = OPEN
  · rw [Peer.receive_open hopen, List.append_nil]
    exact hsession.frame (Peer.apart_setOffer hne)
  · rcases peer.receive_cases hopen with hnone |
      ⟨s, ps, heq, -, -, hdevice, hold⟩
    · rw [hnone, List.append_nil]
      exact hsession
    · rw [heq]
      have hanswer : inboxOf d ps = [] := by
        rcases hold with ⟨-, -, rfl⟩ | ⟨-, rfl | rfl⟩
        · rfl
        · rfl
        · rw [inboxOf_cons, if_neg fun hp => hne hp.1, inboxOf_nil]
      rw [inboxOf_append, hanswer, List.append_nil]
      apply hsession.frame
      apply Peer.apart_setStream
      · rcases hold with ⟨hpeer, -⟩ | ⟨hpeer, -⟩
        · simp [hpeer, PeerStream.device]
        · simpa [hpeer] using hne
      · rcases hdevice with hdevice | hdevice
        · simp [hdevice]
        · simpa [hdevice] using hne
      · rcases hold with ⟨hpeer, -⟩ | ⟨hpeer, -⟩
        · simp [hpeer]
        · exact (PeerStream.held hpeer).2.2
      · intro hpeer q hq hq'
        obtain ⟨hq, hq0⟩ := mem_outboxOf.mp hq
        have hsame := (List.pairwise_cons.mp h.tokens.answers).1 q hq hq'.symm hpeer
        exact hne (hsame.1.trans hq0)

theorem receive_tokens (h : Agreed late strict c peer toDevice (p :: rest)) :
    Tokens (peer.receive p).1 (toDevice ++ (peer.receive p).2) rest := by
  have htake := h.tokens.take
  by_cases hopen : p.command = OPEN
  · rw [Peer.receive_open hopen, List.append_nil]
    apply htake.setOffer
    intro hzero
    have hclose := (h.tokens.refusals p List.mem_cons_self hzero).1
    exact absurd (hclose.symm.trans hopen) clse_ne_open
  · rcases peer.receive_cases hopen with hnone |
      ⟨s, ps, heq, hidle, hopening, hdevice, hold⟩
    · rw [hnone, List.append_nil]
      exact htake
    · rw [heq]
      have hk : p.arg1 ≠ 0 := by
        rcases hold with ⟨hpeer, -⟩ | ⟨hpeer, -⟩
        · intro hzero
          rw [hzero, h.tokens.zero] at hpeer
          cases hpeer
        · exact (h.tokens.nonzero_of_device hpeer).1
      have hset : Tokens (peer.setStream p.arg1 s) toDevice rest := by
        apply htake.setStream hk hidle hopening
        · intro hzero
          rcases hdevice with hdevice | hdevice
          · rw [hdevice] at hzero
            cases hzero
          · have hp0 : p.arg0 = 0 := Option.some.inj (hdevice.symm.trans hzero)
            rcases hold with ⟨-, hnone | hokay, -⟩ | ⟨hpeer, -⟩
            · rw [hnone] at hdevice
              cases hdevice
            · have hclose := (h.tokens.refusals p List.mem_cons_self hp0).1
              exact absurd (hclose.symm.trans hokay) clse_ne_okay
            · exact (h.tokens.nonzero_of_device hpeer).2 hp0
        · intro hpeer
          constructor
          · intro q hq hcommand hq0
            exact (h.tokens.opens q hq hcommand).2.2.2 p List.mem_cons_self hq0.symm
          · intro q hq hzero hq1
            have hsame := (List.pairwise_cons.mp h.tokens.answers).1 q hq hq1.symm hpeer
            exact hsame.2 (hsame.1.trans hzero)
      rcases hold with ⟨-, -, rfl⟩ | ⟨hpeer, rfl | rfl⟩
      · rw [List.append_nil]
        exact hset
      · rw [List.append_nil]
        exact hset
      · exact hset.post (by simp) (h.tokens.nonzero_of_device hpeer).2

/-- The host takes the next packet of the device. -/
theorem receive (h : Agreed late strict c peer toDevice (p :: rest)) :
    Agreed late strict c (peer.receive p).1 (toDevice ++ (peer.receive p).2) rest := by
  constructor
  · exact h.receive_tokens
  · intro d hd
    by_cases hne : p.arg0 = d
    · subst hne
      have hsession := h.session p.arg0 hd
      rw [outboxOf_cons, if_pos rfl] at hsession
      have hall : inboxOf p.arg0 (peer.receive p).2 = (peer.receive p).2 := by
        by_cases hopen : p.command = OPEN
        · rw [Peer.receive_open hopen]
          rfl
        · rcases peer.receive_cases hopen with hnone |
            ⟨s, ps, heq, -, -, -, ⟨-, -, rfl⟩ | ⟨-, rfl | rfl⟩⟩
          · rw [hnone]
            rfl
          · rw [heq]
            rfl
          · rw [heq]
            rfl
          · rw [heq, inboxOf_cons, if_pos ⟨rfl, clse_ne_open⟩]
            rfl
      rw [inboxOf_append, hall]
      exact hsession.receive h.tokens.zero
    · exact h.receive_frame hd hne

end Agreed

/-! ## Runs -/

namespace Agreed

open Connection

variable {io : Io} {event : Event} {c c' : Connection}

theorem of_sent (hsent : c'.sent = c.sent ++ ps)
    (h : ∃ ps, c'.sent = c.sent ++ ps ∧
      Agreed late strict c' peer toDevice (toPeer ++ ps)) :
    Agreed late strict c' peer toDevice (toPeer ++ ps) := by
  obtain ⟨ps', hsent', hagreed⟩ := h
  rw [hsent] at hsent'
  rw [List.append_cancel_left hsent']
  exact hagreed

/-- The device takes a step of its own. -/
theorem device (h : Agreed late strict c peer toDevice toPeer)
    (hreach : Connection.Reachable c) (hevent : ∀ p, event ≠ .packet p)
    (hstep : StepOf io event c c') (hsent : c'.sent = c.sent ++ ps) :
    Agreed late strict c' peer toDevice (toPeer ++ ps) := by
  have hwf := ReachableWithin.wellFormed hreach
  obtain ⟨c₁, hperformed, rfl⟩ := hstep.performed
  have hsent₁ : c₁.sent = c.sent ++ ps := hsent
  suffices hagreed : Agreed late strict c₁ peer toDevice (toPeer ++ ps) from
    hagreed.congr fun _ => rfl
  cases hperformed with
  | packet p => exact absurd rfl (hevent p)
  | services _ hnext _ hviews =>
      exact h.services hwf hreach.delivery hnext hviews hsent₁
  | reverseAccept _ hoffers => exact of_sent hsent₁ (h.offers_run hwf hoffers)
  | flush tls =>
      apply of_sent hsent₁
      refine ⟨[], (List.append_nil c.sent).symm, ?_⟩
      rw [List.append_nil]
      exact h.congr fun _ => rfl

end Agreed

namespace Link

open Connection

variable {l : Link}

/-- The device of a run is in a state of one of its own runs, and both parties
agree. -/
theorem Reachable.agreed (h : Link.Reachable late strict l) :
    Connection.Reachable l.device ∧
      Agreed late strict l.device l.peer l.toDevice l.toPeer := by
  refine @Transition.Reachable.invariant _ _ _ (fun l : Link =>
    Connection.Reachable l.device ∧
      Agreed late strict l.device l.peer l.toDevice l.toPeer) ?_ ?_ l h
  · rintro ⟨c, peer, toDevice, toPeer⟩ ⟨hinitial, hpeer, hin, hout⟩
    obtain ⟨rfl, rfl, rfl⟩ : peer = ⟨∅, ∅⟩ ∧ toDevice = [] ∧ toPeer = [] :=
      ⟨hpeer, hin, hout⟩
    exact ⟨.start hinitial, .initial hinitial⟩
  · rintro l l' - ⟨hreach, hagreed⟩ hstep
    cases hstep with
    | device io event c ps hevent hstep hsent =>
        exact ⟨hreach.next ⟨io, event, fun _ _ => trivial, hstep⟩,
          hagreed.device hreach hevent hstep hsent⟩
    | deliver io p rest c ps hhead hlate hstep hsent =>
        refine ⟨hreach.next ⟨io, .packet p, fun _ _ => trivial, hstep⟩, ?_⟩
        obtain ⟨-, c₁, hrun, rfl⟩ := hstep
        have hhandled := wp_of_ok (@handle_spec io l.device p) hrun
        rw [hhead] at hagreed
        apply Agreed.of_sent hsent
        obtain ⟨ps', hsent', hagreed'⟩ := hagreed.handled
          (ReachableWithin.wellFormed hreach) hreach.delivery hlate hhandled
        exact ⟨ps', hsent', hagreed'.congr fun _ => rfl⟩
    | act action peer p hact hrespects =>
        exact ⟨hreach, hagreed.act hact hrespects⟩
    | receive p rest hhead =>
        rw [hhead] at hagreed
        exact ⟨hreach, hagreed.receive⟩

end Link

end Altdb
