import Altdb.StreamSteps
import Altdb.History

/-!
# Output of the services

What a stream reads from its service is sent to the host in order, in packets
of bounded size.  Each packet waits for the acknowledgement of the one before,
and a reverse stream for that of its opening.
-/

namespace Altdb

open Fallible

/-- The data packets that were sent. -/
def dataPackets (h : List StreamEvent) : List Packet :=
  (packets h).filter (·.command = WRTE)

def sentData (h : List StreamEvent) : Bytes := (dataPackets h).flatMap (·.data)

/-- The number of acknowledged data packets. -/
def acknowledgements (h : List StreamEvent) : ℕ :=
  h.count (.accepted .acknowledged)

@[simp] theorem dataPackets_append (h h' : List StreamEvent) :
    dataPackets (h ++ h') = dataPackets h ++ dataPackets h' := by
  simp [dataPackets]

@[simp] theorem sentData_append (h h' : List StreamEvent) :
    sentData (h ++ h') = sentData h ++ sentData h' := by
  simp [sentData]

@[simp] theorem acknowledgements_append (h h' : List StreamEvent) :
    acknowledgements (h ++ h') = acknowledgements h + acknowledgements h' :=
  List.count_append

theorem dataPackets_eq_nil {h : List StreamEvent}
    (hnone : ∀ p ∈ packets h, p.command ≠ WRTE) : dataPackets h = [] := by
  simp only [dataPackets, List.filter_eq_nil_iff, decide_eq_true_eq]
  exact hnone

theorem acknowledgements_eq_zero {h : List StreamEvent}
    (hnone : ∀ e ∈ h, ∀ what, e ≠ .accepted what) : acknowledgements h = 0 :=
  List.count_eq_zero.mpr fun hmem => hnone _ hmem _ rfl

@[simp] theorem acknowledgements_sent (p : Packet) :
    acknowledgements [.sent p] = 0 := by
  simp [acknowledgements]

/-- What holds when a stream sends the data packet `p`. -/
structure DataMoment (max : ℕ) (before : List StreamEvent) (p : Packet) :
    Prop where
  positive : 1 ≤ p.data.length
  bounded : p.data.length ≤ min max 65536
  acknowledged : (dataPackets before).length = acknowledgements before
  opened : Offered before → .accepted .opened ∈ before

/-- Every data packet of the history is sent at such a moment. -/
def DataMoments (max : ℕ) (h : List StreamEvent) : Prop :=
  History.EachMoment
    (fun before e => ∀ p, e = .sent p → p.command = WRTE → DataMoment max before p) h

theorem DataMoments.nil (max : ℕ) : DataMoments max [] := History.eachMoment_nil

theorem DataMoments.append {max : ℕ} {h h' : List StreamEvent}
    (hmoments : DataMoments max h) (hnone : ∀ p ∈ packets h', p.command ≠ WRTE) :
    DataMoments max (h ++ h') := by
  refine History.eachMoment_append.mpr ⟨hmoments, ?_⟩
  rintro before e after rfl p rfl hdata
  exact absurd hdata (hnone p (mem_packets.mpr (by simp)))

/-! ## One pass -/

/-- A pass either sends no data or reads and sends one packet of data. -/
theorem Stream.service_output (io : Io) (queued max : ℕ) (id : UInt32)
    (s : Stream) :
    (∀ p ∈ packets ((s.service io queued max id).log id), p.command = OKAY) ∧
        output ((s.service io queued max id).log id) = [] ∧
        (s.service io queued max id).stream.waiting = s.waiting ∨
      ∃ start data, (s.service io queued max id).log id =
          start ++ [.sent ⟨WRTE, id, s.remote, data⟩] ∧
        (∀ p ∈ packets start, p.command = OKAY) ∧ output start = data ∧
        1 ≤ data.length ∧ data.length ≤ min max 65536 ∧ s.opening = none ∧
        s.waiting = false ∧ (s.service io queued max id).closed = false ∧
        (s.service io queued max id).stream.waiting = true := by
  obtain ⟨pending, offset, hframe⟩ := s.flushPending_frame false (io.write id)
  have hpass := s.service_pass io queued max id
  generalize s.service io queued max id = r at hpass ⊢
  have hokay : ∀ after : Stream, ∀ p ∈ s.drained after id, p.command = OKAY :=
    fun after p hp => by rw [mem_drained hp]
  cases hpass with
  | timeout => exact .inl ⟨by simp [Serviced.log], rfl, rfl⟩
  | writeFailed | closing =>
      refine .inl ⟨?_, ?_, ?_⟩
      · simp [Serviced.log, Observation.about]
      · simp [Serviced.log, Observation.about]
      · simp [hframe]
  | ended | idle =>
      refine .inl ⟨?_, ?_, ?_⟩
      · simpa [Serviced.log, Observation.about] using hokay _
      · simp [Serviced.log, Observation.about]
      · simp [hframe]
  | read source data work hresult hclosing hopening hwaiting hdata hlength =>
      refine .inr
        ⟨.wrote (s.flushPending false (io.write id)).written :: .read data ::
          (s.drained (s.flushPending false (io.write id)).stream id).map .sent,
          data, ?_, ?_, ?_, List.length_pos_of_ne_nil hdata, hlength, ?_, ?_, rfl,
          rfl⟩
      · simp [Serviced.log, Observation.about, hframe]
      · simpa using hokay _
      · simp
      · simpa [hframe] using hopening
      · simpa [hframe] using hwaiting

/-! ## The invariant -/

structure OutputInvariant (max : ℕ) (v : StreamView) : Prop where
  balance : sentData v.history = output v.history
  moments : DataMoments max v.history
  outstanding : (dataPackets v.history).length ≤ acknowledgements v.history + 1
  waiting : ∀ s, v.stream = some s → (dataPackets v.history).length =
    acknowledgements v.history + if s.waiting then 1 else 0
  opened : ∀ s, v.stream = some s → s.opening = none → Offered v.history →
    .accepted .opened ∈ v.history

namespace OutputInvariant

variable {max : ℕ} {v : StreamView}

theorem initial (max : ℕ) : OutputInvariant max ⟨none, [], false⟩ where
  balance := rfl
  moments := .nil max
  outstanding := Nat.zero_le _
  waiting s hs := by cases hs
  opened s hs := by cases hs

/-- A stream that is opened under an id without history. -/
theorem fresh {h : List StreamEvent} {s : Stream} {p : Packet}
    (hwf : (⟨none, h, false⟩ : StreamView).WellFormed)
    (hwaiting : s.waiting = false) (hp : p.command ≠ WRTE)
    (hopen : p.command = OPEN → s.opening ≠ none) :
    OutputInvariant max ⟨some s, h ++ [.sent p], true⟩ := by
  have hclose := hwf.packets_refused rfl
  have hnone : ∀ q ∈ packets (h ++ [.sent p]), q.command ≠ WRTE := by
    intro q hq
    rcases List.mem_append.mp (packets_append h [.sent p] ▸ hq) with hq | hq
    · rw [hclose q hq]
      decide
    · obtain rfl := List.mem_singleton.mp hq
      exact hp
  have hacks : acknowledgements (h ++ [.sent p]) = 0 := by
    refine acknowledgements_eq_zero fun e he what hwhat => ?_
    subst hwhat
    rcases List.mem_append.mp he with he | he
    · exact hwf.unaccepted rfl _ he
    · cases List.mem_singleton.mp he
  have houtput : output (h ++ [.sent p]) = [] := by
    simp only [output, List.flatMap_eq_nil_iff]
    intro e he
    rcases List.mem_append.mp he with he | he
    · obtain ⟨q, rfl, -⟩ := hwf.refused rfl _ he
      rfl
    · obtain rfl := List.mem_singleton.mp he
      rfl
  have hdata := dataPackets_eq_nil hnone
  refine ⟨?_, ?_, ?_, ?_, ?_⟩
  · simp only [sentData, hdata, houtput, List.flatMap_nil]
  · exact (DataMoments.nil max).append hnone
  · simp [hdata]
  · rintro _ ⟨rfl⟩
    simp [hdata, hacks, hwaiting]
  · rintro _ ⟨rfl⟩ hopening ⟨q, hq, hcommand⟩
    rcases List.mem_append.mp (packets_append h [.sent p] ▸ hq) with hq | hq
    · rw [hclose q hq] at hcommand
      cases hcommand
    · obtain rfl := List.mem_singleton.mp hq
      exact absurd hopening (hopen hcommand)

/-- A change that sends no data. -/
theorem silent {o o' : Option Stream} {h h' : List StreamEvent} {a : Bool}
    (hinv : OutputInvariant max ⟨o, h, a⟩)
    (hdata : ∀ p ∈ packets h', p.command ≠ WRTE) (houtput : output h' = [])
    (hoffer : ∀ p ∈ packets h', p.command ≠ OPEN)
    (hwaiting : ∀ s', o' = some s' → ∃ s, o = some s ∧
      (if s.waiting then 1 else 0) =
        acknowledgements h' + if s'.waiting then 1 else 0)
    (hopening : ∀ s', o' = some s' → s'.opening = none →
      .accepted .opened ∈ h' ∨ ∃ s, o = some s ∧ s.opening = none) :
    OutputInvariant max ⟨o', h ++ h', a⟩ := by
  have hnil := dataPackets_eq_nil hdata
  refine ⟨?_, hinv.moments.append hdata, ?_, ?_, ?_⟩
  · have hbalance := hinv.balance
    simp only [sentData_append, output_append, houtput, List.append_nil]
    simpa [sentData, hnil] using hbalance
  · have houtstanding := hinv.outstanding
    simp only [dataPackets_append, hnil, List.append_nil,
      acknowledgements_append] at houtstanding ⊢
    omega
  · intro s' hs'
    obtain ⟨s, hs, hcount⟩ := hwaiting s' hs'
    have hlength := hinv.waiting s hs
    simp only [dataPackets_append, hnil, List.append_nil,
      acknowledgements_append] at hlength ⊢
    omega
  · rintro s' hs' hnone ⟨p, hp, hcommand⟩
    rcases List.mem_append.mp (packets_append h h' ▸ hp) with hp | hp
    · rcases hopening s' hs' hnone with hopened | ⟨s, hs, hsnone⟩
      · exact List.mem_append_right _ hopened
      · exact List.mem_append_left _ (hinv.opened s hs hsnone ⟨p, hp, hcommand⟩)
    · exact absurd hcommand (hoffer p hp)

/-- A change that reads and sends one packet of data. -/
theorem data {h start : List StreamEvent} {s s' : Stream} {a : Bool} {p : Packet}
    (hinv : OutputInvariant max ⟨some s, h, a⟩)
    (hstart : ∀ q ∈ packets start, q.command = OKAY)
    (hacks : acknowledgements start = 0)
    (hp : p.command = WRTE) (houtput : output start = p.data)
    (hpositive : 1 ≤ p.data.length) (hbounded : p.data.length ≤ min max 65536)
    (hopening : s.opening = none) (hidle : s.waiting = false)
    (hwaiting : s'.waiting = true) :
    OutputInvariant max ⟨some s', h ++ (start ++ [.sent p]), a⟩ := by
  have hnone : ∀ q ∈ packets start, q.command ≠ WRTE := by
    intro q hq
    rw [hstart q hq]
    decide
  have hnil := dataPackets_eq_nil hnone
  have hlast : dataPackets [.sent p] = [p] := by
    simp [dataPackets, hp]
  have hoffered : Offered (h ++ start) → Offered h := by
    rintro ⟨q, hq, hcommand⟩
    rcases List.mem_append.mp (packets_append h start ▸ hq) with hq | hq
    · exact ⟨q, hq, hcommand⟩
    · rw [hstart q hq] at hcommand
      cases hcommand
  have hlength : (dataPackets h).length = acknowledgements h := by
    simpa [hidle] using hinv.waiting s rfl
  rw [← List.append_assoc]
  refine ⟨?_, ?_, ?_, ?_, ?_⟩
  · have hbalance := hinv.balance
    have hempty : sentData start = [] := by simp [sentData, hnil]
    have hsent : sentData [.sent p] = p.data := by simp [sentData, hlast]
    simp only [sentData_append, output_append, hempty, hsent, houtput,
      output_sent, output_nil, List.append_nil]
    exact congrArg (· ++ p.data) hbalance
  · refine History.eachMoment_append.mpr ⟨hinv.moments.append hnone, ?_⟩
    refine History.eachMoment_cons.mpr ⟨?_, History.eachMoment_nil⟩
    rintro _ ⟨rfl⟩ -
    rw [List.append_nil]
    refine ⟨hpositive, hbounded, ?_, fun hoffer => ?_⟩
    · simp [hnil, hacks, hlength]
    · exact List.mem_append_left _ (hinv.opened s rfl hopening (hoffered hoffer))
  · simp [hnil, hlast, hacks, hlength]
  · rintro _ ⟨rfl⟩
    simp [hnil, hlast, hacks, hlength, hwaiting]
  · rintro _ ⟨rfl⟩ - ⟨q, hq, hcommand⟩
    rcases List.mem_append.mp (packets_append (h ++ start) [.sent p] ▸ hq) with
      hq | hq
    · have hopened := hinv.opened s rfl hopening (hoffered ⟨q, hq, hcommand⟩)
      simp [hopened]
    · obtain rfl := List.mem_singleton.mp hq
      rw [hp] at hcommand
      cases hcommand

/-- Every change of a stream keeps the invariant. -/
theorem step {odd : Connection.Oddity → Prop} {io : Io} {id : UInt32}
    {v' : StreamView} (hwf : v.WellFormed) (hinv : OutputInvariant max v)
    (hstep : StreamStep odd io max id v v') : OutputInvariant max v' := by
  cases hstep with
  | openHost =>
      exact fresh hwf rfl wrte_ne_okay.symm
        fun h => absurd h okay_ne_open
  | openReverse fd target h hid =>
      exact fresh hwf rfl wrte_ne_open.symm fun _ => by
        simp [Connection.reverseStream]
  | ackOpen s h a remote hopening =>
      refine hinv.silent (by simp) rfl (by simp) ?_ ?_
      · rintro _ ⟨rfl⟩
        exact ⟨s, rfl, by simp [acknowledgements]⟩
      · exact fun _ _ _ => .inl (by simp)
  | ackData s h a hopening hwaiting =>
      refine hinv.silent (by simp) rfl (by simp) ?_ ?_
      · rintro _ ⟨rfl⟩
        exact ⟨s, rfl, by simp [acknowledgements, hwaiting]⟩
      · exact fun _ _ _ => .inr ⟨s, rfl, hopening⟩
  | write s h a data hopening =>
      refine hinv.silent (by simp) rfl (by simp) ?_ ?_
      · rintro _ ⟨rfl⟩
        exact ⟨s, rfl, by simp [acknowledgements]⟩
      · exact fun _ _ _ => .inr ⟨s, rfl, hopening⟩
  | writeEmpty s h a hopening =>
      refine hinv.silent (by simp; decide) rfl (by simp; decide) ?_ ?_
      · rintro _ ⟨rfl⟩
        exact ⟨s, rfl, by simp [acknowledgements]⟩
      · exact fun _ _ _ => .inr ⟨s, rfl, hopening⟩
  | close s h a =>
      refine hinv.silent (by simp) rfl (by simp) ?_ ?_
      · rintro _ ⟨rfl⟩
        exact ⟨s, rfl, by simp [acknowledgements]⟩
      · rintro _ ⟨rfl⟩ hopening
        exact .inr ⟨s, rfl, hopening⟩
  | keep s h a queued hkept =>
      have haccepted := fun e he =>
        @Connection.service_log_not_accepted io queued max id s e he
      rcases s.service_output io queued max id with hquiet | ⟨start, data, hlog,
        hstart, houtput, hpositive, hbounded, hopening, hidle, -, hwaiting⟩
      · obtain ⟨hokay, houtput, hwaiting⟩ := hquiet
        refine hinv.silent (fun p hp => ?_) houtput (fun p hp => ?_) ?_ ?_
        · rw [hokay p hp]
          decide
        · rw [hokay p hp]
          decide
        · rintro _ ⟨rfl⟩
          refine ⟨s, rfl, ?_⟩
          rw [acknowledgements_eq_zero haccepted, hwaiting, Nat.zero_add]
        · rintro _ ⟨rfl⟩ hopening
          exact .inr ⟨s, rfl, (s.service_frame io queued max id).2.1 ▸ hopening⟩
      · have hacks : acknowledgements start = 0 :=
          acknowledgements_eq_zero fun e he => haccepted e (by simp [hlog, he])
        rw [hlog]
        exact hinv.data hstart hacks rfl houtput hpositive hbounded hopening hidle
          hwaiting
  | remove s h a queued hclosed =>
      rcases s.service_output io queued max id with ⟨hokay, houtput, -⟩ |
        ⟨-, -, -, -, -, -, -, -, -, hopen, -⟩
      · have hcommand : ∀ p ∈ packets ((s.service io queued max id).log id ++
            [.sent ⟨CLSE, id, (s.service io queued max id).stream.remote, []⟩]),
            p.command = OKAY ∨ p.command = CLSE := by
          intro p hp
          rcases List.mem_append.mp (packets_append _ _ ▸ hp) with hp | hp
          · exact .inl (hokay p hp)
          · obtain rfl := List.mem_singleton.mp hp
            exact .inr rfl
        rw [List.append_assoc]
        refine hinv.silent (fun p hp => ?_) (by simp [houtput]) (fun p hp => ?_)
          (fun s' hs' => by cases hs') (fun s' hs' => by cases hs')
        · rcases hcommand p hp with h | h <;> rw [h] <;> decide
        · rcases hcommand p hp with h | h <;> rw [h] <;> decide
      · rw [hclosed] at hopen
        cases hopen
  | stray h a remote =>
      exact hinv.silent (by simp; decide) rfl (by simp; decide)
        (fun s' hs' => by cases hs') (fun s' hs' => by cases hs')

end OutputInvariant

namespace Connection

variable {c : Connection}

/-- In every run and for every stream, the data packets carry the output of the
service in order, their sizes are bounded, each is sent when all before it are
acknowledged and never before the host opened the stream, and `waiting` says
whether one is unacknowledged. -/
theorem stream_output (h : Reachable c) (id : UInt32) :
    sentData (c.history id) = output (c.history id) ∧
      DataMoments c.max (c.history id) ∧
      (dataPackets (c.history id)).length ≤
        acknowledgements (c.history id) + 1 ∧
      ∀ s, c.streams[id]? = some s → (dataPackets (c.history id)).length =
        acknowledgements (c.history id) + if s.waiting then 1 else 0 := by
  have hinv : OutputInvariant c.max (c.view id) :=
    h.view_invariant (fun max _ _ v => OutputInvariant max v)
      (fun max _ _ => .initial max) (fun _ _ _ _ _ _ hinv => hinv)
      (fun _ _ _ _ _ hwf hinv hstep => hinv.step hwf hstep) id
  exact ⟨hinv.balance, hinv.moments, hinv.outstanding, hinv.waiting⟩

/-- A host stream sends its output in two packets. -/
def outputTurns : List Turn :=
  [.packet 1 OPEN 7 0 [115, 121, 110, 99, 58, 0],
    .services 2 [] (.data [1, 2, 3]), .packet 3 OKAY 7 1 [],
    .services 4 [] (.data [4])]

theorem stream_output_two_packets :
    ∃ c, Reachable c ∧ (dataPackets (c.history 1)).length = 2 ∧
      sentData (c.history 1) = output (c.history 1) ∧
      output (c.history 1) = [1, 2, 3, 4] ∧
      (dataPackets (c.history 1)).length ≤ acknowledgements (c.history 1) + 1 := by
  have hruns : ∃ c ∈ run (fun _ => True) fresh outputTurns,
      (dataPackets (c.history 1)).length = 2 ∧
        output (c.history 1) = [1, 2, 3, 4] := by
    decide +kernel
  obtain ⟨c, hrun, hlength, hbytes⟩ := hruns
  have houtput := stream_output (run_reachable hrun) 1
  exact ⟨c, run_reachable hrun, hlength, houtput.1, hbytes, houtput.2.2.1⟩

end Connection

end Altdb
