import Altdb.Connection

/-!
# What a step of a connection can do

Each method of the connection has one lemma that says how it changes the
streams and what it adds to the transcript, on either exit.  Later modules cite
these lemmas and unfold no method.
-/

namespace Altdb.Connection

open Fallible

variable {io : Io} {c c' : Connection}

/-! ## Calls of the supervisor -/

/-- Only the supervisor was called, and the reverse table may have changed. -/
def Talks (c c' : Connection) : Prop :=
  ∃ reverse, ∃ calls : List Request, c' = { c with
    reverse := reverse
    transcript := c.transcript ++ calls.map .called }

theorem Talks.refl (c : Connection) : Talks c c := ⟨c.reverse, [], by simp⟩

theorem Talks.trans {c₁ c₂ c₃ : Connection} (h : Talks c₁ c₂)
    (h' : Talks c₂ c₃) : Talks c₁ c₃ := by
  obtain ⟨reverse, calls, rfl⟩ := h
  obtain ⟨reverse', calls', rfl⟩ := h'
  exact ⟨reverse', calls ++ calls', by simp⟩

theorem Talks.withReverse (h : Talks c c') (reverse : Std.TreeMap String Reverse) :
    Talks c { c' with reverse := reverse } :=
  h.trans ⟨reverse, [], by simp⟩

theorem call_spec (request : Request) :
    wp (call io request)
      (fun value c' => io.broker request = .ok value ∧
        c' = { c with transcript := c.transcript ++ [.called request] })
      (fun error c' => io.broker request = .error error ∧
        c' = { c with transcript := c.transcript ++ [.called request] }) c := by
  simp only [call, observe, wp_bind, wp_modify, wp_lift]
  exact ⟨fun _ h => ⟨h, trivial⟩, fun _ h => ⟨h, trivial⟩⟩

theorem call_talks (request : Request) :
    wp (call io request) (fun _ => Talks c) (fun _ => Talks c) c := by
  have htalks : Talks c
      { c with transcript := c.transcript ++ [.called request] } :=
    ⟨c.reverse, [request], rfl⟩
  refine wp_mono (call_spec request) ?_ ?_
  · rintro _ c' ⟨-, rfl⟩
    exact htalks
  · rintro _ c' ⟨-, rfl⟩
    exact htalks

theorem dropSource_talks (source : Source) :
    wp (dropSource io source) (fun _ => Talks c) (fun _ _ => False) c := by
  unfold dropSource
  split
  · simp only [wp_bind, wp_attempt]
    exact call_talks _
  · exact .refl c

theorem removeReverse_talks (spec : String) :
    wp (removeReverse io spec) (fun _ => Talks c) (fun _ => Talks c) c := by
  simp only [removeReverse, wp_bind, wp_get, wp_ensure, wp_modify]
  refine ⟨fun _ => ?_, fun _ => .refl c⟩
  have herased := (Talks.refl c).withReverse (c.reverse.erase spec)
  exact wp_mono (call_talks _) (fun _ _ h => herased.trans h)
    (fun _ _ h => herased.trans h)

theorem reverseBind_talks (localSpec remoteSpec : String) :
    wp (reverseBind io localSpec remoteSpec) (fun _ => Talks c)
      (fun _ => Talks c) c := by
  simp only [reverseBind, wp_bind, wp_get, wp_ensure]
  refine ⟨fun _ => wp_mono (call_talks _) ?_ (fun _ _ h => h),
    fun _ => .refl c⟩
  rintro ⟨actual, fds⟩ c₁ h₁
  dsimp only
  split
  · simp only [wp_bind, wp_lift, wp_modify]
    refine ⟨fun _ _ => ?_, fun _ _ => h₁⟩
    split <;> exact h₁.withReverse _
  · exact h₁

theorem reverseForward_talks (command : String) :
    wp (reverseForward io command) (fun _ => Talks c) (fun _ => Talks c) c := by
  unfold reverseForward
  dsimp only
  split
  · exact .refl c
  · simp only [wp_bind, wp_lift, wp_get, wp_ite, wp_ensure]
    refine ⟨fun _ _ => ⟨fun _ _ => ⟨fun _ => ⟨fun _ => ?_, fun _ => .refl c⟩,
      fun _ => ?_⟩, fun _ _ => .refl c⟩, fun _ _ => .refl c⟩
    · exact wp_mono (removeReverse_talks _)
        (fun _ _ h₁ => wp_mono (reverseBind_talks _ _)
          (fun _ _ h => h₁.trans h) (fun _ _ h => h₁.trans h)) (fun _ _ h => h)
    · exact reverseBind_talks _ _

theorem reverseCommand_talks (command : String) :
    wp (reverseCommand io command) (fun _ => Talks c) (fun _ => Talks c) c := by
  unfold reverseCommand
  simp only [wp_ite]
  refine ⟨fun _ => .refl c, fun _ => ⟨fun _ => ?_, fun _ => ?_⟩⟩
  · simp only [wp_bind, wp_get]
    refine wp_mono
      (@wp_forM _ _ _ _ (fun _ => Talks c) (fun _ => Talks c) ?_ _ c (.refl c))
      ?_ ?_
    · exact fun spec rest c₁ h₁ => wp_mono (removeReverse_talks spec)
        (fun _ _ h => h₁.trans h) (fun _ _ h => h₁.trans h)
    · exact fun _ _ h => h
    · exact fun _ _ h => h
  · split
    · simp only [wp_bind]
      exact removeReverse_talks _
    · split
      · exact reverseForward_talks _
      · exact .refl c

theorem openService_talks (data : Bytes) :
    wp (openService io data) (fun _ => Talks c) (fun _ => Talks c) c := by
  simp only [openService, wp_bind, wp_ensure]
  refine ⟨fun _ => ?_, fun _ => .refl c⟩
  split
  · exact .refl c
  · simp only [wp_bind, wp_ensure, wp_ite, wp_get, wp_attempt]
    refine ⟨fun _ => ⟨fun _ => call_talks _, fun _ => ?_⟩, fun _ => .refl c⟩
    split
    · simp only [wp_bind, wp_attempt]
      exact reverseCommand_talks _
    · simp only [wp_bind, wp_get]
      refine wp_mono (call_talks _) ?_ (fun _ _ h => h)
      rintro ⟨id, fds⟩ c₁ h₁
      dsimp only
      split
      · simp only [wp_bind, wp_lift]
        exact ⟨fun _ _ => ⟨fun _ _ => h₁, fun _ _ => h₁⟩, fun _ _ => h₁⟩
      · exact h₁

/-! ## Packets to the host -/

/-- One more packet was written. -/
def Sent (io : Io) (p : Packet) (c c' : Connection) : Prop :=
  ∃ tls, p.write (io.tlsWrite c.transcript.length c.tls) false = .ok tls ∧
    c' = { c with tls := tls, transcript := c.transcript ++ [.sent p] }

theorem send_spec (p : Packet) :
    wp (send io p) (fun _ => Sent io p c)
      (fun error c' => c' = c ∧
        p.write (io.tlsWrite c.transcript.length c.tls) false = .error error)
      c := by
  simp only [send, wp_bind, wp_get, wp_lift, wp_modify]
  exact ⟨fun tls h => ⟨tls, h, rfl⟩, fun _ h => ⟨trivial, h⟩⟩

/-- The connection after some packets were written. -/
def withSent (c : Connection) (tls : Tls) (packets : List Packet) :
    Connection :=
  { c with tls := tls, transcript := c.transcript ++ packets.map .sent }

theorem forM_send_spec (packets : List Packet) :
    wp (packets.forM (send io)) (fun _ c' => ∃ tls, c' = c.withSent tls packets)
      (fun _ c' => ∃ tls, ∃ written, written <+: packets ∧
        c' = c.withSent tls written) c := by
  induction packets generalizing c with
  | nil => exact ⟨c.tls, by simp [withSent]⟩
  | cons p rest ih =>
      show wp (send io p >>= fun _ => rest.forM (send io)) _ _ c
      rw [wp_bind]
      refine wp_mono (send_spec p) ?_ ?_
      · rintro _ _ ⟨tls, -, rfl⟩
        refine wp_mono ih ?_ ?_
        · rintro _ c' ⟨tls', rfl⟩
          exact ⟨tls', by simp [withSent]⟩
        · rintro _ c' ⟨tls', written, hprefix, rfl⟩
          exact ⟨tls', p :: written, List.cons_prefix_cons.mpr ⟨rfl, hprefix⟩,
            by simp [withSent]⟩
      · rintro _ c' ⟨rfl, -⟩
        exact ⟨c'.tls, [], List.nil_prefix, by simp [withSent]⟩

/-! ## Packets of the host -/

/-- The connection with another stream and one more observation. -/
def updated (c : Connection) (id : UInt32) (s : Stream) (what : Acceptance) :
    Connection :=
  { c with
    streams := c.streams.insert id s
    transcript := c.transcript ++ [.accepted id what] }

/-- The stream `id` was opened and its opening packet `p` written. -/
def opened (c : Connection) (id : UInt32) (s : Stream) (tls : Tls)
    (p : Packet) : Connection :=
  { c with
    streams := c.streams.insert id s
    next := id + 1
    tls := tls
    transcript := c.transcript ++ [.sent p] }

/-- An empty payload was accepted and acknowledged at once. -/
def acknowledged (c : Connection) (tls : Tls) (id remote : UInt32) :
    Connection :=
  { c with
    tls := tls
    transcript := c.transcript ++
      [.accepted id (.payload []), .sent ⟨OKAY, id, remote, []⟩] }

/-- There is a slot and an id for one more stream. -/
structure CanAllocate (c : Connection) : Prop where
  slot : c.streams.size < maxStreams
  id : c.next.toNat + 1 < UInt32.size

theorem allocate_spec :
    wp allocate
      (fun id c' => c.CanAllocate ∧ id = c.next ∧
        c' = { c with next := c.next + 1 })
      (fun error c' => c' = c ∧
        (¬c.streams.size < maxStreams ∨
          UInt32.size ≤ c.next.toNat + 1 ∧ error = "stream IDs exhausted"))
      c := by
  simp only [allocate, wp_bind, wp_get, wp_ensure, wp_modify, wp_pure]
  exact ⟨fun hslot => ⟨fun hid => ⟨⟨hslot, hid⟩, trivial, trivial⟩,
    fun hid => ⟨trivial, .inr ⟨not_lt.mp hid, trivial⟩⟩⟩,
    fun hslot => ⟨trivial, .inl hslot⟩⟩

/-- What the connection does with a packet that it does not reject. -/
inductive Handled (io : Io) (p : Packet) (c : Connection) : Connection → Prop
  | openHost (source : Source) (c₁ : Connection) (tls : Tls)
      (hcommand : p.command = OPEN) (hremote : p.arg0 ≠ 0)
      (hfresh : ∀ (id : UInt32) (s : Stream), c.streams[id]? = some s →
        s.remote ≠ p.arg0)
      (htalks : Talks c c₁) (hallocate : c.CanAllocate) :
      Handled io p c
        (c₁.opened c.next (hostStream p.arg0 source) tls
          ⟨OKAY, c.next, p.arg0, []⟩)
  | refuseOpen (c₁ : Connection) (tls : Tls) (hcommand : p.command = OPEN)
      (hremote : p.arg0 ≠ 0) (htalks : Talks c c₁) :
      Handled io p c (c₁.withSent tls [⟨CLSE, 0, p.arg0, []⟩])
  | ackOpen (s : Stream) (hcommand : p.command = OKAY)
      (hstream : c.streams[p.arg1]? = some s) (hremote : p.arg0 ≠ 0)
      (hopening : s.opening.isSome) (hunbound : s.remote = 0) :
      Handled io p c
        (c.updated p.arg1 { s with opening := none, remote := p.arg0 } .opened)
  | ackData (s : Stream) (hcommand : p.command = OKAY)
      (hstream : c.streams[p.arg1]? = some s) (hopening : s.opening = none)
      (hremote : s.remote = p.arg0) (hwaiting : s.waiting = true) :
      Handled io p c
        (c.updated p.arg1 { s with waiting := false } .acknowledged)
  | write (s : Stream) (hcommand : p.command = WRTE)
      (hstream : c.streams[p.arg1]? = some s) (hremote : s.remote = p.arg0)
      (hopening : s.opening = none) (hclosing : s.closing = none)
      (hdata : p.data ≠ []) (hlimit : s.pending.length < 64)
      (hqueue : c.queuedInput + p.data.length ≤ 8 * 1024 * 1024) :
      Handled io p c
        (c.updated p.arg1 { s with pending := s.pending ++ [p.data] }
          (.payload p.data))
  | writeEmpty (s : Stream) (tls : Tls) (hcommand : p.command = WRTE)
      (hstream : c.streams[p.arg1]? = some s) (hremote : s.remote = p.arg0)
      (hopening : s.opening = none) (hclosing : s.closing = none)
      (hdata : p.data = []) :
      Handled io p c (c.acknowledged tls p.arg1 p.arg0)
  | writeStray (tls : Tls) (hcommand : p.command = WRTE)
      (hstream : c.streams[p.arg1]? = none) :
      Handled io p c (c.withSent tls [⟨CLSE, p.arg1, p.arg0, []⟩])
  | close (s : Stream) (hcommand : p.command = CLSE)
      (hstream : c.streams[p.arg1]? = some s)
      (hid : p.arg0 = s.remote ∨ s.opening.isSome ∧ p.arg0 = 0) :
      Handled io p c
        (c.updated p.arg1 { s with closing := some io.now } (.closed io.now))
  | stray (hcommand : p.command = OKAY ∨ p.command = CLSE)
      (hstream : c.streams[p.arg1]? = none) : Handled io p c c

/-- The reasons for which a packet ends the connection. -/
inductive Rejects (io : Io) (p : Packet) (c : Connection) : String → Prop
  | command (hcommand : p.command ∉ [OPEN, OKAY, WRTE, CLSE]) :
      Rejects io p c "unsupported ADB command after authentication"
  | openIds (hcommand : p.command = OPEN) (hids : ¬(p.arg0 ≠ 0 ∧ p.arg1 = 0)) :
      Rejects io p c "invalid OPEN IDs"
  | duplicate (hcommand : p.command = OPEN) (id : UInt32) (s : Stream)
      (hstream : c.streams[id]? = some s) (hremote : s.remote = p.arg0) :
      Rejects io p c "duplicate remote stream ID"
  | exhausted (hcommand : p.command = OPEN)
      (hids : UInt32.size ≤ c.next.toNat + 1) :
      Rejects io p c "stream IDs exhausted"
  | okayForm (s : Stream) (hcommand : p.command = OKAY)
      (hstream : c.streams[p.arg1]? = some s)
      (hform : ¬(p.data = [] ∧ p.arg0 ≠ 0)) :
      Rejects io p c "invalid acknowledgement"
  | okayOpen (s : Stream) (hcommand : p.command = OKAY)
      (hstream : c.streams[p.arg1]? = some s) (hopening : s.opening.isSome)
      (hbound : s.remote ≠ 0) : Rejects io p c "unexpected open acknowledgement"
  | okayData (s : Stream) (hcommand : p.command = OKAY)
      (hstream : c.streams[p.arg1]? = some s) (hopening : s.opening = none)
      (hunexpected : ¬(s.remote = p.arg0 ∧ s.waiting = true)) :
      Rejects io p c "unexpected acknowledgement"
  | queueLimit (hcommand : p.command = WRTE)
      (hqueue : 8 * 1024 * 1024 < c.queuedInput + p.data.length) :
      Rejects io p c "stream input queue limit"
  | ordering (s : Stream) (hcommand : p.command = WRTE)
      (hstream : c.streams[p.arg1]? = some s)
      (hordering : ¬(s.remote = p.arg0 ∧ s.opening = none ∧ s.closing = none)) :
      Rejects io p c "invalid stream write ordering"
  | packetLimit (s : Stream) (hcommand : p.command = WRTE)
      (hstream : c.streams[p.arg1]? = some s)
      (hlimit : 64 ≤ s.pending.length) :
      Rejects io p c "stream pending packet limit"
  | closeId (s : Stream) (hcommand : p.command = CLSE)
      (hstream : c.streams[p.arg1]? = some s)
      (hid : ¬(p.arg0 = s.remote ∨ s.opening.isSome ∧ p.arg0 = 0)) :
      Rejects io p c "invalid close ID"
  | tls (error : String) (n : ℕ) (tls : Tls) (bytes : Bytes)
      (htls : io.tlsWrite n tls bytes = .error error) : Rejects io p c error

/-- Nothing was written to a service and nothing was accepted but perhaps an
empty payload. -/
def Quiet (c c' : Connection) : Prop :=
  ∃ rest, c'.transcript = c.transcript ++ rest ∧ ∀ o ∈ rest,
    (∃ p, o = .sent p) ∨ (∃ r, o = .called r) ∨
      ∃ id, o = .accepted id (.payload [])

theorem Quiet.refl (c : Connection) : Quiet c c := ⟨[], by simp⟩

theorem Quiet.of_talks (h : Talks c c') : Quiet c c' := by
  obtain ⟨reverse, calls, rfl⟩ := h
  refine ⟨calls.map .called, rfl, fun o ho => .inr (.inl ?_)⟩
  obtain ⟨r, -, rfl⟩ := List.mem_map.mp ho
  exact ⟨r, rfl⟩

/-- A packet without payload fails to be written only when TLS does. -/
theorem write_error {p : Packet} {n : ℕ} {tls : Tls} {error : String}
    (hdata : p.data = [])
    (h : p.write (io.tlsWrite n tls) false = .error error) :
    ∃ bytes, io.tlsWrite n tls bytes = .error error := by
  unfold Packet.write at h
  rw [hdata] at h
  exact ⟨_, by simpa using h⟩

theorem handleOpen_spec {p : Packet} (hcommand : p.command = OPEN) :
    wp (handleOpen io p) (fun _ => Handled io p c)
      (fun error c' => Rejects io p c error ∧ Quiet c c') c := by
  simp only [handleOpen, wp_bind, wp_get, wp_ensure, wp_ite]
  refine ⟨fun hids => ?_, fun hids => ⟨.openIds hcommand hids, .refl c⟩⟩
  obtain ⟨hremote, -⟩ := hids
  refine ⟨fun hfresh => ⟨fun hfull => ?_, fun hslot => ?_⟩, fun hduplicate => ?_⟩
  · refine wp_mono (send_spec _) ?_ ?_
    · rintro _ _ ⟨tls, -, rfl⟩
      exact .refuseOpen c tls hcommand hremote (.refl c)
    · rintro error _ ⟨rfl, herror⟩
      obtain ⟨bytes, hbytes⟩ := write_error rfl herror
      exact ⟨.tls error _ _ bytes hbytes, .refl _⟩
  · simp only [wp_attempt]
    refine wp_mono (openService_talks p.data) ?_ ?_
    · intro source c₁ htalks
      have hquiet := Quiet.of_talks htalks
      obtain ⟨reverse, calls, rfl⟩ := id htalks
      simp only [wp_bind, wp_attempt]
      refine wp_mono allocate_spec ?_ ?_
      · rintro _ _ ⟨⟨hslot, hid⟩, rfl, rfl⟩
        simp only [wp_bind, putStream, wp_modify]
        refine wp_mono (send_spec _) ?_ ?_
        · rintro _ _ ⟨tls, -, rfl⟩
          refine .openHost source _ tls hcommand hremote ?_ htalks ⟨hslot, hid⟩
          intro id s hs heq
          exact hfresh ⟨(id, s), Std.TreeMap.mem_toList_iff_getElem?_eq_some.mpr hs,
            heq⟩
        · rintro error _ ⟨rfl, herror⟩
          obtain ⟨bytes, hbytes⟩ := write_error rfl herror
          exact ⟨.tls error _ _ bytes hbytes, hquiet⟩
      · rintro error _ ⟨rfl, hfull | ⟨hids, rfl⟩⟩
        · exact absurd (not_le.mp hslot) hfull
        · simp only [wp_bind]
          refine wp_mono (dropSource_talks source) ?_ (fun _ _ h => h.elim)
          intro _ c₂ htalks₂
          exact ⟨.exhausted hcommand hids, .of_talks (htalks.trans htalks₂)⟩
    · intro error c₁ htalks
      refine wp_mono (send_spec _) ?_ ?_
      · rintro _ _ ⟨tls, -, rfl⟩
        exact .refuseOpen c₁ tls hcommand hremote htalks
      · rintro error _ ⟨rfl, herror⟩
        obtain ⟨bytes, hbytes⟩ := write_error rfl herror
        exact ⟨.tls error _ _ bytes hbytes, .of_talks htalks⟩
  · obtain ⟨⟨id, s⟩, hmem, hsame⟩ := not_not.mp hduplicate
    exact ⟨.duplicate hcommand id s
      (Std.TreeMap.mem_toList_iff_getElem?_eq_some.mp hmem) hsame, .refl c⟩

theorem handleOkay_spec {p : Packet} (hcommand : p.command = OKAY) :
    wp (handleOkay p) (fun _ => Handled io p c)
      (fun error c' => Rejects io p c error ∧ Quiet c c') c := by
  simp only [handleOkay, wp_bind, wp_get]
  cases hstream : c.streams[p.arg1]? with
  | none => exact .stray (.inl hcommand) hstream
  | some s =>
      simp only [wp_bind, wp_ensure, wp_ite, putStream, observe, wp_modify,
        wp_throw]
      refine ⟨fun hform => ⟨fun hopening => ⟨fun hunbound => ?_,
        fun hbound => ?_⟩, fun hopening => ⟨fun hexpected => ?_,
        fun hunexpected => ?_⟩⟩, fun hform => ?_⟩
      · exact .ackOpen s hcommand hstream hform.2 hopening hunbound
      · exact ⟨.okayOpen s hcommand hstream hopening hbound, [], by simp⟩
      · exact .ackData s hcommand hstream (by simpa using hopening) hexpected.1
          hexpected.2
      · exact ⟨.okayData s hcommand hstream (by simpa using hopening) hunexpected,
          .refl c⟩
      · exact ⟨.okayForm s hcommand hstream hform, .refl c⟩

theorem handleWrte_spec {p : Packet} (hcommand : p.command = WRTE) :
    wp (handleWrte io p) (fun _ => Handled io p c)
      (fun error c' => Rejects io p c error ∧ Quiet c c') c := by
  simp only [handleWrte, wp_bind, wp_get, wp_ensure]
  refine ⟨fun hqueue => ?_, fun hfull =>
    ⟨.queueLimit hcommand (not_le.mp hfull), .refl c⟩⟩
  cases hstream : c.streams[p.arg1]? with
  | none =>
      refine wp_mono (send_spec _) ?_ ?_
      · rintro _ _ ⟨tls, -, rfl⟩
        exact .writeStray tls hcommand hstream
      · rintro error _ ⟨rfl, herror⟩
        obtain ⟨bytes, hbytes⟩ := write_error rfl herror
        exact ⟨.tls error _ _ bytes hbytes, .refl _⟩
  | some s =>
      simp only [wp_bind, wp_ensure, wp_ite, observe, wp_modify]
      refine ⟨fun hordering => ?_, fun hordering =>
        ⟨.ordering s hcommand hstream hordering, .refl c⟩⟩
      obtain ⟨hremote, hopening, hclosing⟩ := hordering
      refine ⟨fun hdata => ?_, fun hdata => ?_⟩
      · refine wp_mono (send_spec _) ?_ ?_
        · rintro _ _ ⟨tls, -, rfl⟩
          have hhandled := @Handled.writeEmpty io p _ s tls hcommand hstream
            hremote hopening hclosing hdata
          simpa [acknowledged] using hhandled
        · rintro error _ ⟨rfl, herror⟩
          obtain ⟨bytes, hbytes⟩ := write_error rfl herror
          exact ⟨.tls error _ _ bytes hbytes, _, rfl, by simp⟩
      · simp only [Stream.enqueue, putStream]
        split
        · next hlimit =>
          exact .write s hcommand hstream hremote hopening hclosing hdata hlimit
            hqueue
        · next hlimit =>
          exact ⟨.packetLimit s hcommand hstream (not_lt.mp hlimit), .refl c⟩

theorem handleClse_spec {p : Packet} (hcommand : p.command = CLSE) :
    wp (handleClse io p) (fun _ => Handled io p c)
      (fun error c' => Rejects io p c error ∧ Quiet c c') c := by
  simp only [handleClse, wp_bind, wp_get]
  cases hstream : c.streams[p.arg1]? with
  | none => exact .stray (.inr hcommand) hstream
  | some s =>
      simp only [wp_bind, wp_ensure, putStream, observe, wp_modify]
      exact ⟨fun hid => .close s hcommand hstream hid,
        fun hid => ⟨.closeId s hcommand hstream hid, .refl c⟩⟩

theorem handle_spec (p : Packet) :
    wp (handle io p) (fun _ => Handled io p c)
      (fun error c' => Rejects io p c error ∧ Quiet c c') c := by
  simp only [handle, wp_ite, wp_throw]
  refine ⟨handleOpen_spec, fun hopen => ⟨handleOkay_spec, fun hokay =>
    ⟨handleWrte_spec, fun hwrte => ⟨handleClse_spec, fun hclse => ?_⟩⟩⟩⟩
  exact ⟨.command (by simp [hopen, hokay, hwrte, hclse]), .refl c⟩

end Altdb.Connection
