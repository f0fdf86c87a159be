import Altdb.ServicePass

/-!
# Invariants of a connection

Whatever the host sends and whatever the kernel and the supervisor answer, an
event changes a connection in few ways: it sends a packet, makes a request,
changes a stream, adds a listener or removes one.  An invariant that survives
these changes survives every event, whether the event fails or not.
-/

namespace Altdb

open Fallible

/-- What the check of an endpoint has seen. -/
theorem validateEndpoint_cases {spec : String} {zero : Bool} {value : Unit}
    (h : validateEndpoint spec zero = .ok value) :
    (spec.utf8ByteSize ≤ 1024 ∧
      ¬spec.toList.any fun c => c ∈ ['\x00', ';', '\n', '\r']) ∧
    (stripPrefix "tcp:" spec = none → ∃ address, unixAddress spec = .ok address) := by
  unfold validateEndpoint at h
  by_cases hform : spec.utf8ByteSize ≤ 1024 ∧
      ¬spec.toList.any fun c => c ∈ ['\x00', ';', '\n', '\r']
  · refine ⟨hform, fun hstrip => ?_⟩
    rw [if_neg (not_not.mpr hform), hstrip] at h
    cases haddress : unixAddress spec with
    | ok address => exact ⟨address, rfl⟩
    | error error =>
        rw [haddress] at h
        cases h
  · rw [if_pos hform] at h
    cases h

theorem validateEndpoint_size {spec : String} {zero : Bool} {value : Unit}
    (h : validateEndpoint spec zero = .ok value) : spec.utf8ByteSize ≤ 1024 :=
  (validateEndpoint_cases h).1.1

namespace Stream

/-- A read leaves a socket the socket that it was. -/
theorem read_socket {source : Source} {outcome : ReadOutcome} {size : ℕ}
    {socket : ServiceSocket}
    (h : (source.read outcome size).2 = .socket socket) :
    source = .socket socket := by
  cases source with
  | bytes rest => cases h
  | socket own => cases outcome <;> exact h

theorem serviceRead_socket {io : Io} {queued max : ℕ} {id : UInt32} {s : Stream}
    {observations : List Observation} {events : List Packet} {work : Bool}
    {socket : ServiceSocket}
    (h : (s.serviceRead io queued max id observations events work).stream.source =
      .socket socket) : s.source = .socket socket := by
  unfold serviceRead at h
  split at h
  · split at h
    · exact h
    · next hread =>
      exact read_socket ((congrArg Prod.snd hread).trans h)
    · exact h
    · exact h
  · exact h

theorem service_socket {io : Io} {queued max : ℕ} {id : UInt32} {s : Stream}
    {socket : ServiceSocket}
    (h : (s.service io queued max id).stream.source = .socket socket) :
    s.source = .socket socket := by
  obtain ⟨pending, offset, hflushed⟩ := s.flushPending_frame false (io.write id)
  have hsource : (s.flushPending false (io.write id)).stream.source = s.source := by
    rw [hflushed]
  unfold service at h
  split at h
  · exact h
  · dsimp only at h
    split at h
    · exact hsource.symm.trans h
    · split at h
      · exact hsource.symm.trans h
      · exact hsource.symm.trans (serviceRead_socket h)

end Stream

namespace Connection

variable {io : Io} {c c' : Connection} {good : Source → Prop} {inv : Connection → Prop}

/-! ## What an event does -/

/-- The largest payload of the packets with a command that a connection sends.
An `OPEN` names the target of a reverse connection. -/
def payloadLimit (max : ℕ) (command : UInt32) : ℕ :=
  if command = OPEN then 1025 else min max chunkSize

/-- The requests of an event, a removal of a listener apart. -/
def Asked (good : Source → Prop) (c : Connection) : Request → Prop
  | .root transport _ => transport = c.transport
  | .spawn transport name => transport = c.transport ∧ name.utf8ByteSize ≤ 4095
  | .bindReverse transport spec =>
      transport = c.transport ∧ validateEndpoint spec true = .ok ()
  | .closeService transport service =>
      ∃ fd, good (.socket ⟨fd, some (transport, service)⟩)
  | _ => False

/-- What is observed during an event. -/
def Regular (good : Source → Prop) (c : Connection) : Observation → Prop
  | .sent p => p.data.length ≤ payloadLimit c.max p.command
  | .called request => Asked good c request
  | _ => True

/-- The targets that a connection offers streams for are valid. -/
def Aimed (c : Connection) : Prop :=
  ∀ (spec : String) (r : Reverse), c.reverse[spec]? = some r →
    validateEndpoint r.target false = .ok ()

/-- The invariant survives the changes of an event.  The sources of its streams
are good ones. -/
structure Steady (io : Io) (good : Source → Prop) (inv : Connection → Prop) : Prop where
  bytes : ∀ body, good (.bytes body)
  accepted : ∀ fd, good (.socket ⟨fd, none⟩)
  spawned : ∀ {c : Connection} (fd : Fd) (service : UInt32), inv c →
    good (.socket ⟨fd, some (c.transport, service)⟩)
  sources : ∀ {c : Connection} {id : UInt32} {s : Stream}, inv c →
    c.streams[id]? = some s → good s.source
  aimed : ∀ {c : Connection}, inv c → c.Aimed
  congr : ∀ {c c' : Connection}, inv c → c'.transport = c.transport → c'.max = c.max →
    c'.reverse = c.reverse → c'.transcript = c.transcript →
    (∀ (id : UInt32) (s : Stream), c'.streams[id]? = some s → good s.source) → inv c'
  log : ∀ {c : Connection} {observations : List Observation}, inv c →
    (∀ o ∈ observations, Regular good c o) →
    inv { c with transcript := c.transcript ++ observations }
  remove : ∀ {c : Connection} {spec : String}, inv c → spec ∈ c.reverse →
    inv { c with
      reverse := c.reverse.erase spec
      transcript := c.transcript ++ [.called (.closeReverse c.transport spec)] }
  insert : ∀ {c : Connection} {localSpec remoteSpec actual : String} {fd : Fd},
    inv c → c.reverse.size < 16 → validateEndpoint localSpec true = .ok () →
    validateEndpoint remoteSpec false = .ok () →
    io.broker (.bindReverse c.transport localSpec) = .ok (actual, [fd]) →
    inv { c with reverse := c.reverse.insert actual ⟨fd, remoteSpec⟩ }

theorem Aimed.erase (h : c.Aimed) (spec : String) (transcript : List Observation) :
    Aimed { c with reverse := c.reverse.erase spec, transcript := transcript } := by
  intro other r hr
  change (c.reverse.erase spec)[other]? = some r at hr
  rw [Std.TreeMap.getElem?_erase] at hr
  split at hr
  · cases hr
  · exact h other r hr

theorem Aimed.insert (h : c.Aimed) {target : String}
    (htarget : validateEndpoint target false = .ok ()) (spec : String) (fd : Fd) :
    Aimed { c with reverse := c.reverse.insert spec ⟨fd, target⟩ } := by
  intro other r hr
  change (c.reverse.insert spec ⟨fd, target⟩)[other]? = some r at hr
  rw [Std.TreeMap.getElem?_insert] at hr
  split at hr
  · obtain rfl := Option.some_inj.mp hr
    exact htarget
  · exact h other r hr

/-- A change of what does not matter. -/
theorem Steady.same (h : Steady io good inv) (hc : inv c) (htransport : c'.transport = c.transport)
    (hmax : c'.max = c.max) (hstreams : c'.streams = c.streams)
    (hreverse : c'.reverse = c.reverse) (htranscript : c'.transcript = c.transcript) : inv c' := by
  refine h.congr hc htransport hmax hreverse htranscript fun id s hs => ?_
  rw [hstreams] at hs
  exact h.sources hc hs

/-! ## Packets and calls -/

theorem accept_steady (h : Steady io good inv) (id : UInt32) (what : Acceptance) :
    Preserves inv (observe (.accepted id what)) :=
  .modify fun _ hc => h.log hc fun o ho => by
    rw [List.mem_singleton.mp ho]
    trivial

/-- A request of the connection as it is. -/
theorem call_steady (h : Steady io good inv) (request : Request) (hc : inv c)
    (hasked : Asked good c request) :
    wp (call io request) (fun value c' => inv c' ∧ io.broker request = .ok value ∧
      c'.transport = c.transport ∧ c'.reverse = c.reverse) (fun _ => inv) c := by
  have hlogged : inv { c with transcript := c.transcript ++ [.called request] } :=
    h.log hc fun o ho => by
      rw [List.mem_singleton.mp ho]
      exact hasked
  refine wp_mono (call_spec request) ?_ ?_
  · rintro value _ ⟨hvalue, rfl⟩
    exact ⟨hlogged, hvalue, rfl, rfl⟩
  · rintro error _ ⟨-, rfl⟩
    exact hlogged

theorem send_steady (h : Steady io good inv) {p : Packet} (hc : inv c)
    (hp : p.data.length ≤ payloadLimit c.max p.command) :
    wp (send io p) (fun _ => inv) (fun _ => inv) c := by
  refine wp_mono (send_spec p) ?_ ?_
  · rintro _ _ ⟨tls, -, rfl⟩
    have hwritten : inv { c with tls := tls } := h.same hc rfl rfl rfl rfl rfl
    refine h.log hwritten fun o ho => ?_
    rw [List.mem_singleton.mp ho]
    exact hp
  · rintro _ _ ⟨rfl, -⟩
    exact hc

/-- A packet without payload fits. -/
theorem reply_steady (h : Steady io good inv) (command a b : UInt32) :
    Preserves inv (packet io command a b []) :=
  fun _ hc => send_steady h hc (Nat.zero_le _)

theorem putStream_steady (h : Steady io good inv) (id : UInt32) {s : Stream}
    (hs : good s.source) : Preserves inv (putStream id s) := by
  refine .modify fun c hc => h.congr hc rfl rfl rfl rfl fun other t ht => ?_
  change (c.streams.insert id s)[other]? = some t at ht
  rw [streams_insert] at ht
  split at ht
  · obtain rfl := Option.some_inj.mp ht
    exact hs
  · exact h.sources hc ht

theorem allocate_steady (h : Steady io good inv) : Preserves inv allocate :=
  .get_bind fun _ _ => .bind (.ensure _ _) fun _ => .bind (.ensure _ _) fun _ =>
    .bind (.modify fun _ hc => h.same hc rfl rfl rfl rfl rfl) fun _ => .pure _

theorem dropSource_steady (h : Steady io good inv) {source : Source} (hsource : good source) :
    Preserves inv (dropSource io source) := by
  unfold dropSource
  split
  · next fd transport service =>
    refine .bind (.attempt fun c hc => ?_) fun _ => .pure _
    exact wp_mono (call_steady h (.closeService transport service) hc ⟨fd, hsource⟩)
      (fun _ _ hcalled => hcalled.1) fun _ _ hc => hc
  · exact .pure _

/-! ## Reverse forwarding -/

theorem removeReverse_steady (h : Steady io good inv) (spec : String) :
    Preserves inv (removeReverse io spec) := by
  intro c hc
  simp only [removeReverse, wp_bind, wp_get, wp_ensure, wp_modify]
  refine ⟨fun hspec => wp_mono (call_spec _) ?_ ?_, fun _ => hc⟩
  · rintro _ _ ⟨-, rfl⟩
    exact h.remove hc hspec
  · rintro _ _ ⟨-, rfl⟩
    exact h.remove hc hspec

theorem reverseBind_steady (h : Steady io good inv) {localSpec remoteSpec : String}
    (hlocal : validateEndpoint localSpec true = .ok ())
    (hremote : validateEndpoint remoteSpec false = .ok ()) :
    Preserves inv (reverseBind io localSpec remoteSpec) := by
  intro c hc
  simp only [reverseBind, wp_bind, wp_get, wp_ensure]
  refine ⟨fun hsize => ?_, fun _ => hc⟩
  refine wp_mono (call_steady h (.bindReverse c.transport localSpec) hc ⟨rfl, hlocal⟩) ?_
    fun _ _ hc => hc
  rintro ⟨actual, fds⟩ c₁ ⟨hc₁, hbound, htransport, hreverse⟩
  dsimp only
  split
  · simp only [wp_bind, wp_lift, wp_modify]
    refine ⟨fun _ _ => ?_, fun _ _ => hc₁⟩
    have hinserted := h.insert hc₁ (hreverse ▸ hsize) hlocal hremote (htransport ▸ hbound)
    split <;> exact hinserted
  · exact hc₁

theorem reverseForward_steady (h : Steady io good inv) (command : String) :
    Preserves inv (reverseForward io command) := by
  unfold reverseForward
  dsimp only
  split
  · exact .throw _
  · next localSpec remoteSpec _ =>
    refine .lift_bind fun _ hlocal => .lift_bind fun _ hremote => .get_bind fun _ _ => ?_
    have hbind := reverseBind_steady h hlocal hremote
    refine .ite (.bind (.ensure _ _) fun _ => ?_) hbind
    exact .bind (removeReverse_steady h localSpec) fun _ => hbind

theorem reverseCommand_steady (h : Steady io good inv) (command : String) :
    Preserves inv (reverseCommand io command) := by
  unfold reverseCommand
  refine .ite (.get_bind fun _ _ => .pure _) (.ite (.get_bind fun c _ => ?_) ?_)
  · exact .bind (.forM (removeReverse_steady h) c.reverse.keys) fun _ => .pure _
  · split
    · next spec _ =>
      exact .bind (removeReverse_steady h spec) fun _ => .pure _
    · split
      · next command _ => exact reverseForward_steady h command
      · exact .throw _

/-! ## Packets of the host -/

/-- The name of a service is at most the payload without its last byte. -/
theorem serviceName_size {data : Bytes} {name : String}
    (hsize : data.length ≤ 4096)
    (hname : String.fromUTF8? ⟨data.dropLast.toArray⟩ = some name) :
    name.utf8ByteSize ≤ 4095 := by
  have hbytes : name.toByteArray = ⟨data.dropLast.toArray⟩ := by
    unfold String.fromUTF8? at hname
    split at hname
    · obtain rfl := Option.some_inj.mp hname
      rfl
    · cases hname
  have hlength : name.toByteArray.size = data.length - 1 := by
    rw [hbytes]
    simp [ByteArray.size]
  rw [← String.size_toByteArray, hlength]
  omega

theorem openService_steady (h : Steady io good inv) (data : Bytes) (hc : inv c) :
    wp (openService io data) (fun source c' => good source ∧ inv c') (fun _ => inv) c := by
  simp only [openService, wp_bind, wp_ensure]
  refine ⟨fun ⟨_, hlength, _⟩ => ?_, fun _ => hc⟩
  split
  · exact hc
  · next name hname =>
    have hsize := serviceName_size hlength hname
    simp only [wp_bind, wp_ensure, wp_ite, wp_get, wp_attempt]
    refine ⟨fun _ => ⟨fun _ => ?_, fun _ => ?_⟩, fun _ => hc⟩
    · refine wp_mono (call_steady h (.root c.transport (name = "root:")) hc rfl) ?_ ?_
      · exact fun _ _ hcalled => ⟨h.bytes _, hcalled.1⟩
      · exact fun _ _ hc => ⟨h.bytes _, hc⟩
    · split
      · next command _ =>
        simp only [wp_bind, wp_attempt]
        refine wp_mono (reverseCommand_steady h command c hc) ?_ ?_
        · exact fun _ _ hc => ⟨h.bytes _, hc⟩
        · exact fun _ _ hc => ⟨h.bytes _, hc⟩
      · simp only [wp_bind, wp_get]
        refine wp_mono (call_steady h (.spawn c.transport name) hc ⟨rfl, hsize⟩) ?_
          fun _ _ hc => hc
        rintro ⟨id, fds⟩ c₁ ⟨hc₁, -, htransport, -⟩
        dsimp only
        split
        · next fd =>
          simp only [wp_bind, wp_lift, wp_pure]
          refine ⟨fun _ _ => ⟨fun service _ => ⟨?_, hc₁⟩, fun _ _ => hc₁⟩, fun _ _ => hc₁⟩
          exact htransport ▸ h.spawned fd service hc₁
        · exact hc₁

theorem handleOpen_steady (h : Steady io good inv) (p : Packet) :
    Preserves inv (handleOpen io p) := by
  refine .bind (.ensure _ _) fun _ => .get_bind fun _ _ =>
    .bind (.ensure _ _) fun _ => .get_bind fun _ _ => .ite (reply_steady h _ _ _) ?_
  refine .bind_of (P := fun result => ∀ source, result = .ok source → good source)
    (fun c hc => ?_) fun result hresult => ?_
  · rw [wp_attempt]
    refine wp_mono (openService_steady h p.data hc) ?_ ?_
    · rintro source c' ⟨hsource, hc'⟩
      refine ⟨fun other hother => ?_, hc'⟩
      obtain rfl := Except.ok.inj hother
      exact hsource
    · exact fun _ _ hc' => ⟨nofun, hc'⟩
  · cases result with
    | error error => exact reply_steady h _ _ _
    | ok source =>
        have hsource := hresult source rfl
        refine .bind (.attempt (allocate_steady h)) fun allocated => ?_
        cases allocated with
        | ok id => exact .bind (putStream_steady h id hsource) fun _ => reply_steady h _ _ _
        | error error => exact .bind (dropSource_steady h hsource) fun _ => .throw _

theorem handleOkay_steady (h : Steady io good inv) (p : Packet) :
    Preserves inv (handleOkay p) := by
  refine .get_bind fun c hc => ?_
  cases hstream : c.streams[p.arg1]? with
  | none => exact .pure _
  | some s =>
      have hput (s' : Stream) (hsame : s'.source = s.source) :
          Preserves inv (putStream p.arg1 s') :=
        putStream_steady h _ (hsame ▸ h.sources hc hstream)
      refine .bind (.ensure _ _) fun _ => .ite (.ite ?_ ?_) ?_
      · exact .bind (hput _ rfl) fun _ => accept_steady h _ _
      · exact .bind (hput _ rfl) fun _ => .throw _
      · exact .bind (.ensure _ _) fun _ => .bind (hput _ rfl) fun _ => accept_steady h _ _

theorem enqueue_source {s s' : Stream} {data : Bytes}
    (h : s.enqueue data = .ok s') : s'.source = s.source := by
  unfold Stream.enqueue at h
  split at h
  · obtain rfl := Except.ok.inj h
    rfl
  · cases h

theorem handleWrte_steady (h : Steady io good inv) (p : Packet) :
    Preserves inv (handleWrte io p) := by
  refine .get_bind fun _ _ => .bind (.ensure _ _) fun _ => .get_bind fun c hc => ?_
  cases hstream : c.streams[p.arg1]? with
  | none => exact reply_steady h _ _ _
  | some s =>
      have hsource := h.sources hc hstream
      refine .bind (.ensure _ _) fun _ => .ite ?_ ?_
      · exact .bind (accept_steady h _ _) fun _ => reply_steady h _ _ _
      · refine .lift_bind fun s' hs' => ?_
        exact .bind (putStream_steady h _ (enqueue_source hs' ▸ hsource)) fun _ =>
          accept_steady h _ _

theorem handleClse_steady (h : Steady io good inv) (p : Packet) :
    Preserves inv (handleClse io p) := by
  refine .get_bind fun c hc => ?_
  cases hstream : c.streams[p.arg1]? with
  | none => exact .pure _
  | some s =>
      have hsource : good s.source := h.sources hc hstream
      exact .bind (.ensure _ _) fun _ => .bind (putStream_steady h _ hsource) fun _ =>
        accept_steady h _ _

/-! ## Services and reverse connections -/

theorem closeStream_steady (h : Steady io good inv) (id : UInt32) :
    Preserves inv (closeStream io id) := by
  refine .get_bind fun c hc => ?_
  cases hstream : c.streams[id]? with
  | none => exact .pure _
  | some s =>
      refine .bind (.modify fun c' hc' => ?_) fun _ => .bind (.attempt (reply_steady h _ _ _))
        fun _ => .bind (dropSource_steady h (h.sources hc hstream)) fun _ => .lift _
      refine h.congr hc' rfl rfl rfl rfl fun other s' hs' => ?_
      change (c'.streams.erase id)[other]? = some s' at hs'
      rw [Std.TreeMap.getElem?_erase] at hs'
      split at hs'
      · cases hs'
      · exact h.sources hc' hs'

/-- What a service has written fits into one packet. -/
theorem events_bounded {id : UInt32} {s : Stream} :
    ∀ p ∈ (passed io c id s).events,
      p.command ≠ OPEN ∧ p.data.length ≤ min c.max chunkSize := by
  have hdrained (after : Stream) : ∀ p ∈ s.drained after id,
      p.command ≠ OPEN ∧ p.data.length ≤ min c.max chunkSize := by
    intro p hp
    obtain rfl := Stream.mem_drained hp
    exact ⟨okay_ne_open, Nat.zero_le _⟩
  have hpass := s.service_pass io c.tls.queued c.max id
  rw [passed]
  generalize s.service io c.tls.queued c.max id = r at hpass ⊢
  cases hpass with
  | timeout | writeFailed | closing => simp
  | ended | idle => exact hdrained _
  | read source data work hresult hclosing hopening hwaiting hdata hlength =>
      intro p hp
      rcases List.mem_append.mp hp with hp | hp
      · exact hdrained _ p hp
      · obtain rfl := List.mem_singleton.mp hp
        exact ⟨wrte_ne_open, hlength⟩

theorem looped_steady (h : Steady io good inv) (hc : inv c) : inv (looped io c) := by
  have hstreams : inv { c with streams := (looped io c).streams } := by
    refine h.congr hc rfl rfl rfl rfl fun id s' hs' => ?_
    change (looped io c).streams[id]? = some s' at hs'
    rw [looped_streams] at hs'
    obtain ⟨s, hs, rfl⟩ := Option.map_eq_some_iff.mp hs'
    cases hsource : (passed io c id s).stream.source with
    | bytes rest => exact h.bytes rest
    | socket socket => exact Stream.service_socket hsource ▸ h.sources hc hs
  refine h.log hstreams fun o ho => ?_
  obtain ⟨⟨id, result⟩, hresult, ho⟩ := List.mem_flatMap.mp ho
  obtain ⟨s, -, rfl⟩ := mem_results.mp hresult
  rcases (service_log_about io c.tls.queued c.max id s).1 _ ho with
    ⟨data, rfl⟩ | ⟨data, rfl⟩
  · trivial
  · trivial

theorem services_steady (h : Steady io good inv) : Preserves inv (services io) := by
  intro c hc
  have hsent : ∀ (tls : Tls) (written : List Packet),
      written ⊆ (results io c).flatMap (fun r => r.2.events) →
      inv ((looped io c).withSent tls written) := by
    intro tls written hsub
    have hwritten : inv { looped io c with tls := tls } :=
      h.same (looped_steady h hc) rfl rfl rfl rfl rfl
    refine h.log hwritten fun o ho => ?_
    obtain ⟨p, hp, rfl⟩ := List.mem_map.mp ho
    obtain ⟨⟨id, result⟩, hresult, hp⟩ := List.mem_flatMap.mp (hsub hp)
    obtain ⟨s, -, rfl⟩ := mem_results.mp hresult
    obtain ⟨hcommand, hlength⟩ := events_bounded p hp
    show p.data.length ≤ payloadLimit c.max p.command
    rwa [payloadLimit, if_neg hcommand]
  simp only [services, wp_bind, wp_get, wp_modify]
  change wp _ _ _ (looped io c)
  refine wp_mono (forM_send_spec _) ?_ ?_
  · rintro _ _ ⟨tls, rfl⟩
    have hclose : Preserves inv ((ended io c).forM (closeStream io)) :=
      .forM (closeStream_steady h) _
    simp only [wp_bind]
    exact wp_mono (hclose _ (hsent tls _ (List.Subset.refl _)))
      (fun _ _ hc => hc) (fun _ _ hc => hc)
  · rintro _ _ ⟨tls, written, hwritten, rfl⟩
    exact hsent tls written hwritten.subset

/-- The payload that names the target of a reverse connection. -/
theorem target_length {target : String}
    (h : validateEndpoint target false = .ok ()) :
    (utf8 (target ++ "\x00")).length ≤ 1025 := by
  have hsize := validateEndpoint_size h
  have hlength : (utf8 (target ++ "\x00")).length = (target ++ "\x00").utf8ByteSize :=
    rfl
  rw [hlength, String.utf8ByteSize_append]
  have hone : "\x00".utf8ByteSize = 1 := by decide
  omega

theorem acceptSockets_steady (h : Steady io good inv) (sockets : List (Fd × String))
    (hsockets : ∀ socket ∈ sockets, validateEndpoint socket.2 false = .ok ()) :
    Preserves inv (acceptSockets io sockets) := by
  induction sockets with
  | nil => exact .pure _
  | cons socket rest ih =>
      obtain ⟨htarget, hrest⟩ := List.forall_mem_cons.mp hsockets
      exact .get_bind fun _ _ => .ite (.pure _) (.bind (allocate_steady h) fun id =>
        .bind (putStream_steady h id (h.accepted socket.1)) fun _ =>
        .bind (fun _ hc => send_steady h hc (target_length htarget)) fun _ => ih hrest)

theorem reverseAccept_steady (h : Steady io good inv) : Preserves inv (reverseAccept io) := by
  refine .get_bind fun _ _ => .ite (.pure _) (.get_bind fun c hc => ?_)
  refine .bind (acceptSockets_steady h _ fun socket hsocket => ?_) fun _ => .pure _
  obtain ⟨⟨spec, r⟩, hr, haccept⟩ := List.mem_filterMap.mp hsocket
  obtain ⟨fd, -, rfl⟩ := Option.map_eq_some_iff.mp haccept
  exact h.aimed hc spec r (Std.TreeMap.mem_toList_iff_getElem?_eq_some.mp hr)

/-- Every event keeps such an invariant, whether it succeeds or not. -/
theorem perform_steady (h : Steady io good inv) (event : Event) :
    Preserves inv (perform io event) := by
  cases event with
  | packet p =>
      exact .ite (handleOpen_steady h p) (.ite (handleOkay_steady h p)
        (.ite (handleWrte_steady h p) (.ite (handleClse_steady h p) (.throw _))))
  | services => exact .bind (services_steady h) fun _ => .pure _
  | reverseAccept => exact .bind (reverseAccept_steady h) fun _ => .pure _
  | flush =>
      exact .get_bind fun _ _ => .bind (.lift _) fun _ =>
        .modify fun _ hc => h.same hc rfl rfl rfl rfl rfl

/-- So does the step that contains the event, at the end of which the clock is
read. -/
theorem Steady.step (h : Steady io good inv) (event : Event) (hc : inv c) :
    inv { final (perform io event c) with clock := io.now } :=
  h.same ((perform_steady h event).final hc) rfl rfl rfl rfl rfl

end Connection

end Altdb
