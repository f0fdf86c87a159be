import Altdb.Framing
import Altdb.PacketFormat
import Altdb.StreamSteps

/-!
# Parsing the packets of the host

The bytes of the host arrive in reads of any size.  After each read `parse`
takes the complete packets off the input and handles them; what is left waits
for the next read.  Its own length check and the checks of `Packet::read`
together find the packets that a reader of the whole stream finds.
-/

namespace Altdb

open Fallible

/-! ## Receiver -/

/-- The length field of a header. -/
def lengthField (input : Bytes) : ℕ :=
  ((leWords ((input.drop 12).take 4)).headD 0).toNat

/-- A connection with the bytes that wait to be parsed.  `handed` is a history
variable: the packets that were passed to `handle`. -/
structure Receiver where
  input : Bytes
  connection : Connection
  handed : List Packet

/-- How a connection ends.  The source has one type of errors; here they are
told apart by the place that raises them. -/
inductive Abort where
  | malformed (message : String)
  | inputLimit
  | failed (message : String)
  deriving DecidableEq, Repr

namespace Receiver

/-- The receiver of a connection that has just been accepted. -/
def start (c : Connection) : Receiver := ⟨[], c, []⟩

/-- `Connection::parse`.  The answers of the environment while the `n`-th packet
is handled are `io n`. -/
def parse (io : ℕ → Io) (r : Receiver) : EStateM.Result Abort Receiver Unit :=
  if r.input.length < 24 then .ok () r
  else if r.connection.max < lengthField r.input then
    .error (.malformed "ADB packet exceeds negotiated limit") r
  else if r.input.length < 24 + lengthField r.input then .ok () r
  else
    match Packet.read (r.input.take (24 + lengthField r.input)) r.connection.max false with
    | .error message => .error (.malformed message) r
    | .ok (packet, _) =>
        match Connection.handle (io r.handed.length) packet r.connection with
        | .error message c =>
            .error (.failed message)
              ⟨r.input.drop (24 + lengthField r.input), c, r.handed ++ [packet]⟩
        | .ok () c =>
            parse io ⟨r.input.drop (24 + lengthField r.input), c, r.handed ++ [packet]⟩
termination_by r.input.length
decreasing_by
  simp only [List.length_drop]
  omega

/-- One round of the read loop, for a read that returns data. -/
def receive (io : ℕ → Io) (chunk : Bytes) : EStateM Abort Receiver Unit := do
  modify fun r => { r with input := r.input ++ chunk }
  ensure ((← get).input.length ≤ maxPayload + 24 + chunkSize) .inputLimit
  parse io

/-- The rest of the loop, which leaves the input alone. -/
def aside (method : EStateM String Connection Unit) : EStateM Abort Receiver Unit := fun r =>
  match method r.connection with
  | .ok () c => .ok () { r with connection := c }
  | .error message c => .error (.failed message) { r with connection := c }

/-- What the loop of a connection does next. -/
inductive Action where
  | read (chunk : Bytes)
  | services (io : Io)
  | reverseAccept (io : Io)
  | flush (io : Io)

def act (io : ℕ → Io) : Action → EStateM Abort Receiver Unit
  | .read chunk => receive io chunk
  | .services answers => aside (Connection.perform answers .services)
  | .reverseAccept answers => aside (Connection.perform answers .reverseAccept)
  | .flush answers => aside (Connection.perform answers .flush)

/-- The actions one after the other, until one fails. -/
def run (io : ℕ → Io) (actions : List Action) : EStateM Abort Receiver Unit :=
  actions.forM (act io)

/-- The bytes that an action reads. -/
def Action.bytes : Action → Bytes
  | .read chunk => chunk
  | .services _ | .reverseAccept _ | .flush _ => []

/-- A read into a buffer of `CHUNK` bytes that returns data. -/
def Action.Fits (action : Action) : Prop :=
  ∀ chunk, action = .read chunk → 1 ≤ chunk.length ∧ chunk.length ≤ chunkSize

/-- The bytes of the host. -/
def stream (actions : List Action) : Bytes := actions.flatMap Action.bytes

end Receiver

/-! ## The whole stream at once -/

/-- Repeated `Packet::read`. -/
def readFramer (max : ℕ) : Framer UInt8 Packet String where
  read input :=
    match Packet.read input max false with
    | .ok (packet, rest) => .item packet rest
    | .error message => .bad message
  shorter := by
    intro input packet rest h
    split at h
    · next packet' rest' hread =>
      obtain ⟨rfl, rfl⟩ := Frame.item.inj h
      obtain ⟨sum, rfl, -⟩ := Packet.read_eq_ok_iff.mp hread
      simp only [List.length_append, Packet.length_header]
      omega
    · cases h

theorem readFramer_item {max : ℕ} {input rest : Bytes} {packet : Packet} :
    (readFramer max).read input = .item packet rest ↔
      Packet.read input max false = .ok (packet, rest) := by
  unfold readFramer
  simp only
  constructor
  · intro h
    split at h
    · next hread =>
      obtain ⟨rfl, rfl⟩ := Frame.item.inj h
      exact hread
    · cases h
  · intro h
    rw [h]

/-- The packets of a stream and the bytes at which reading it fails. -/
def readAll (max : ℕ) (bytes : Bytes) : List Packet × Bytes := (readFramer max).split bytes

/-- The start of a packet of admissible length. -/
def Incomplete (max : ℕ) (bytes : Bytes) : Prop :=
  bytes.length < 24 ∨ lengthField bytes ≤ max ∧ bytes.length < 24 + lengthField bytes

/-! ## Headers -/

theorem lengthField_append {input : Bytes} (later : Bytes) (h : 24 ≤ input.length) :
    lengthField (input ++ later) = lengthField input := by
  unfold lengthField
  rw [List.drop_append_of_le_length (by omega),
    List.take_append_of_le_length (by rw [List.length_drop]; omega)]

theorem lengthField_take (input : Bytes) (n : ℕ) :
    lengthField (input.take (24 + n)) = lengthField input := by
  unfold lengthField
  rw [List.drop_take, List.take_take, min_eq_left (by omega)]

theorem lengthField_words (command arg0 arg1 length sum magic : UInt32) (tail : Bytes) :
    lengthField ([command, arg0, arg1, length, sum, magic].flatMap leBytes ++ tail) =
      length.toNat := by
  change (fromLeBytes _ _ _ _).toNat = _
  rw [fromLeBytes_leBytes]

theorem lengthField_header {p : Packet} {max : ℕ} (hmax : max ≤ maxPayload)
    (h : p.data.length ≤ max) (sum : UInt32) (tail : Bytes) :
    lengthField (p.header sum ++ tail) = p.data.length := by
  have hword : maxPayload < 2 ^ 32 := by decide
  rw [Packet.header, lengthField_words]
  exact UInt32.toNat_ofNat_of_lt' (by unfold UInt32.size; omega)

/-- A complete header is six words. -/
theorem exists_fields {input : Bytes} (h : 24 ≤ input.length) :
    ∃ command arg0 arg1 length sum magic : UInt32, ∃ tail : Bytes,
      input = [command, arg0, arg1, length, sum, magic].flatMap leBytes ++ tail := by
  obtain ⟨words, hwords, htake⟩ := @exists_words 6 (input.take 24)
    (by rw [List.length_take]; omega)
  match words, hwords with
  | [command, arg0, arg1, length, sum, magic], _ =>
      exact ⟨command, arg0, arg1, length, sum, magic, input.drop 24, by
        rw [← htake, List.take_append_drop]⟩

/-! ## The front of the input -/

/-- What `parse` finds at the front of the input. -/
def packetFramer (max : ℕ) : Framer UInt8 Packet String where
  read input :=
    if input.length < 24 then .more
    else if max < lengthField input then .bad "ADB packet exceeds negotiated limit"
    else if input.length < 24 + lengthField input then .more
    else
      match Packet.read (input.take (24 + lengthField input)) max false with
      | .error message => .bad message
      | .ok (packet, _) => .item packet (input.drop (24 + lengthField input))
  shorter := by
    intro input packet rest h
    split at h
    · cases h
    split at h
    · cases h
    split at h
    · cases h
    split at h
    · cases h
    · obtain ⟨-, rfl⟩ := Frame.item.inj h
      rw [List.length_drop]
      omega

variable {max : ℕ} {input rest : Bytes} {packet : Packet} {message : String}

theorem packetFramer_more : (packetFramer max).read input = .more ↔ Incomplete max input := by
  unfold packetFramer Incomplete
  simp only
  split
  · next hshort => exact ⟨fun _ => .inl hshort, fun _ => rfl⟩
  · next hheader =>
    split
    · next hlimit => exact ⟨(fun h => by cases h), fun h => by omega⟩
    · next hlimit =>
      split
      · next hpayload => exact ⟨fun _ => .inr ⟨by omega, hpayload⟩, fun _ => rfl⟩
      · next hpayload =>
        split
        · exact ⟨(fun h => by cases h), fun h => by omega⟩
        · exact ⟨(fun h => by cases h), fun h => by omega⟩

/-- An error is a length over the limit, or an error of `Packet::read` for the
bytes that the header announces. -/
theorem packetFramer_bad (h : (packetFramer max).read input = .bad message) :
    24 ≤ input.length ∧
      (max < lengthField input ∧ message = "ADB packet exceeds negotiated limit" ∨
        lengthField input ≤ max ∧ 24 + lengthField input ≤ input.length ∧
          Packet.read (input.take (24 + lengthField input)) max false = .error message) := by
  unfold packetFramer at h
  simp only at h
  split at h
  · cases h
  split at h
  · next hlimit =>
    obtain rfl := Frame.bad.inj h
    exact ⟨by omega, .inl ⟨hlimit, rfl⟩⟩
  split at h
  · cases h
  split at h
  · next hread =>
    obtain rfl := Frame.bad.inj h
    exact ⟨by omega, .inr ⟨by omega, by omega, hread⟩⟩
  · cases h

theorem packetFramer_found (h : (packetFramer max).read input = .item packet rest) :
    lengthField input ≤ max ∧ 24 + lengthField input ≤ input.length ∧
      rest = input.drop (24 + lengthField input) ∧
      ∃ rest', Packet.read (input.take (24 + lengthField input)) max false =
        .ok (packet, rest') := by
  unfold packetFramer at h
  simp only at h
  split at h
  · cases h
  split at h
  · cases h
  split at h
  · cases h
  split at h
  · cases h
  · next hread =>
    obtain ⟨rfl, rfl⟩ := Frame.item.inj h
    exact ⟨by omega, by omega, rfl, _, hread⟩

/-- An item is a header with its payload. -/
theorem packetFramer_item (hmax : max ≤ maxPayload) :
    (packetFramer max).read input = .item packet rest ↔
      ∃ sum, input = packet.header sum ++ packet.data ++ rest ∧ packet.data.length ≤ max := by
  constructor
  · intro h
    obtain ⟨-, hlength, rfl, rest', hread⟩ := packetFramer_found h
    obtain ⟨sum, htake, hlimit, -⟩ := Packet.read_eq_ok_iff.mp hread
    rw [List.append_assoc] at htake
    have hfield := lengthField_take input (lengthField input)
    rw [htake, lengthField_header hmax (by omega)] at hfield
    have hsize := congrArg List.length htake
    simp only [List.length_take, List.length_append, Packet.length_header] at hsize
    obtain rfl : rest' = [] := List.length_eq_zero_iff.mp (by omega)
    refine ⟨sum, ?_, by omega⟩
    conv_lhs => rw [← List.take_append_drop (24 + lengthField input) input, htake]
    rw [List.append_nil]
  · rintro ⟨sum, rfl, hlimit⟩
    have hfield : lengthField (packet.header sum ++ packet.data ++ rest) =
        packet.data.length := by
      rw [List.append_assoc, lengthField_header hmax hlimit]
    have hsize : (packet.header sum ++ packet.data).length = 24 + packet.data.length := by
      rw [List.length_append, Packet.length_header]
    have htake : (packet.header sum ++ packet.data ++ rest).take (24 + packet.data.length) =
        packet.header sum ++ packet.data := by
      rw [← hsize, List.take_left]
    have hdrop : (packet.header sum ++ packet.data ++ rest).drop (24 + packet.data.length) =
        rest := by
      rw [← hsize, List.drop_left]
    have hread : Packet.read (packet.header sum ++ packet.data) max false =
        .ok (packet, []) :=
      Packet.read_eq_ok_iff.mpr ⟨sum, by rw [List.append_nil], by omega, fun h => by cases h⟩
    unfold packetFramer
    simp only
    rw [hfield, htake, hdrop, hread, if_neg, if_neg (by omega), if_neg]
    · rw [List.length_append]
      omega
    · rw [List.length_append]
      omega

/-- More input does not change what `parse` finds. -/
theorem packetFramer_stable (hmax : max ≤ maxPayload) : (packetFramer max).Stable where
  item := by
    intro input packet rest later h
    obtain ⟨sum, rfl, hlimit⟩ := (packetFramer_item hmax).mp h
    exact (packetFramer_item hmax).mpr ⟨sum, List.append_assoc _ _ _, hlimit⟩
  bad := by
    intro input message later h
    obtain ⟨hheader, ⟨hlimit, rfl⟩ | ⟨hlimit, hpayload, hread⟩⟩ := packetFramer_bad h
    · unfold packetFramer
      simp only
      rw [lengthField_append later hheader, if_neg, if_pos hlimit]
      rw [List.length_append]
      omega
    · unfold packetFramer
      simp only
      rw [lengthField_append later hheader, List.take_append_of_le_length hpayload, hread,
        if_neg, if_neg (by omega), if_neg]
      · rw [List.length_append]
        omega
      · rw [List.length_append]
        omega

/-- `parse` and `Packet::read` find the same packets. -/
theorem packetFramer_split (hmax : max ≤ maxPayload) (input : Bytes) :
    (packetFramer max).split input = readAll max input := by
  apply Framer.split_congr
  intro input packet rest
  rw [packetFramer_item hmax, readFramer_item, Packet.read_eq_ok_iff]
  constructor
  · rintro ⟨sum, hinput, hlimit⟩
    exact ⟨sum, hinput, by omega, fun h => by cases h⟩
  · rintro ⟨sum, hinput, hlimit, -⟩
    exact ⟨sum, hinput, by omega⟩

/-! ## The end of the whole stream -/

/-- How the whole stream ends: with the start of a packet, which a reader that
waits for nothing rejects, or with a malformed packet. -/
structure Stops (max : ℕ) (rest : Bytes) : Prop where
  incomplete : Incomplete max rest →
    Packet.read rest max false = .error "failed to fill whole buffer" ∨
      24 ≤ rest.length ∧ Packet.read rest max false = .error "bad ADB magic"
  malformed : ¬Incomplete max rest →
    Packet.read rest max false = .error "bad ADB magic" ∨
      Packet.read rest max false = .error "ADB packet exceeds limit"

/-- What waits is shorter than a packet. -/
theorem Incomplete.length_lt (hmax : max ≤ maxPayload) (h : Incomplete max input) :
    input.length < maxPayload + 24 := by
  unfold Incomplete at h
  omega

theorem read_incomplete (hmax : max ≤ maxPayload) (h : Incomplete max input) :
    Packet.read input max false = .error "failed to fill whole buffer" ∨
      24 ≤ input.length ∧ Packet.read input max false = .error "bad ADB magic" := by
  by_cases hheader : input.length < 24
  · left
    have hread : readExact 24 input = .error "failed to fill whole buffer" :=
      if_neg (by omega)
    unfold Packet.read
    rw [hread]
    rfl
  · have hlength : 24 ≤ input.length := by omega
    obtain ⟨command, arg0, arg1, length, sum, magic, tail, rfl⟩ := exists_fields hlength
    obtain hshort | ⟨hlimit, hpayload⟩ := h
    · omega
    rw [lengthField_words] at hlimit hpayload
    rw [List.length_append, length_flatMap_leBytes] at hpayload
    have htail : readExact length.toNat tail = .error "failed to fill whole buffer" :=
      if_neg (by simp only [List.length_cons, List.length_nil] at hpayload; omega)
    rw [Packet.read_words, htail]
    split
    · exact .inr ⟨hlength, rfl⟩
    · rw [if_neg (by omega)]
      exact .inl rfl

theorem read_bad (hmax : max ≤ maxPayload)
    (h : (packetFramer max).read input = .bad message) :
    Packet.read input max false = .error "bad ADB magic" ∨
      Packet.read input max false = .error "ADB packet exceeds limit" := by
  obtain ⟨hheader, hbad⟩ := packetFramer_bad h
  obtain ⟨command, arg0, arg1, length, sum, magic, tail, rfl⟩ := exists_fields hheader
  rw [Packet.read_words]
  split
  · exact .inl rfl
  next hmagic =>
  right
  rw [lengthField_words] at hbad
  obtain ⟨hlimit, -⟩ | ⟨hlimit, hpayload, hread⟩ := hbad
  · rw [if_pos (by omega)]
  · -- The bytes that the header announces are there, so nothing else can fail.
    have hwords : ([command, arg0, arg1, length, sum, magic].flatMap leBytes).length = 24 :=
      length_flatMap_leBytes _
    rw [← hwords, List.take_length_add_append, Packet.read_words, if_neg hmagic,
      if_neg (by omega)] at hread
    have htail : readExact length.toNat (tail.take length.toNat) =
        .ok (tail.take length.toNat, []) := by
      have hsize : (tail.take length.toNat).length = length.toNat := by
        rw [List.length_append, hwords] at hpayload
        rw [List.length_take]
        omega
      have hall := readExact_append (tail.take length.toNat) []
      rwa [hsize, List.append_nil] at hall
    rw [htail] at hread
    cases hread

theorem readAll_stops (hmax : max ≤ maxPayload) (bytes : Bytes) :
    Stops max (readAll max bytes).2 where
  incomplete := read_incomplete hmax
  malformed := by
    intro hincomplete
    rw [← packetFramer_split hmax] at hincomplete ⊢
    obtain hmore | ⟨message, hbad⟩ := Framer.read_split bytes
    · exact absurd (packetFramer_more.mp hmore) hincomplete
    · exact read_bad hmax hbad

/-! ## Runs -/

namespace Receiver

open Connection

variable {io : ℕ → Io} {r : Receiver}

theorem parse_more (h : (packetFramer r.connection.max).read r.input = .more) :
    parse io r = .ok () r := by
  rw [parse]
  obtain hshort | ⟨hlimit, hpayload⟩ := packetFramer_more.mp h
  · rw [if_pos hshort]
  · by_cases hshort : r.input.length < 24
    · rw [if_pos hshort]
    · rw [if_neg hshort, if_neg (by omega), if_pos hpayload]

theorem parse_bad (h : (packetFramer r.connection.max).read r.input = .bad message) :
    parse io r = .error (.malformed message) r := by
  obtain ⟨hheader, ⟨hlimit, rfl⟩ | ⟨hlimit, hpayload, hread⟩⟩ := packetFramer_bad h
  · rw [parse, if_neg (by omega), if_pos hlimit]
  · rw [parse, if_neg (by omega), if_neg (by omega), if_neg (by omega), hread]

theorem parse_handled {c : Connection}
    (h : (packetFramer r.connection.max).read r.input = .item packet rest)
    (hhandle : handle (io r.handed.length) packet r.connection = .ok () c) :
    parse io r = parse io ⟨rest, c, r.handed ++ [packet]⟩ := by
  obtain ⟨hlimit, hpayload, rfl, rest', hread⟩ := packetFramer_found h
  rw [parse, if_neg (by omega), if_neg (by omega), if_neg (by omega), hread]
  simp only [hhandle]

theorem parse_failed {c : Connection}
    (h : (packetFramer r.connection.max).read r.input = .item packet rest)
    (hhandle : handle (io r.handed.length) packet r.connection = .error message c) :
    parse io r = .error (.failed message) ⟨rest, c, r.handed ++ [packet]⟩ := by
  obtain ⟨hlimit, hpayload, rfl, rest', hread⟩ := packetFramer_found h
  rw [parse, if_neg (by omega), if_neg (by omega), if_neg (by omega), hread]
  simp only [hhandle]

/-- The connection works, and its limit is the one that was negotiated. -/
structure Sound (max : ℕ) (c : Connection) : Prop where
  wellFormed : c.WellFormed
  max_eq : c.max = max

theorem Sound.perform {c c' : Connection} {answers : Io} {event : Event} (h : Sound max c)
    (hrun : perform answers event c = .ok () c') : Sound max c' := by
  have hperformed := wp_of_ok (perform_spec event) hrun
  have hmoves := @Performed.moves (fun _ => True) _ _ _ _ h.wellFormed (fun _ _ => trivial)
    hperformed
  exact ⟨h.wellFormed.moves hmoves, hmoves.max_eq.trans h.max_eq⟩

/-- What `parse` does with the packets at the front of the input. -/
structure Parsed (max : ℕ) (r : Receiver) (result : EStateM.Result Abort Receiver Unit) :
    Prop where
  ok : ∀ r', result = .ok () r' →
    r'.handed = r.handed ++ ((packetFramer max).split r.input).1 ∧
      r'.input = ((packetFramer max).split r.input).2 ∧
      Incomplete max r'.input ∧ Sound max r'.connection
  malformed : ∀ message r', result = .error (.malformed message) r' →
    r'.handed = r.handed ++ ((packetFramer max).split r.input).1 ∧
      (packetFramer max).read ((packetFramer max).split r.input).2 = .bad message
  queue : ∀ r', result ≠ .error .inputLimit r'
  failed : ∀ message r', result = .error (.failed message) r' →
    r'.handed <+: r.handed ++ ((packetFramer max).split r.input).1

theorem Parsed.more (h : Sound max r.connection)
    (hmore : (packetFramer max).read r.input = .more) : Parsed max r (.ok () r) where
  ok := by
    intro r' heq
    obtain rfl := (EStateM.Result.ok.inj heq).2
    rw [Framer.split_more hmore]
    exact ⟨(List.append_nil _).symm, rfl, packetFramer_more.mp hmore, h⟩
  malformed := fun message r' heq => by cases heq
  queue := fun r' heq => by cases heq
  failed := fun message r' heq => by cases heq

theorem Parsed.bad (hbad : (packetFramer max).read r.input = .bad message) :
    Parsed max r (.error (.malformed message) r) where
  ok := fun r' heq => by cases heq
  malformed := by
    intro message' r' heq
    obtain ⟨hmessage, rfl⟩ := EStateM.Result.error.inj heq
    obtain rfl := Abort.malformed.inj hmessage
    rw [Framer.split_bad hbad]
    exact ⟨(List.append_nil _).symm, hbad⟩
  queue := fun r' heq => by cases heq
  failed := fun message' r' heq => by cases heq

/-- The packets behind one that was handled. -/
theorem Parsed.item {c : Connection} {result : EStateM.Result Abort Receiver Unit}
    (hitem : (packetFramer max).read r.input = .item packet rest)
    (h : Parsed max ⟨rest, c, r.handed ++ [packet]⟩ result) : Parsed max r result where
  ok := by
    intro r' heq
    obtain ⟨hhanded, hinput, hrest⟩ := h.ok r' heq
    rw [Framer.split_item hitem]
    exact ⟨by rw [hhanded, List.append_assoc, List.singleton_append], hinput, hrest⟩
  malformed := by
    intro message r' heq
    obtain ⟨hhanded, hbad⟩ := h.malformed message r' heq
    rw [Framer.split_item hitem]
    exact ⟨by rw [hhanded, List.append_assoc, List.singleton_append], hbad⟩
  queue := h.queue
  failed := by
    intro message r' heq
    have hprefix := h.failed message r' heq
    rw [List.append_assoc, List.singleton_append] at hprefix
    rwa [Framer.split_item hitem]

theorem Parsed.failure {c : Connection} {input : Bytes}
    (hitem : (packetFramer max).read r.input = .item packet rest) :
    Parsed max r (.error (.failed message) ⟨input, c, r.handed ++ [packet]⟩) where
  ok := fun r' heq => by cases heq
  malformed := fun message r' heq => by cases heq
  queue := fun r' heq => by cases heq
  failed := by
    intro message' r' heq
    obtain ⟨-, rfl⟩ := EStateM.Result.error.inj heq
    rw [Framer.split_item hitem]
    exact ⟨((packetFramer max).split rest).1, by rw [List.append_assoc]; rfl⟩

theorem parse_spec (h : Sound max r.connection) : Parsed max r (parse io r) := by
  obtain ⟨input, c, handed⟩ := r
  induction input using (packetFramer max).split_induction generalizing c handed with
  | more input hmore =>
      rw [parse_more (h.max_eq ▸ hmore)]
      exact .more h hmore
  | bad input message hbad =>
      rw [parse_bad (h.max_eq ▸ hbad)]
      exact .bad hbad
  | item input packet rest hitem ih =>
      cases hhandle : handle (io handed.length) packet c with
      | ok _ c' =>
          have hperform : Connection.perform (io handed.length) (.packet packet) c = .ok () c' :=
            hhandle
          rw [@parse_handled rest packet io ⟨input, c, handed⟩ c' (h.max_eq ▸ hitem) hhandle]
          exact .item hitem (ih c' (handed ++ [packet]) (h.perform hperform))
      | error message c' =>
          rw [@parse_failed rest packet message io ⟨input, c, handed⟩ c' (h.max_eq ▸ hitem) hhandle]
          exact .failure hitem

/-- The receiver after the bytes `bytes`, while the connection lasts. -/
structure Read (max : ℕ) (bytes : Bytes) (r : Receiver) : Prop where
  handed : r.handed = ((packetFramer max).split bytes).1
  input : r.input = ((packetFramer max).split bytes).2
  waits : Incomplete max r.input
  sound : Sound max r.connection

/-- What the loop leaves of the bytes `bytes`. -/
structure Left (max : ℕ) (bytes : Bytes) (result : EStateM.Result Abort Receiver Unit) :
    Prop where
  ok : ∀ r, result = .ok () r → Read max bytes r
  malformed : ∀ message r, result = .error (.malformed message) r →
    r.handed = ((packetFramer max).split bytes).1 ∧
      (packetFramer max).read ((packetFramer max).split bytes).2 = .bad message
  queue : ∀ r, result ≠ .error .inputLimit r
  failed : ∀ message r, result = .error (.failed message) r →
    r.handed <+: ((packetFramer max).split bytes).1

/-- The packets of a read follow those of the bytes before. -/
theorem Parsed.left {result : EStateM.Result Abort Receiver Unit} {bytes chunk : Bytes}
    (hmax : max ≤ maxPayload) (h : Read max bytes r)
    (hparsed : Parsed max { r with input := r.input ++ chunk } result) :
    Left max (bytes ++ chunk) result := by
  have hsplit := (packetFramer_stable hmax).split_append bytes chunk
  rw [← h.handed, ← h.input] at hsplit
  constructor
  · intro r' heq
    obtain ⟨hhanded, hinput, hwaits, hsound⟩ := hparsed.ok r' heq
    exact ⟨by rw [hsplit, hhanded], by rw [hsplit, hinput], hwaits, hsound⟩
  · intro message r' heq
    rw [hsplit]
    exact hparsed.malformed message r' heq
  · exact hparsed.queue
  · intro message r' heq
    rw [hsplit]
    exact hparsed.failed message r' heq

/-- After a failure nothing more is read. -/
theorem Left.later {bytes : Bytes} {error : Abort} (hmax : max ≤ maxPayload)
    (h : Left max bytes (.error error r)) (later : Bytes) :
    Left max (bytes ++ later) (.error error r) := by
  have hstable := packetFramer_stable hmax
  have hsplit := hstable.split_append bytes later
  constructor
  · exact fun r' heq => by cases heq
  · intro message r' heq
    obtain ⟨hhanded, hbad⟩ := h.malformed message r' heq
    rw [Framer.split_bad (hstable.bad later hbad), List.append_nil] at hsplit
    rw [hsplit]
    exact ⟨hhanded, hstable.bad later hbad⟩
  · exact h.queue
  · intro message r' heq
    rw [hsplit]
    exact (h.failed message r' heq).trans (List.prefix_append _ _)

/-- There is room for a read behind what waits. -/
theorem receive_eq {chunk : Bytes} (hinput : r.input.length < maxPayload + 24)
    (hchunk : chunk.length ≤ chunkSize) :
    receive io chunk r = parse io { r with input := r.input ++ chunk } := by
  have hlimit : (r.input ++ chunk).length ≤ maxPayload + 24 + chunkSize := by
    rw [List.length_append]
    omega
  change (EStateM.bind (ensure _ _) fun _ => parse io) { r with input := r.input ++ chunk } = _
  unfold ensure
  rw [if_pos hlimit]
  rfl

theorem receive_spec {bytes chunk : Bytes} (hmax : max ≤ maxPayload) (h : Read max bytes r)
    (hchunk : chunk.length ≤ chunkSize) :
    Left max (bytes ++ chunk) (receive io chunk r) := by
  rw [receive_eq (h.waits.length_lt hmax) hchunk]
  have hparse := @parse_spec max io { r with input := r.input ++ chunk } h.sound
  exact hparse.left hmax h

theorem aside_spec {bytes : Bytes} {answers : Io} {event : Event} (h : Read max bytes r) :
    Left max bytes (aside (Connection.perform answers event) r) := by
  cases hrun : Connection.perform answers event r.connection with
  | ok value c =>
      have haside : aside (Connection.perform answers event) r =
          .ok () { r with connection := c } := by
        unfold aside
        rw [hrun]
      rw [haside]
      constructor
      · intro r' heq
        obtain rfl := (EStateM.Result.ok.inj heq).2
        exact ⟨h.handed, h.input, h.waits, h.sound.perform hrun⟩
      · exact fun message r' heq => by cases heq
      · exact fun r' heq => by cases heq
      · exact fun message r' heq => by cases heq
  | error message c =>
      have haside : aside (Connection.perform answers event) r =
          .error (.failed message) { r with connection := c } := by
        unfold aside
        rw [hrun]
      rw [haside]
      constructor
      · exact fun r' heq => by cases heq
      · exact fun message' r' heq => by cases heq
      · exact fun r' heq => by cases heq
      · intro message' r' heq
        obtain ⟨-, rfl⟩ := EStateM.Result.error.inj heq
        exact h.handed ▸ List.prefix_refl _

theorem act_spec {bytes : Bytes} {action : Action} (hmax : max ≤ maxPayload)
    (h : Read max bytes r) (hfits : action.Fits) :
    Left max (bytes ++ action.bytes) (act io action r) := by
  have hnone : bytes ++ [] = bytes := List.append_nil bytes
  cases action with
  | read chunk => exact receive_spec hmax h (hfits chunk rfl).2
  | services answers => exact hnone.symm ▸ aside_spec h
  | reverseAccept answers => exact hnone.symm ▸ aside_spec h
  | flush answers => exact hnone.symm ▸ aside_spec h

theorem run_spec {bytes : Bytes} {actions : List Action} (hmax : max ≤ maxPayload)
    (h : Read max bytes r) (hfits : ∀ action ∈ actions, action.Fits) :
    Left max (bytes ++ stream actions) (run io actions r) := by
  induction actions generalizing bytes r with
  | nil =>
      have hstream : bytes ++ stream [] = bytes := List.append_nil bytes
      rw [hstream]
      constructor
      · intro r' heq
        obtain rfl := (EStateM.Result.ok.inj heq).2
        exact h
      · exact fun message r' heq => by cases heq
      · exact fun r' heq => by cases heq
      · exact fun message r' heq => by cases heq
  | cons action rest ih =>
      have hact := @act_spec max io r bytes action hmax h
        (hfits action (List.mem_cons_self ..))
      have hstream : bytes ++ stream (action :: rest) =
          bytes ++ action.bytes ++ stream rest := (List.append_assoc _ _ _).symm
      have hrun : run io (action :: rest) r =
          EStateM.bind (act io action) (fun _ => run io rest) r := rfl
      rw [hstream, hrun]
      unfold EStateM.bind
      cases hresult : act io action r with
      | ok value r₁ =>
          exact ih (hact.ok r₁ hresult) fun action' h' =>
            hfits action' (List.mem_cons_of_mem _ h')
      | error error r₁ => exact (hresult ▸ hact).later hmax _

/-- What a run leaves, compared with the packets of the whole stream. -/
structure Agrees (max : ℕ) (bytes : Bytes) (result : EStateM.Result Abort Receiver Unit) :
    Prop where
  waits : ∀ r, result = .ok () r →
    r.handed = (readAll max bytes).1 ∧ r.input = (readAll max bytes).2 ∧
      Incomplete max r.input ∧ r.input.length < maxPayload + 24
  malformed : ∀ message r, result = .error (.malformed message) r →
    r.handed = (readAll max bytes).1 ∧ ¬Incomplete max (readAll max bytes).2
  queue : ∀ r, result ≠ .error .inputLimit r
  failed : ∀ message r, result = .error (.failed message) r →
    r.handed <+: (readAll max bytes).1

theorem Left.agrees {bytes : Bytes} {result : EStateM.Result Abort Receiver Unit}
    (hmax : max ≤ maxPayload) (h : Left max bytes result) : Agrees max bytes result where
  waits := by
    intro r heq
    have hread := h.ok r heq
    rw [← packetFramer_split hmax]
    exact ⟨hread.handed, hread.input, hread.waits, hread.waits.length_lt hmax⟩
  malformed := by
    intro message r heq
    obtain ⟨hhanded, hbad⟩ := h.malformed message r heq
    rw [← packetFramer_split hmax]
    refine ⟨hhanded, fun hincomplete => ?_⟩
    cases hbad.symm.trans (packetFramer_more.mpr hincomplete)
  queue := h.queue
  failed := by
    intro message r heq
    rw [← packetFramer_split hmax]
    exact h.failed message r heq

/-- However the bytes of the host are cut into reads, the connection handles the
packets of the whole stream.  It fails on a malformed one exactly where the whole
stream has one, waits for the rest of an incomplete one, and the limit of the
input queue is never reached. -/
theorem run_agrees (c : Connection) (hinitial : c.Initial) (io : ℕ → Io)
    (actions : List Action) (hfits : ∀ action ∈ actions, action.Fits) :
    Agrees c.max (stream actions) (run io actions (start c)) ∧
      Stops c.max (readAll c.max (stream actions)).2 := by
  obtain ⟨tls, transport, max, now, -, hmax, rfl⟩ := hinitial
  refine ⟨?_, readAll_stops hmax _⟩
  have hmore : (packetFramer max).read [] = .more := rfl
  have hstart : Read max [] (start (initial tls transport max now)) := by
    refine ⟨?_, ?_, .inl (Nat.zero_lt_succ 23), initial_wellFormed tls transport max now, rfl⟩
    · rw [Framer.split_more hmore]
      rfl
    · rw [Framer.split_more hmore]
      rfl
  exact (run_spec hmax hstart hfits).agrees hmax

/-- A packet for a stream that is gone, in two reads with a pass between them. -/
def cut : List Action :=
  [.read ((Packet.encode ⟨CLSE, 1, 9, []⟩ false).take 13),
    .services (Turn.packet 0 CLSE 1 9 []).answers,
    .read ((Packet.encode ⟨CLSE, 1, 9, []⟩ false).drop 13)]

theorem run_agrees_cut :
    outcome (run (fun _ => (Turn.packet 0 CLSE 1 9 []).answers) cut (start fresh)) = .ok () ∧
      (final (run (fun _ => (Turn.packet 0 CLSE 1 9 []).answers) cut (start fresh))).handed =
        [⟨CLSE, 1, 9, []⟩] := by
  have hfits : ∀ action ∈ cut, action.Fits := by
    intro action haction chunk heq
    subst heq
    simp only [cut, List.mem_cons, List.not_mem_nil, or_false, reduceCtorEq, false_or,
      Action.read.injEq] at haction
    obtain rfl | rfl := haction
    · decide
    · decide
  have hok : outcome (run (fun _ => (Turn.packet 0 CLSE 1 9 []).answers) cut (start fresh)) =
      .ok () := by decide +kernel
  have hagrees := (run_agrees fresh ⟨_, _, _, _, by decide, by decide, rfl⟩
    (fun _ => (Turn.packet 0 CLSE 1 9 []).answers) cut hfits).1
  refine ⟨hok, ?_⟩
  cases hrun : run (fun _ => (Turn.packet 0 CLSE 1 9 []).answers) cut (start fresh) with
  | ok value r =>
      have hread : (readAll 65536 (stream cut)).1 = [⟨CLSE, 1, 9, []⟩] := by decide +kernel
      rw [final_ok, (hagrees.waits r hrun).1]
      exact hread
  | error error r =>
      rw [hrun] at hok
      cases hok

end Receiver

end Altdb
