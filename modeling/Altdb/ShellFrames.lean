import Altdb.Framing
import Altdb.PacketFormat

/-!
# Shell frames

A frame of the shell protocol is a channel, a length and the data, written in
three calls.  The reader takes the five bytes of the header and then as much as
the header says.
-/

namespace Altdb

namespace Shell

/-- The calls of `write_all` in `shell_frame`. -/
def shellFrame (channel : UInt8) (data : Bytes) : List Bytes :=
  [[channel], leBytes (UInt32.ofNat data.length), data]

/-- `shell_read` from a reader with this `read_exact`. -/
def shellRead {σ : Type} (readExact : ℕ → σ → Except String (Bytes × σ)) (r : σ) :
    Except String ((UInt8 × Bytes) × σ) := do
  let (h, r) ← readExact 5 r
  let len := ((leWords (h.drop 1)).getD 0 0).toNat
  if maxPayload < len then
    throw "shell frame exceeds limit"
  let (data, r) ← readExact len r
  return ((h.getD 0 0, data), r)

/-- The bytes of a frame. -/
def frameBytes (frame : UInt8 × Bytes) : Bytes := (shellFrame frame.1 frame.2).flatten

/-! ## Bytes that do not grow -/

variable {frame : UInt8 × Bytes} {input rest : Bytes}

theorem frameBytes_eq (frame : UInt8 × Bytes) :
    frameBytes frame = frame.1 :: (leBytes (UInt32.ofNat frame.2.length) ++ frame.2) := by
  simp [frameBytes, shellFrame]

theorem length_frameBytes (frame : UInt8 × Bytes) :
    (frameBytes frame).length = 5 + frame.2.length := by
  rw [frameBytes_eq, List.length_cons, List.length_append]
  change 4 + _ + 1 = _
  omega

theorem shellRead_eq {σ : Type} (readExact : ℕ → σ → Except String (Bytes × σ)) (r : σ) :
    shellRead readExact r = (readExact 5 r).bind fun header =>
      let len := ((leWords (header.1.drop 1)).getD 0 0).toNat
      if maxPayload < len then .error "shell frame exceeds limit"
      else (readExact len header.2).bind fun data =>
        .ok ((header.1.getD 0 0, data.1), data.2) := by
  unfold shellRead
  refine congrArg _ (funext fun header => ?_)
  by_cases hlimit : maxPayload < ((leWords (header.1.drop 1)).getD 0 0).toNat
  · dsimp only
    rw [if_pos hlimit, if_pos hlimit]
    rfl
  · dsimp only
    rw [if_neg hlimit, if_neg hlimit]
    rfl

/-- What is read after a header. -/
theorem shellRead_header (channel : UInt8) (length : UInt32) (rest : Bytes) :
    shellRead readExact (channel :: (leBytes length ++ rest)) =
      if maxPayload < length.toNat then .error "shell frame exceeds limit"
      else (readExact length.toNat rest).bind fun data => .ok ((channel, data.1), data.2) := by
  have hheader := readExact_append (channel :: leBytes length) rest
  change readExact 5 _ = _ at hheader
  have hlength : (leWords (leBytes length)).getD 0 0 = length := fromLeBytes_leBytes length
  rw [shellRead_eq, ← List.cons_append, hheader]
  change (if maxPayload < ((leWords (leBytes length)).getD 0 0).toNat then _ else
    (readExact ((leWords (leBytes length)).getD 0 0).toNat rest).bind _) = _
  rw [hlength]
  rfl

theorem shellRead_append (hframe : frame.2.length ≤ maxPayload) (rest : Bytes) :
    shellRead readExact (frameBytes frame ++ rest) = .ok (frame, rest) := by
  have hlength : (UInt32.ofNat frame.2.length).toNat = frame.2.length := by
    rw [UInt32.toNat_ofNat']
    exact Nat.mod_eq_of_lt (Nat.lt_of_le_of_lt hframe (by decide))
  rw [frameBytes_eq, List.cons_append, List.append_assoc, shellRead_header, hlength,
    if_neg (Nat.not_lt_of_le hframe), readExact_append]
  rfl

/-- A header is a channel and a length. -/
theorem header_of_length {header : Bytes} (h : header.length = 5) :
    ∃ channel length, header = channel :: leBytes length := by
  obtain ⟨channel, bytes, rfl⟩ := List.exists_cons_of_length_eq_add_one h
  obtain ⟨words, hwords, rfl⟩ := exists_words (n := 1) (Nat.succ.inj h)
  obtain ⟨length, rfl⟩ := List.length_eq_one_iff.mp hwords
  exact ⟨channel, length, by rw [List.flatMap_singleton]⟩

/-- What is read is a frame at the front of the input. -/
theorem shellRead_ok (h : shellRead readExact input = .ok (frame, rest)) :
    input = frameBytes frame ++ rest ∧ frame.2.length ≤ maxPayload := by
  rw [shellRead_eq] at h
  cases hheader : readExact 5 input with
  | error error =>
      rw [hheader] at h
      cases h
  | ok found =>
      obtain ⟨header, tail⟩ := found
      obtain ⟨rfl, hfive⟩ := readExact_ok hheader
      obtain ⟨channel, length, rfl⟩ := header_of_length hfive
      rw [← shellRead_eq, List.cons_append, shellRead_header] at h
      split at h
      · cases h
      · next hlimit =>
        cases hdata : readExact length.toNat tail with
        | error error =>
            rw [hdata] at h
            cases h
        | ok found =>
            obtain ⟨data, rest'⟩ := found
            rw [hdata] at h
            obtain ⟨rfl, rfl⟩ := Prod.mk.inj (Except.ok.inj h)
            obtain ⟨rfl, hsize⟩ := readExact_ok hdata
            refine ⟨?_, ?_⟩
            · rw [frameBytes_eq, hsize, UInt32.ofNat_toNat]
              simp
            · exact hsize.trans_le (Nat.le_of_not_lt hlimit)

theorem shellRead_shorter (h : shellRead readExact input = .ok (frame, rest)) :
    rest.length < input.length := by
  have hlength := congrArg List.length (shellRead_ok h).1
  rw [List.length_append, length_frameBytes] at hlength
  omega

/-- `shell_read` again and again. -/
def frames : Framer UInt8 (UInt8 × Bytes) Unit :=
  .ofDecoder (fun input => (shellRead readExact input).toOption) fun {input _ _} h => by
    cases hread : shellRead readExact input with
    | error error =>
        rw [hread] at h
        cases h
    | ok found =>
        rw [hread] at h
        obtain rfl := Option.some.inj h
        exact shellRead_shorter hread

theorem frames_read (hframe : frame.2.length ≤ maxPayload) (rest : Bytes) :
    frames.read (frameBytes frame ++ rest) = .item frame rest := by
  change ((shellRead readExact _).toOption.elim _ _) = _
  rw [shellRead_append hframe]
  rfl

/-- Frames behind each other are read one by one, until nothing is left. -/
theorem frames_split {sent : List (UInt8 × Bytes)} (h : ∀ f ∈ sent, f.2.length ≤ maxPayload) :
    frames.split (sent.flatMap frameBytes) = (sent, []) := by
  have hempty : frames.split [] = ([], []) :=
    Framer.split_bad (show frames.read [] = .bad () from rfl)
  have hall := frames.split_flatMap sent [] fun f hf rest => frames_read (h f hf) rest
  rwa [hempty, List.append_nil, List.append_nil] at hall

end Shell

end Altdb
