import Altdb.JsonText
import Altdb.ServiceName
import Altdb.ShellOutput

/-!
# Input of a shell service

The input thread of a service reads frames from the socket, which delivers
them in any pieces, and writes the data of some of them to the process.  It ends
with a frame that closes the input, or in an error, after which the process
group is hung up.
-/

namespace Altdb

namespace Shell

/-- `Read::read_exact` on a socket that delivers these pieces before its end. -/
def receive : ℕ → List Bytes → Except String (Bytes × List Bytes)
  | 0, pieces => .ok ([], pieces)
  | _ + 1, [] => .error "failed to fill whole buffer"
  | n + 1, piece :: pieces =>
      if n + 1 < piece.length then .ok (piece.take (n + 1), piece.drop (n + 1) :: pieces)
      else (receive (n + 1 - piece.length) pieces).map fun found => (piece ++ found.1, found.2)

structure Winsize where
  row : UInt16
  col : UInt16
  xpixel : UInt16
  ypixel : UInt16
  deriving DecidableEq, Repr

/-- `resize`, where `ioctl` tells whether the terminal takes the size. -/
def resize (ioctl : Winsize → Bool) (data : Bytes) : Except String Unit := do
  let some text := JsonText.ofBytes data | throw "invalid utf-8"
  let text : JsonText.Text := (text.reverse.dropWhile (· == '\x00')).reverse
  let numbers ← (text.splitOnP fun c => c == 'x' || c == ',').mapM fun number =>
    parseU16 (String.ofList number)
  let [row, col, xpixel, ypixel] := numbers | throw "invalid terminal size"
  if ¬ioctl ⟨row, col, xpixel, ypixel⟩ then throw "terminal resize failed"

/-- The bytes for the process of a frame, and whether it is the last one. -/
def turn (pty : Bool) (ioctl : Winsize → Bool) (frame : UInt8 × Bytes) :
    Except String (Bytes × Bool) :=
  match frame.1 with
  | 0 => .ok (frame.2, false)
  | 4 =>
      if frame.2 ≠ [] then .error "invalid close-stdin frame"
      else .ok (if pty then [4] else [], true)
  | 5 =>
      if pty then (resize ioctl frame.2).map fun _ => ([], false)
      else .ok ([], false)
  | _ => .error "invalid shell input channel"

/-! ## Pieces -/

variable {frame : UInt8 × Bytes} {pieces : List Bytes}

/-- Where the pieces are cut makes no difference. -/
theorem receive_flatten (n : ℕ) (pieces : List Bytes) :
    (receive n pieces).map (fun found => (found.1, found.2.flatten)) =
      readExact n pieces.flatten := by
  induction pieces generalizing n with
  | nil =>
      cases n with
      | zero => rfl
      | succ n => rfl
  | cons piece pieces ih =>
      cases n with
      | zero => rfl
      | succ n =>
          rw [receive, List.flatten_cons, readExact]
          by_cases hlt : n + 1 < piece.length
          · rw [if_pos hlt, if_pos (by rw [List.length_append]; omega),
              List.take_append_of_le_length hlt.le, List.drop_append_of_le_length hlt.le]
            rfl
          · have hrest := ih (n + 1 - piece.length)
            rw [if_neg hlt, List.length_append]
            rw [readExact] at hrest
            have hprepend : ((receive (n + 1 - piece.length) pieces).map fun found =>
                (piece ++ found.1, found.2)).map (fun found => (found.1, found.2.flatten)) =
                ((receive (n + 1 - piece.length) pieces).map fun found =>
                  (found.1, found.2.flatten)).map fun found => (piece ++ found.1, found.2) := by
              cases receive (n + 1 - piece.length) pieces with
              | error error => rfl
              | ok found => rfl
            rw [hprepend, hrest]
            by_cases hle : n + 1 - piece.length ≤ pieces.flatten.length
            · have htake : piece.take (n + 1) = piece := List.take_of_length_le (by omega)
              have hdrop : piece.drop (n + 1) = [] := List.drop_of_length_le (by omega)
              rw [if_pos hle, if_pos (by omega), List.take_append, List.drop_append, htake, hdrop]
              rfl
            · rw [if_neg hle, if_neg (by omega)]
              rfl

theorem shellRead_receive (pieces : List Bytes) :
    (shellRead receive pieces).map (fun found => (found.1, found.2.flatten)) =
      shellRead readExact pieces.flatten := by
  rw [shellRead_eq, shellRead_eq, ← receive_flatten]
  cases hheader : receive 5 pieces with
  | error error => rfl
  | ok header =>
      change Except.map _ (if _ then _ else _) = if _ then _ else _
      split
      · rfl
      · rw [← receive_flatten]
        cases receive ((leWords (header.1.drop 1)).getD 0 0).toNat header.2 with
        | error error => rfl
        | ok data => rfl

theorem shellRead_receive_ok {rest : List Bytes}
    (h : shellRead receive pieces = .ok (frame, rest)) :
    shellRead readExact pieces.flatten = .ok (frame, rest.flatten) := by
  rw [← shellRead_receive, h]
  rfl

/-- The loop of `input`, with what it writes to the process. -/
def inputFrames (pty : Bool) (ioctl : Winsize → Bool) (socket : List Bytes) :
    Except String Unit × Bytes :=
  match _hread : shellRead receive socket with
  | .error error => (.error error, [])
  | .ok (frame, socket') =>
      match turn pty ioctl frame with
      | .error error => (.error error, [])
      | .ok (bytes, true) => (.ok (), bytes)
      | .ok (bytes, false) =>
          let result := inputFrames pty ioctl socket'
          (result.1, bytes ++ result.2)
termination_by socket.flatten.length
decreasing_by exact shellRead_shorter (shellRead_receive_ok ‹_›)

/-- `input` of a service with shell frames: what it writes to the process, and
whether it hangs up the process group. -/
def input (pty : Bool) (ioctl : Winsize → Bool) (socket : List Bytes) : Bytes × Bool :=
  let result := inputFrames pty ioctl socket
  (result.2, result.1.toOption.isNone)

/-! ## What is read -/

variable {pty : Bool} {ioctl : Winsize → Bool} {rest : List Bytes} {error : String} {bytes : Bytes}

theorem inputFrames_error (h : shellRead receive pieces = .error error) :
    inputFrames pty ioctl pieces = (.error error, []) := by
  rw [inputFrames]
  split
  · next heq =>
    cases heq.symm.trans h
    rfl
  · next heq => cases heq.symm.trans h

theorem inputFrames_frame (h : shellRead receive pieces = .ok (frame, rest)) :
    inputFrames pty ioctl pieces =
      match turn pty ioctl frame with
      | .error error => (.error error, [])
      | .ok (bytes, true) => (.ok (), bytes)
      | .ok (bytes, false) =>
          ((inputFrames pty ioctl rest).1, bytes ++ (inputFrames pty ioctl rest).2) := by
  rw [inputFrames]
  split
  · next heq => cases heq.symm.trans h
  · next heq =>
    obtain ⟨rfl, rfl⟩ := Prod.mk.inj (Except.ok.inj (heq.symm.trans h))
    rfl

theorem inputFrames_fault (h : shellRead receive pieces = .ok (frame, rest))
    (hturn : turn pty ioctl frame = .error error) :
    inputFrames pty ioctl pieces = (.error error, []) := by
  rw [inputFrames_frame h, hturn]

theorem inputFrames_last (h : shellRead receive pieces = .ok (frame, rest))
    (hturn : turn pty ioctl frame = .ok (bytes, true)) :
    inputFrames pty ioctl pieces = (.ok (), bytes) := by
  rw [inputFrames_frame h, hturn]

theorem inputFrames_more (h : shellRead receive pieces = .ok (frame, rest))
    (hturn : turn pty ioctl frame = .ok (bytes, false)) :
    inputFrames pty ioctl pieces =
      ((inputFrames pty ioctl rest).1, bytes ++ (inputFrames pty ioctl rest).2) := by
  rw [inputFrames_frame h, hturn]

/-- What is read from the bytes is read from the pieces. -/
theorem receive_ok {later : Bytes} (h : shellRead readExact pieces.flatten = .ok (frame, later)) :
    ∃ rest, shellRead receive pieces = .ok (frame, rest) ∧ rest.flatten = later := by
  rw [← shellRead_receive] at h
  cases hread : shellRead receive pieces with
  | error error =>
      rw [hread] at h
      cases h
  | ok found =>
      rw [hread] at h
      obtain ⟨rfl, rfl⟩ := Prod.mk.inj (Except.ok.inj h)
      exact ⟨found.2, rfl, rfl⟩

theorem receive_error (h : shellRead readExact pieces.flatten = .error error) :
    shellRead receive pieces = .error error := by
  rw [← shellRead_receive] at h
  cases hread : shellRead receive pieces with
  | error error' =>
      rw [hread] at h
      exact congrArg _ (Except.error.inj h)
  | ok found =>
      rw [hread] at h
      cases h

/-- How the input ends. -/
inductive Ending where
  | closed
  | closedWithData
  | channel
  | limit
  | cut
  deriving DecidableEq, Repr

/-- What is left of the input ends it. -/
inductive Ends : Bytes → Ending → Prop where
  | closed (later : Bytes) : Ends (frameBytes (4, []) ++ later) .closed
  | closedWithData (data later : Bytes) (hdata : data ≠ []) (hlength : data.length ≤ maxPayload) :
      Ends (frameBytes (4, data) ++ later) .closedWithData
  | channel (channel : UInt8) (data later : Bytes)
      (hchannel : channel ≠ 0 ∧ channel ≠ 4 ∧ channel ≠ 5) (hlength : data.length ≤ maxPayload) :
      Ends (frameBytes (channel, data) ++ later) .channel
  | limit (channel : UInt8) (length : UInt32) (later : Bytes)
      (hlength : maxPayload < length.toNat) :
      Ends (channel :: (leBytes length ++ later)) .limit
  /-- The input ends in a header. -/
  | header (bytes : Bytes) (hlength : bytes.length < 5) : Ends bytes .cut
  /-- The input ends in the data of a frame. -/
  | data (channel : UInt8) (length : UInt32) (data : Bytes) (hlength : length.toNat ≤ maxPayload)
      (hcut : data.length < length.toNat) : Ends (channel :: (leBytes length ++ data)) .cut

/-- The input starts with frames of data and of window sizes, and then ends. -/
structure Arrives (input : Bytes) (front : List (UInt8 × Bytes)) (ending : Ending) : Prop where
  channels : ∀ f ∈ front, f.1 = 0 ∨ f.1 = 5
  sizes : ∀ f ∈ front, f.2.length ≤ maxPayload
  bytes : ∃ rest, input = front.flatMap frameBytes ++ rest ∧ Ends rest ending

theorem readExact_error {n : ℕ} {input : Bytes} (h : readExact n input = .error error) :
    input.length < n := by
  unfold readExact at h
  split at h
  · cases h
  · next hlt => exact Nat.lt_of_not_le hlt

/-- What is not read as a frame is over the limit, or cut off. -/
theorem ends_of_error {input : Bytes} (h : shellRead readExact input = .error error) :
    Ends input .limit ∨ Ends input .cut := by
  rw [shellRead_eq] at h
  cases hheader : readExact 5 input with
  | error error => exact .inr (.header input (readExact_error hheader))
  | ok found =>
      obtain ⟨header, tail⟩ := found
      obtain ⟨rfl, hfive⟩ := readExact_ok hheader
      obtain ⟨channel, length, rfl⟩ := header_of_length hfive
      rw [← shellRead_eq, List.cons_append, shellRead_header] at h
      split at h
      · next hlimit => exact .inl (.limit channel length tail hlimit)
      · next hlimit =>
        cases hdata : readExact length.toNat tail with
        | error error =>
            exact .inr (.data channel length tail (Nat.le_of_not_lt hlimit) (readExact_error hdata))
        | ok found =>
            rw [hdata] at h
            cases h

/-- The end of the input is read as such. -/
theorem Ends.read (ioctl : Winsize → Bool) {input : Bytes} {ending : Ending}
    (h : Ends input ending) :
    (∃ error, shellRead readExact input = .error error ∧ (ending = .limit ∨ ending = .cut)) ∨
      ∃ frame later, shellRead readExact input = .ok (frame, later) ∧
        ((turn false ioctl frame = .ok ([], true) ∧ ending = .closed) ∨
          ((∃ error, turn false ioctl frame = .error error) ∧
            (ending = .closedWithData ∨ ending = .channel))) := by
  cases h with
  | closed later =>
      exact .inr ⟨_, later, shellRead_append (Nat.zero_le _) later, .inl ⟨rfl, rfl⟩⟩
  | closedWithData data later hdata hlength =>
      have hturn : turn false ioctl (4, data) = .error "invalid close-stdin frame" := if_pos hdata
      exact .inr ⟨_, later, shellRead_append hlength later, .inr ⟨⟨_, hturn⟩, .inl rfl⟩⟩
  | channel channel data later hchannel hlength =>
      obtain ⟨hzero, hfour, hfive⟩ := hchannel
      have hturn : turn false ioctl (channel, data) = .error "invalid shell input channel" := by
        unfold turn
        split
        · next h => exact absurd h hzero
        · next h => exact absurd h hfour
        · next h => exact absurd h hfive
        · rfl
      exact .inr ⟨_, later, shellRead_append hlength later, .inr ⟨⟨_, hturn⟩, .inr rfl⟩⟩
  | limit channel length later hlength =>
      exact .inl ⟨_, (shellRead_header channel length later).trans (if_pos hlength), .inl rfl⟩
  | header bytes hlength =>
      refine .inl ⟨"failed to fill whole buffer", ?_, .inr rfl⟩
      rw [shellRead_eq, readExact, if_neg (Nat.not_le_of_lt hlength)]
      rfl
  | data channel length data hlength hcut =>
      refine .inl ⟨"failed to fill whole buffer", ?_, .inr rfl⟩
      rw [shellRead_header, if_neg (Nat.not_lt_of_le hlength), readExact,
        if_neg (Nat.not_le_of_lt hcut)]
      rfl

/-- A frame goes to the process, or is about the terminal that there is not, or
ends the input. -/
theorem turn_cases (frame : UInt8 × Bytes) (hlength : frame.2.length ≤ maxPayload) :
    (frame.1 = 0 ∨ frame.1 = 5) ∨
      ∃ ending, ∀ later, Ends (frameBytes frame ++ later) ending := by
  obtain ⟨channel, data⟩ := frame
  by_cases hchannel : channel ≠ 0 ∧ channel ≠ 4 ∧ channel ≠ 5
  · exact .inr ⟨_, fun later => .channel channel data later hchannel hlength⟩
  · by_cases hfour : channel = 4
    · subst hfour
      by_cases hdata : data = []
      · subst hdata
        exact .inr ⟨_, fun later => .closed later⟩
      · exact .inr ⟨_, fun later => .closedWithData data later hdata hlength⟩
    · left
      by_contra hother
      rw [not_or] at hother
      exact hchannel ⟨hother.1, hfour, hother.2⟩

/-- Every input arrives in this way. -/
theorem exists_arrives (input : Bytes) : ∃ front ending, Arrives input front ending := by
  induction hlength : input.length using Nat.strong_induction_on generalizing input with
  | _ n ih =>
      cases hread : shellRead readExact input with
      | error error =>
          rcases ends_of_error hread with hends | hends
          · exact ⟨[], .limit, fun f hf => (by cases hf), fun f hf => (by cases hf), input, rfl,
              hends⟩
          · exact ⟨[], .cut, fun f hf => (by cases hf), fun f hf => (by cases hf), input, rfl,
              hends⟩
      | ok found =>
          obtain ⟨frame, later⟩ := found
          obtain ⟨rfl, hsize⟩ := shellRead_ok hread
          rcases turn_cases frame hsize with hchannel | ⟨ending, hends⟩
          · obtain ⟨front, ending, hfront⟩ :=
              ih later.length (hlength ▸ shellRead_shorter hread) later rfl
            obtain ⟨rest, hrest, hends⟩ := hfront.bytes
            refine ⟨frame :: front, ending, List.forall_mem_cons.mpr ⟨hchannel, hfront.channels⟩,
              List.forall_mem_cons.mpr ⟨hsize, hfront.sizes⟩, rest, ?_, hends⟩
            rw [List.flatMap_cons, List.append_assoc, hrest]
          · exact ⟨[], ending, fun f hf => (by cases hf), fun f hf => (by cases hf), _, rfl,
              hends later⟩

/-- The data of the data frames, without the window sizes. -/
theorem turn_front (hchannel : frame.1 = 0 ∨ frame.1 = 5) :
    turn false ioctl frame = .ok (Service.payload 0 [frame], false) := by
  obtain ⟨channel, data⟩ := frame
  rcases hchannel with hzero | hfive
  · obtain rfl : channel = 0 := hzero
    exact congrArg (fun bytes => Except.ok (bytes, false)) (Service.payload_self 0 data).symm
  · obtain rfl : channel = 5 := hfive
    have hnone : Service.payload 0 [((5 : UInt8), data)] = [] :=
      Service.payload_other (by decide) data
    rw [hnone]
    rfl

/-- The data frames before the end of the input go to the process, and nothing
else; the process group is hung up unless an empty frame closed the input. -/
theorem input_arrives (ioctl : Winsize → Bool) (pieces : List Bytes) :
    (∃ front ending, Arrives pieces.flatten front ending) ∧
      ∀ front ending, Arrives pieces.flatten front ending →
        input false ioctl pieces = (Service.payload 0 front, decide (ending ≠ .closed)) := by
  refine ⟨exists_arrives _, fun front ending harrives => ?_⟩
  obtain ⟨hchannels, hsizes, rest, hrest, hends⟩ := harrives
  induction front generalizing pieces with
  | nil =>
      obtain rfl : pieces.flatten = rest := hrest
      rcases hends.read ioctl with
        ⟨error, hread, hending⟩ | ⟨frame, later, hread, hturn⟩
      · rw [input, inputFrames_error (receive_error hread)]
        rcases hending with rfl | rfl
        · rfl
        · rfl
      · obtain ⟨rest, hreceive, -⟩ := receive_ok hread
        rcases hturn with ⟨hlast, rfl⟩ | ⟨⟨error, hfault⟩, hending⟩
        · rw [input, inputFrames_last hreceive hlast]
          rfl
        · rw [input, inputFrames_fault hreceive hfault]
          rcases hending with rfl | rfl
          · rfl
          · rfl
  | cons frame front ih =>
      obtain ⟨hchannel, hchannels⟩ := List.forall_mem_cons.mp hchannels
      obtain ⟨hsize, hsizes⟩ := List.forall_mem_cons.mp hsizes
      rw [List.flatMap_cons, List.append_assoc] at hrest
      have hread := shellRead_append hsize (front.flatMap frameBytes ++ rest)
      rw [← hrest] at hread
      obtain ⟨pieces', hreceive, hlater⟩ := receive_ok hread
      have hinput := ih pieces' hchannels hsizes hlater
      rw [input] at hinput
      obtain ⟨hstdin, hhangup⟩ := Prod.mk.inj hinput
      have hpayload : Service.payload 0 (frame :: front) =
          Service.payload 0 [frame] ++ Service.payload 0 front :=
        Service.payload_append 0 [frame] front
      rw [input, inputFrames_more hreceive (turn_front hchannel), hpayload]
      exact Prod.ext (congrArg (Service.payload 0 [frame] ++ ·) hstdin) hhangup

end Shell

end Altdb
