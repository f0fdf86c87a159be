import Altdb.Ipc
import Altdb.JsonText
import Altdb.Protocol

/-!
# Multicast DNS

The names of the services are sent and read label by label.  A name in a packet
may continue at any other place of the packet, so reading it follows pointers
that a stranger chose, while the reader itself goes on behind the first of them.
-/

namespace Altdb

namespace Mdns

open JsonText (Text)

def CONNECT : String := "_adb-tls-connect._tcp.local"
def PAIR : String := "_adb-tls-pairing._tcp.local"

/-! ## Reading names -/

/-- An error of the source, or an index out of bounds. -/
inductive Fault where
  | invalid (message : String)
  | panic
  deriving DecidableEq, Repr

/-- The variables of the loop in `query_name`. -/
structure Cursor where
  p : ℕ
  next : Option ℕ
  labels : List Text
  steps : ℕ
  total : ℕ
  deriving DecidableEq, Repr

/-- `data[p]`. -/
def index (data : Bytes) (p : ℕ) : Except Fault UInt8 :=
  match data[p]? with
  | some b => .ok b
  | none => .error .panic

/-- `&data[p..q]`. -/
def slice (data : Bytes) (p q : ℕ) : Except Fault Bytes :=
  if p ≤ q ∧ q ≤ data.length then .ok ((data.drop p).take (q - p)) else .error .panic

def check (condition : Prop) [Decidable condition] (message : String) : Except Fault Unit :=
  if condition then .ok () else .error (.invalid message)

/-- `str::from_utf8`. -/
def fromUtf8 (bytes : Bytes) : Except Fault Text :=
  match JsonText.ofBytes bytes with
  | some text => .ok text
  | none => .error (.invalid "invalid utf-8")

/-- `to_ascii_lowercase`. -/
def lower (text : Text) : Text := text.map Char.toLower

inductive Round where
  | done (c : Cursor)
  | more (c : Cursor)

/-- A pointer: the reader goes on behind the first one. -/
def pointer (data : Bytes) (c : Cursor) (len : UInt8) : Except Fault Round := do
  let p := c.p + 1
  check (p < data.length) "truncated DNS pointer"
  let low ← index data p
  return .more { c with
    next := some (c.next.getD (p + 1))
    p := ((len.toNat &&& 0x3f) <<< 8) ||| low.toNat
    steps := c.steps + 1 }

/-- A label of the name. -/
def label (data : Bytes) (c : Cursor) (len : UInt8) : Except Fault Round := do
  let p := c.p + 1
  let len := len.toNat
  check (len ≤ 63 ∧ p + len ≤ data.length) "invalid DNS label"
  let total := c.total + len + 1
  check (total ≤ 255) "DNS name too long"
  let text ← fromUtf8 (← slice data p (p + len))
  return .more { c with
    p := p + len
    labels := c.labels ++ [lower text]
    steps := c.steps + 1
    total := total }

/-- One round of the loop. -/
def round (data : Bytes) (c : Cursor) : Except Fault Round := do
  check (c.steps + 1 ≤ 64 ∧ c.p < data.length) "invalid DNS name"
  let len ← index data c.p
  if len = 0 then return .done { c with p := c.p + 1, steps := c.steps + 1 }
  else if len &&& 0xc0 = 0xc0 then pointer data c len
  else label data c len

/-! ### Rounds -/

variable {data : Bytes} {c c' : Cursor} {len : UInt8} {fault : Fault}

theorem check_ok {condition : Prop} [Decidable condition] {message : String} (h : condition) :
    check condition message = .ok () := if_pos h

theorem check_error {condition : Prop} [Decidable condition] {message : String}
    (h : ¬condition) : check condition message = .error (.invalid message) := if_neg h

theorem index_eq {p : ℕ} (h : p < data.length) : index data p = .ok data[p] := by
  rw [index, List.getElem?_eq_getElem h]

theorem slice_eq {p q : ℕ} (h : p ≤ q) (hq : q ≤ data.length) :
    slice data p q = .ok ((data.drop p).take (q - p)) := if_pos ⟨h, hq⟩

/-- What a round can do. -/
inductive RoundCase (data : Bytes) (c : Cursor) : Except Fault Round → Prop where
  | stuck (message : String) : RoundCase data c (.error (.invalid message))
  | done (hsteps : c.steps < 64) (h : data[c.p]? = some 0) :
      RoundCase data c (.ok (.done { c with p := c.p + 1, steps := c.steps + 1 }))
  | pointer (len low : UInt8) (hsteps : c.steps < 64) (h : data[c.p]? = some len)
      (hlow : data[c.p + 1]? = some low) (hlen : len &&& 0xc0 = 0xc0) :
      RoundCase data c (.ok (.more { c with
        next := some (c.next.getD (c.p + 2))
        p := ((len.toNat &&& 0x3f) <<< 8) ||| low.toNat
        steps := c.steps + 1 }))
  | label (len : UInt8) (text : Text) (hsteps : c.steps < 64) (h : data[c.p]? = some len)
      (hpos : 0 < len.toNat) (hlen : len.toNat ≤ 63)
      (hend : c.p + 1 + len.toNat ≤ data.length) (htotal : c.total + len.toNat + 1 ≤ 255)
      (htext : JsonText.ofBytes ((data.drop (c.p + 1)).take len.toNat) = some text) :
      RoundCase data c (.ok (.more { c with
        p := c.p + 1 + len.toNat
        labels := c.labels ++ [lower text]
        steps := c.steps + 1
        total := c.total + len.toNat + 1 }))

theorem pointer_case (hsteps : c.steps < 64) (h : data[c.p]? = some len)
    (hlen : len &&& 0xc0 = 0xc0) : RoundCase data c (pointer data c len) := by
  unfold pointer
  dsimp only
  by_cases hlow : c.p + 1 < data.length
  · rw [check_ok hlow, index_eq hlow]
    exact .pointer len _ hsteps h (List.getElem?_eq_getElem hlow) hlen
  · rw [check_error hlow]
    exact .stuck _

theorem label_case (hsteps : c.steps < 64) (h : data[c.p]? = some len) (hpos : 0 < len.toNat) :
    RoundCase data c (label data c len) := by
  unfold label
  dsimp only
  by_cases hfits : len.toNat ≤ 63 ∧ c.p + 1 + len.toNat ≤ data.length
  swap
  · rw [check_error hfits]
    exact .stuck _
  by_cases htotal : c.total + len.toNat + 1 ≤ 255
  swap
  · rw [check_ok hfits, check_error htotal]
    exact .stuck _
  rw [check_ok hfits, check_ok htotal, slice_eq (Nat.le_add_right _ _) hfits.2,
    Nat.add_sub_cancel_left]
  change RoundCase data c (Except.bind (fromUtf8 _) _)
  unfold fromUtf8
  cases htext : JsonText.ofBytes ((data.drop (c.p + 1)).take len.toNat) with
  | none => exact .stuck _
  | some text => exact .label len text hsteps h hpos hfits.1 hfits.2 htotal htext

theorem round_case (data : Bytes) (c : Cursor) : RoundCase data c (round data c) := by
  unfold round
  by_cases hin : c.steps + 1 ≤ 64 ∧ c.p < data.length
  swap
  · rw [check_error hin]
    exact .stuck _
  have hsteps : c.steps < 64 := hin.1
  have hbyte : data[c.p]? = some data[c.p] := List.getElem?_eq_getElem hin.2
  rw [check_ok hin, index_eq hin.2]
  change RoundCase data c (if data[c.p] = 0 then _ else _)
  split
  · next hzero => exact .done hsteps (hzero ▸ hbyte)
  · next hzero =>
    split
    · next hlen => exact pointer_case hsteps hbyte hlen
    · exact label_case hsteps hbyte (Nat.pos_of_ne_zero fun h => hzero (UInt8.toNat_inj.mp h))

/-- A round is counted. -/
theorem round_steps (h : round data c = .ok (.more c')) :
    c'.steps = c.steps + 1 ∧ c.steps < 64 := by
  have hcase := round_case data c
  rw [h] at hcase
  cases hcase with
  | pointer _ _ hsteps => exact ⟨rfl, hsteps⟩
  | label _ _ hsteps => exact ⟨rfl, hsteps⟩

/-- The loop of `query_name`. -/
def rounds (data : Bytes) (c : Cursor) : Except Fault Cursor :=
  match _hround : round data c with
  | .error fault => .error fault
  | .ok (.done c') => .ok c'
  | .ok (.more c') => rounds data c'
termination_by 64 - c.steps
decreasing_by
  obtain ⟨hsteps, hlt⟩ := round_steps ‹_›
  omega

def start (offset : ℕ) : Cursor := ⟨offset, none, [], 0, 0⟩

/-- `labels.join(".")`. -/
def joinLabels (labels : List Text) : String := String.ofList (List.intercalate ['.'] labels)

/-- The name, and the new value of `*offset`. -/
def queryName (data : Bytes) (offset : ℕ) : Except Fault String × ℕ :=
  match rounds data (start offset) with
  | .error fault => (.error fault, offset)
  | .ok c => (.ok (joinLabels c.labels), c.next.getD c.p)

/-! ### Texts -/

theorem toBytes_of_ofBytes {bytes : Bytes} {text : Text}
    (h : JsonText.ofBytes bytes = some text) : JsonText.toBytes text = bytes := by
  obtain ⟨s, hs, rfl⟩ := Option.map_eq_some_iff.mp h
  unfold String.fromUTF8? at hs
  split at hs
  · next hvalid =>
    obtain rfl := Option.some.inj hs
    have hencode :
        (JsonText.toBytes (String.fromUTF8 bytes.toByteArray hvalid).toList).toByteArray =
        bytes.toByteArray := String.utf8Encode_toList
    have hdata := congrArg (fun b : ByteArray => b.data.toList) hencode
    simpa using hdata
  · cases hs

theorem utf8Size_toLower (c : Char) : c.toLower.utf8Size = c.utf8Size := by
  unfold Char.toLower
  split
  · next h =>
    have hle : c.toNat ≤ 90 := UInt32.le_iff_toNat_le.mp h.2
    have hlower : (c.val + ('a'.val - 'A'.val)).toNat = c.toNat + 32 := by
      rw [UInt32.toNat_add]
      change (c.toNat + 32) % 2 ^ 32 = _
      omega
    rw [JsonText.utf8Size_of_lt (Nat.lt_of_le_of_lt hle (by decide))]
    apply JsonText.utf8Size_of_lt
    change (c.val + ('a'.val - 'A'.val)).toNat < 128
    omega
  · rfl

theorem size_lower (text : Text) : JsonText.size (lower text) = JsonText.size text := by
  induction text with
  | nil => rfl
  | cons c rest ih =>
      change JsonText.size (c.toLower :: lower rest) = _
      rw [JsonText.size_cons, JsonText.size_cons, utf8Size_toLower, ih]

/-- The label of a packet has as many bytes as in the packet. -/
theorem size_of_ofBytes {bytes : Bytes} {text : Text} (h : JsonText.ofBytes bytes = some text) :
    JsonText.size (lower text) = bytes.length := by
  rw [size_lower, ← JsonText.length_toBytes, toBytes_of_ofBytes h]

/-! ## Where a name ends -/

/-- From one position to another by labels alone. -/
inductive Labels (data : Bytes) : ℕ → ℕ → Prop where
  | here (p : ℕ) : Labels data p p
  | label {p q : ℕ} {len : UInt8} (h : data[p]? = some len) (hpos : 0 < len.toNat)
      (hlen : len.toNat ≤ 63) (hend : p + 1 + len.toNat ≤ data.length)
      (rest : Labels data (p + 1 + len.toNat) q) : Labels data p q

/-- The end of the name at `offset`: behind the zero byte, or behind the first
pointer. -/
inductive Resume (data : Bytes) (offset : ℕ) : ℕ → Prop where
  | zero {q : ℕ} (path : Labels data offset q) (h : data[q]? = some 0) :
      Resume data offset (q + 1)
  | pointer {q : ℕ} {len : UInt8} (path : Labels data offset q) (h : data[q]? = some len)
      (hlen : len &&& 0xc0 = 0xc0) (hin : q + 1 < data.length) : Resume data offset (q + 2)

theorem Labels.append {p q : ℕ} {len : UInt8} (path : Labels data p q)
    (h : data[q]? = some len) (hpos : 0 < len.toNat) (hlen : len.toNat ≤ 63)
    (hend : q + 1 + len.toNat ≤ data.length) : Labels data p (q + 1 + len.toNat) := by
  induction path with
  | here => exact .label h hpos hlen hend (.here _)
  | label h' hpos' hlen' hend' _ ih => exact .label h' hpos' hlen' hend' (ih h hend)

theorem Labels.le {p q : ℕ} (path : Labels data p q) : p ≤ q := by
  induction path with
  | here => exact le_rfl
  | label _ _ _ _ _ ih => omega

theorem Resume.bounds {offset p : ℕ} (h : Resume data offset p) :
    offset < p ∧ p ≤ data.length := by
  cases h with
  | zero path h =>
      have hlt := (List.getElem?_eq_some_iff.mp h).1
      have hle := path.le
      omega
  | pointer path _ _ hin =>
      have hle := path.le
      omega

/-- Labels and pointers differ in their first byte. -/
theorem not_pointer_of_le {len : UInt8} (h : len.toNat ≤ 63) : ¬len &&& 0xc0 = 0xc0 := by
  have hall : ∀ n < 64, ¬UInt8.ofNat n &&& 0xc0 = 0xc0 := by decide
  have hlen := hall len.toNat (by omega)
  rwa [UInt8.ofNat_toNat] at hlen

/-- No label starts here. -/
def Stops (data : Bytes) (q : ℕ) : Prop :=
  ∀ len : UInt8, data[q]? = some len → 0 < len.toNat → ¬len.toNat ≤ 63

theorem stops_zero {q : ℕ} (h : data[q]? = some 0) : Stops data q := by
  intro len hlen hpos
  obtain rfl := Option.some.inj (h.symm.trans hlen)
  cases hpos

theorem stops_pointer {q : ℕ} (h : data[q]? = some len) (hpointer : len &&& 0xc0 = 0xc0) :
    Stops data q := by
  intro len' hlen _ hle
  obtain rfl := Option.some.inj (h.symm.trans hlen)
  exact not_pointer_of_le hle hpointer

/-- What stops the labels is reached by one path only. -/
theorem Labels.unique {p q q' : ℕ} (path : Labels data p q) (path' : Labels data p q')
    (hstop : Stops data q) (hstop' : Stops data q') : q = q' := by
  induction path with
  | here =>
      cases path' with
      | here => rfl
      | label h hpos hlen => exact absurd hlen (hstop _ h hpos)
  | label h hpos hlen hend rest ih =>
      cases path' with
      | here => exact absurd hlen (hstop' _ h hpos)
      | label h' hpos' hlen' hend' rest' =>
          obtain rfl := Option.some.inj (h.symm.trans h')
          exact ih rest' hstop

/-- The end depends on the labels before the first pointer only. -/
theorem Resume.unique {offset p p' : ℕ} (h : Resume data offset p)
    (h' : Resume data offset p') : p = p' := by
  cases h with
  | zero path hq =>
      cases h' with
      | zero path' hq' => rw [path.unique path' (stops_zero hq) (stops_zero hq')]
      | pointer path' hq' hlen' =>
          obtain rfl := path.unique path' (stops_zero hq) (stops_pointer hq' hlen')
          obtain rfl := Option.some.inj (hq.symm.trans hq')
          exact absurd hlen' (by decide)
  | pointer path hq hlen =>
      cases h' with
      | zero path' hq' =>
          obtain rfl := path.unique path' (stops_pointer hq hlen) (stops_zero hq')
          obtain rfl := Option.some.inj (hq.symm.trans hq')
          exact absurd hlen (by decide)
      | pointer path' hq' hlen' =>
          rw [path.unique path' (stops_pointer hq hlen) (stops_pointer hq' hlen')]

/-! ## All rounds -/

/-- The cursors that the loop reaches. -/
inductive Visited (data : Bytes) (offset : ℕ) : Cursor → Prop where
  | start : Visited data offset (start offset)
  | more {c c' : Cursor} (h : Visited data offset c) (hround : round data c = .ok (.more c')) :
      Visited data offset c'

/-- The sizes of labels with their length bytes. -/
def labelBytes (labels : List Text) : ℕ := (labels.map fun l => JsonText.size l + 1).sum

/-- What holds in each round. -/
structure Bounded (data : Bytes) (offset : ℕ) (c : Cursor) : Prop where
  steps : c.steps ≤ 64
  total : labelBytes c.labels = c.total
  total_le : c.total ≤ 255
  /-- No pointer was met yet. -/
  direct : c.next = none → Labels data offset c.p
  resumed : ∀ p, c.next = some p → Resume data offset p

theorem bounded_start (data : Bytes) (offset : ℕ) : Bounded data offset (start offset) where
  steps := Nat.zero_le _
  total := rfl
  total_le := Nat.zero_le _
  direct := fun _ => .here offset
  resumed := fun p h => by cases h

theorem labelBytes_append (labels : List Text) (text : Text) :
    labelBytes (labels ++ [text]) = labelBytes labels + (JsonText.size text + 1) := by
  simp [labelBytes]

theorem Bounded.more {offset : ℕ} (h : Bounded data offset c)
    (hround : round data c = .ok (.more c')) : Bounded data offset c' := by
  have hcase := round_case data c
  rw [hround] at hcase
  cases hcase with
  | pointer len low hsteps hlen hlow hpointer =>
      refine ⟨hsteps, h.total, h.total_le, fun hnone => (by cases hnone), fun p hp => ?_⟩
      cases hnext : c.next with
      | some q =>
          simp only [hnext, Option.getD_some, Option.some.injEq] at hp
          exact hp ▸ h.resumed q hnext
      | none =>
          simp only [hnext, Option.getD_none, Option.some.injEq] at hp
          have hin := (List.getElem?_eq_some_iff.mp hlow).1
          exact hp ▸ .pointer (h.direct hnext) hlen hpointer hin
  | label len text hsteps hbyte hpos hlen hend htotal htext =>
      have hsize : JsonText.size (lower text) = len.toNat := by
        rw [size_of_ofBytes htext, List.length_take, List.length_drop]
        omega
      refine ⟨hsteps, ?_, htotal, fun hnone => ?_, h.resumed⟩
      · rw [labelBytes_append, h.total, hsize]
        rfl
      · exact (h.direct hnone).append hbyte hpos hlen hend

theorem Visited.bounded {offset : ℕ} (h : Visited data offset c) : Bounded data offset c := by
  induction h with
  | start => exact bounded_start data offset
  | more _ hround ih => exact ih.more hround

theorem rounds_error (h : round data c = .error fault) : rounds data c = .error fault := by
  rw [rounds]
  split
  · next heq =>
    cases heq.symm.trans h
    rfl
  · next heq => cases heq.symm.trans h
  · next heq => cases heq.symm.trans h

theorem rounds_done (h : round data c = .ok (.done c')) : rounds data c = .ok c' := by
  rw [rounds]
  split
  · next heq => cases heq.symm.trans h
  · next heq =>
    cases heq.symm.trans h
    rfl
  · next heq => cases heq.symm.trans h

theorem rounds_more (h : round data c = .ok (.more c')) : rounds data c = rounds data c' := by
  rw [rounds]
  split
  · next heq => cases heq.symm.trans h
  · next heq => cases heq.symm.trans h
  · next heq =>
    cases heq.symm.trans h
    rfl

/-- The induction along the rounds. -/
theorem rounds_induction {motive : Cursor → Prop}
    (error : ∀ c fault, round data c = .error fault → motive c)
    (done : ∀ c c', round data c = .ok (.done c') → motive c)
    (more : ∀ c c', round data c = .ok (.more c') → motive c' → motive c) (c : Cursor) :
    motive c := by
  induction hleft : 64 - c.steps using Nat.strong_induction_on generalizing c with
  | _ left ih =>
      cases hround : round data c with
      | error fault => exact error c fault hround
      | ok r =>
          cases r with
          | done c' => exact done c c' hround
          | more c' =>
              obtain ⟨hsteps, hlt⟩ := round_steps hround
              exact more c c' hround (ih (64 - c'.steps) (by omega) c' rfl)

/-- The loop ends in a round of a cursor that it reached. -/
theorem rounds_visited {offset : ℕ} (h : Visited data offset c) :
    ∃ last, Visited data offset last ∧
      ((∃ fault, rounds data c = .error fault ∧ round data last = .error fault) ∨
        ∃ c', rounds data c = .ok c' ∧ round data last = .ok (.done c')) := by
  induction c using @rounds_induction data with
  | error c fault hround => exact ⟨c, h, .inl ⟨fault, rounds_error hround, hround⟩⟩
  | done c c' hround => exact ⟨c, h, .inr ⟨c', rounds_done hround, hround⟩⟩
  | more c c' hround ih =>
      rw [rounds_more hround]
      exact ih (h.more hround)

theorem round_fault (h : round data c = .error fault) : fault ≠ .panic := by
  have hcase := round_case data c
  rw [h] at hcase
  cases hcase with
  | stuck message => exact fun h => by cases h

/-- Reading a name stays in the packet, counts its steps and leaves the reader
behind the name. -/
theorem queryName_safe (data : Bytes) (offset : ℕ) :
    (∀ c, Visited data offset c → c.steps ≤ 64 ∧ round data c ≠ .error .panic) ∧
      (∀ fault p, queryName data offset = (.error fault, p) → fault ≠ .panic ∧ p = offset) ∧
      ∀ name p, queryName data offset = (.ok name, p) →
        offset < p ∧ p ≤ data.length ∧ Resume data offset p ∧
          ∃ labels, name = joinLabels labels ∧ labelBytes labels ≤ 255 := by
  obtain ⟨last, hvisited, hend⟩ := @rounds_visited data _ offset .start
  refine ⟨fun c hc => ⟨hc.bounded.steps, fun hpanic => round_fault hpanic rfl⟩, ?_, ?_⟩
  · intro fault p heq
    rcases hend with ⟨fault', hrounds, hround⟩ | ⟨c', hrounds, hround⟩
    · rw [queryName, hrounds] at heq
      obtain ⟨hfault, rfl⟩ := Prod.mk.inj heq
      exact ⟨Except.error.inj hfault ▸ round_fault hround, rfl⟩
    · rw [queryName, hrounds] at heq
      cases (Prod.mk.inj heq).1
  · intro name p heq
    rcases hend with ⟨fault', hrounds, hround⟩ | ⟨c', hrounds, hround⟩
    · rw [queryName, hrounds] at heq
      cases (Prod.mk.inj heq).1
    · rw [queryName, hrounds] at heq
      obtain ⟨hname, rfl⟩ := Prod.mk.inj heq
      have hbounded := hvisited.bounded
      have hcase := round_case data last
      rw [hround] at hcase
      have hresume : Resume data offset (c'.next.getD c'.p) := by
        cases hcase with
        | done hsteps hzero =>
            cases hnext : last.next with
            | none => exact .zero (hbounded.direct hnext) hzero
            | some q => exact hbounded.resumed q hnext
      refine ⟨hresume.bounds.1, hresume.bounds.2, hresume, c'.labels,
        (Except.ok.inj hname).symm, ?_⟩
      cases hcase with
      | done hsteps hzero => exact hbounded.total.trans_le hbounded.total_le

end Mdns

end Altdb
