import Altdb.JsonText
import Altdb.StateSize

/-!
# Hexadecimal fingerprints

`unhex` reads a string pair by pair with the integer parser of the standard
library, which allows a plus sign.
-/

namespace Altdb

open JsonText (hexValue)

/-! ## Parsing -/

/-- The digit loop of `from_str_radix`. -/
def radixDigits (limit value : ℕ) : List Char → Except String ℕ
  | [] => .ok value
  | c :: rest =>
      match hexValue c with
      | none => .error "invalid digit found in string"
      | some digit =>
          let next := value * 16 + digit
          if next ≤ limit then radixDigits limit next rest
          else .error "number too large to fit in target type"

/-- `u8::from_str_radix(_, 16)`. -/
def fromStrRadix : List Char → Except String UInt8
  | [] => .error "cannot parse integer from empty string"
  | c :: digits =>
      if (c = '+' ∨ c = '-') ∧ digits = [] then .error "invalid digit found in string"
      else (radixDigits 255 0 (if c = '+' then digits else c :: digits)).map UInt8.ofNat

/-- `chunks_exact(2)`. -/
def chunkPairs : List Char → List (Char × Char)
  | a :: b :: rest => (a, b) :: chunkPairs rest
  | _ => []

def parsePair (pair : Char × Char) : Except String UInt8 := fromStrRadix [pair.1, pair.2]

/-- `str::is_ascii`. -/
def isAscii (s : String) : Bool := s.toList.all fun c => c.toNat < 128

/-- The pairs are read in order, up to the first error. -/
def parsePairs : List (Char × Char) → Except String Bytes
  | [] => .ok []
  | pair :: rest => do
      let b ← parsePair pair
      let bytes ← parsePairs rest
      return b :: bytes

def unhex (s : String) : Except String Bytes :=
  if s.utf8ByteSize % 2 = 0 ∧ isAscii s then parsePairs (chunkPairs s.toList)
  else .error "invalid hex"

/-- The keys that `Tls::accept` allows. -/
def allowedKeys : List String → Except String Bytes
  | [] => .ok []
  | fp :: rest => do
      let b ← unhex fp
      if b.length ≠ 32 then throw "invalid fingerprint"
      let keys ← allowedKeys rest
      return b ++ keys

/-! ## Digits -/

def isHexDigit (c : Char) : Bool := (hexValue c).isSome

/-- `to_ascii_lowercase`. -/
def asciiLower (s : String) : String := String.ofList (s.toList.map Char.toLower)

theorem hexDigit_cases : ∀ n < 128, (hexValue (Char.ofNat n)).all fun v =>
    v < 16 && hexDigit v == (Char.ofNat n).toLower := by
  decide +kernel

theorem ascii_of_hexValue {c : Char} {v : ℕ} (h : hexValue c = some v) : c.toNat < 128 := by
  unfold hexValue at h
  split at h
  · next hdigit =>
    have hle := (Char.isDigit_iff_toNat.mp hdigit).2
    exact hle.trans_lt (by decide)
  · split at h
    · omega
    · split at h
      · omega
      · cases h

/-- The digits of a byte, in lower case. -/
theorem hexDigit_hexValue {c : Char} {v : ℕ} (h : hexValue c = some v) :
    v < 16 ∧ hexDigit v = c.toLower := by
  have hc := hexDigit_cases c.toNat (ascii_of_hexValue h)
  rw [Char.ofNat_toNat, h] at hc
  simpa using hc

theorem hexValue_hexDigit : ∀ v < 16, hexValue (hexDigit v) = some v := by
  decide +kernel

theorem toLower_hexDigit : ∀ v < 16, (hexDigit v).toLower = hexDigit v := by
  decide +kernel

theorem radixDigits_some {c : Char} {value v : ℕ} (rest : List Char) (h : hexValue c = some v)
    (hle : value * 16 + v ≤ 255) :
    radixDigits 255 value (c :: rest) = radixDigits 255 (value * 16 + v) rest := by
  simp only [radixDigits, h]
  rw [if_pos hle]

theorem radixDigits_none {c : Char} (value : ℕ) (rest : List Char) (h : hexValue c = none) :
    radixDigits 255 value (c :: rest) = .error "invalid digit found in string" := by
  simp only [radixDigits, h]

theorem radixDigits_single {b : Char} {y : ℕ} (h : hexValue b = some y) :
    radixDigits 255 0 [b] = .ok y := by
  have hy := (hexDigit_hexValue h).1
  rw [radixDigits_some [] h (by omega), radixDigits, Nat.zero_mul, Nat.zero_add]

theorem radixDigits_pair {a b : Char} {x y : ℕ} (ha : hexValue a = some x)
    (hb : hexValue b = some y) : radixDigits 255 0 [a, b] = .ok (x * 16 + y) := by
  have hx := (hexDigit_hexValue ha).1
  have hy := (hexDigit_hexValue hb).1
  rw [radixDigits_some [b] ha (by omega), radixDigits_some [] hb (by omega), radixDigits,
    Nat.zero_mul, Nat.zero_add]

/-- The value of the first character of a pair: a plus sign counts nothing. -/
def highValue (a : Char) : Option ℕ := if a = '+' then some 0 else hexValue a

theorem parsePair_some {a b : Char} {x y : ℕ} (ha : highValue a = some x)
    (hb : hexValue b = some y) : parsePair (a, b) = .ok (UInt8.ofNat (x * 16 + y)) := by
  have hcons : ¬((a = '+' ∨ a = '-') ∧ [b] = []) := fun h => by cases h.2
  unfold highValue at ha
  rw [parsePair, fromStrRadix, if_neg hcons]
  split at ha
  · next hplus =>
    obtain rfl := Option.some.inj ha
    rw [if_pos hplus, radixDigits_single hb, Nat.zero_mul, Nat.zero_add]
    rfl
  · next hplus =>
    rw [if_neg hplus, radixDigits_pair ha hb]
    rfl

theorem parsePair_none {a b : Char} (h : highValue a = none ∨ hexValue b = none) :
    ∃ error, parsePair (a, b) = .error error := by
  have hcons : ¬((a = '+' ∨ a = '-') ∧ [b] = []) := fun h => by cases h.2
  unfold highValue at h
  rw [parsePair, fromStrRadix, if_neg hcons]
  by_cases hplus : a = '+'
  · rw [if_pos hplus] at h ⊢
    rcases h with hhigh | hlow
    · cases hhigh
    · rw [radixDigits_none 0 [] hlow]
      exact ⟨_, rfl⟩
  · rw [if_neg hplus] at h ⊢
    cases hhigh : hexValue a with
    | none =>
        rw [radixDigits_none 0 [b] hhigh]
        exact ⟨_, rfl⟩
    | some x =>
        have hx := (hexDigit_hexValue hhigh).1
        rcases h with hnone | hlow
        · cases hhigh.symm.trans hnone
        · rw [radixDigits_some [b] hhigh (by omega), radixDigits_none _ [] hlow]
          exact ⟨_, rfl⟩

/-! ## Pairs -/

theorem chunkPairs_eq {chars : List Char} (h : chars.length % 2 = 0) :
    (chunkPairs chars).flatMap (fun p => [p.1, p.2]) = chars := by
  induction chars using chunkPairs.induct with
  | case1 a b rest ih =>
      simp only [List.length_cons] at h
      rw [chunkPairs, List.flatMap_cons, ih (by omega)]
      rfl
  | case2 chars hshort =>
      cases chars with
      | nil => rfl
      | cons a rest =>
          cases rest with
          | nil => cases h
          | cons b rest => exact absurd rfl (hshort a b rest)

/-- A pair that is read. -/
def ReadPair (pair : Char × Char) : Prop :=
  (pair.1 = '+' ∨ isHexDigit pair.1 = true) ∧ isHexDigit pair.2 = true

/-- A pair of digits. -/
def DigitPair (pair : Char × Char) : Prop :=
  isHexDigit pair.1 = true ∧ isHexDigit pair.2 = true

theorem highValue_isSome (a : Char) :
    (highValue a).isSome = true ↔ a = '+' ∨ isHexDigit a = true := by
  unfold highValue isHexDigit
  split
  · next hplus => exact ⟨fun _ => .inl hplus, fun _ => rfl⟩
  · next hplus => exact ⟨.inr, fun h => h.resolve_left hplus⟩

theorem parsePair_iff (pair : Char × Char) :
    (∃ b, parsePair pair = .ok b) ↔ ReadPair pair := by
  obtain ⟨a, b⟩ := pair
  constructor
  · rintro ⟨n, hn⟩
    by_contra hnot
    have hnone : highValue a = none ∨ hexValue b = none := by
      by_contra hsome
      rw [not_or, ← ne_eq, ← ne_eq, ← Option.isSome_iff_ne_none, ← Option.isSome_iff_ne_none,
        highValue_isSome] at hsome
      exact hnot hsome
    obtain ⟨error, herror⟩ := parsePair_none hnone
    cases herror.symm.trans hn
  · rintro ⟨hhigh, hlow⟩
    obtain ⟨x, hx⟩ := Option.isSome_iff_exists.mp ((highValue_isSome a).mpr hhigh)
    obtain ⟨y, hy⟩ := Option.isSome_iff_exists.mp hlow
    exact ⟨_, parsePair_some hx hy⟩

theorem parsePairs_cons {pair : Char × Char} {rest : List (Char × Char)} {bytes : Bytes} :
    parsePairs (pair :: rest) = .ok bytes ↔
      ∃ b found, parsePair pair = .ok b ∧ parsePairs rest = .ok found ∧ bytes = b :: found := by
  rw [parsePairs]
  cases hpair : parsePair pair with
  | error error =>
      refine ⟨fun h => (by cases h), fun h => ?_⟩
      obtain ⟨b, found, hb, -⟩ := h
      cases hb
  | ok b =>
      cases hrest : parsePairs rest with
      | error error =>
          refine ⟨fun h => (by cases h), fun h => ?_⟩
          obtain ⟨b', found, -, hfound, -⟩ := h
          cases hfound
      | ok found =>
          constructor
          · intro h
            exact ⟨b, found, rfl, rfl, (Except.ok.inj h).symm⟩
          · rintro ⟨b', found', hb, hfound, rfl⟩
            obtain rfl := Except.ok.inj hb
            obtain rfl := Except.ok.inj hfound
            rfl

/-- The readable pairs are read. -/
theorem parsePairs_iff (pairs : List (Char × Char)) :
    (∃ bytes, parsePairs pairs = .ok bytes) ↔ ∀ p ∈ pairs, ReadPair p := by
  induction pairs with
  | nil => exact ⟨fun _ p hp => (by cases hp), fun _ => ⟨[], rfl⟩⟩
  | cons pair rest ih =>
      rw [List.forall_mem_cons, ← ih, ← parsePair_iff]
      constructor
      · rintro ⟨bytes, hbytes⟩
        obtain ⟨b, found, hb, hfound, -⟩ := parsePairs_cons.mp hbytes
        exact ⟨⟨b, hb⟩, found, hfound⟩
      · rintro ⟨⟨b, hb⟩, found, hfound⟩
        exact ⟨b :: found, parsePairs_cons.mpr ⟨b, found, hb, hfound, rfl⟩⟩

/-- The two digits of a byte. -/
def digitsOf (b : UInt8) : List Char := [hexDigit (b.toNat / 16), hexDigit (b.toNat % 16)]

/-- Digits are the byte of which they are the lower case digits. -/
theorem parsePair_digits {pair : Char × Char} (h : DigitPair pair) (n : UInt8) :
    parsePair pair = .ok n ↔ [pair.1.toLower, pair.2.toLower] = digitsOf n := by
  obtain ⟨a, b⟩ := pair
  obtain ⟨x, hx⟩ := Option.isSome_iff_exists.mp h.1
  obtain ⟨y, hy⟩ := Option.isSome_iff_exists.mp h.2
  have hplus : a ≠ '+' := by
    rintro rfl
    cases hx
  have hhigh : highValue a = some x := by
    rw [highValue, if_neg hplus]
    exact hx
  obtain ⟨hx16, hxdigit⟩ := hexDigit_hexValue hx
  obtain ⟨hy16, hydigit⟩ := hexDigit_hexValue hy
  have hsplit : ∀ n : UInt8,
      (UInt8.ofNat (x * 16 + y) = n ↔ x = n.toNat / 16 ∧ y = n.toNat % 16) := by
    intro n
    have hn := n.toNat_lt
    have hlt : x * 16 + y < 2 ^ 8 := by omega
    rw [← UInt8.toNat_inj, UInt8.toNat_ofNat_of_lt' hlt]
    omega
  rw [parsePair_some hhigh hy, Except.ok.injEq, hsplit, digitsOf, ← hxdigit, ← hydigit]
  have hdigit : ∀ v < 16, ∀ w < 16, (hexDigit v = hexDigit w ↔ v = w) := by
    intro v hv w hw
    refine ⟨fun heq => ?_, fun heq => heq ▸ rfl⟩
    have hvalue := congrArg hexValue heq
    rw [hexValue_hexDigit v hv, hexValue_hexDigit w hw] at hvalue
    exact Option.some.inj hvalue
  have hn := n.toNat_lt
  simp only [List.cons.injEq, and_true]
  rw [hdigit x hx16 _ (by omega), hdigit y hy16 _ (by omega)]

theorem parsePairs_digits {pairs : List (Char × Char)} (h : ∀ p ∈ pairs, DigitPair p)
    (bytes : Bytes) :
    parsePairs pairs = .ok bytes ↔
      pairs.flatMap (fun p => [p.1.toLower, p.2.toLower]) = bytes.flatMap digitsOf := by
  induction pairs generalizing bytes with
  | nil =>
      cases bytes with
      | nil => exact ⟨fun _ => rfl, fun _ => rfl⟩
      | cons b rest => exact ⟨fun h => (by cases h), fun h => (by cases h)⟩
  | cons pair rest ih =>
      rw [List.forall_mem_cons] at h
      rw [parsePairs_cons]
      constructor
      · rintro ⟨b, found, hb, hfound, rfl⟩
        rw [List.flatMap_cons, List.flatMap_cons, (parsePair_digits h.1 b).mp hb,
          (ih h.2 found).mp hfound]
      · intro heq
        cases bytes with
        | nil => cases heq
        | cons b found =>
            obtain ⟨hfirst, hrest⟩ := List.append_inj heq rfl
            exact ⟨b, found, (parsePair_digits h.1 b).mpr hfirst, (ih h.2 found).mpr hrest, rfl⟩

/-! ## Strings -/

/-- A string of digits that are the bytes. -/
def IsHexOf (s : String) (bytes : Bytes) : Prop :=
  (∀ c ∈ s.toList, isHexDigit c = true) ∧ asciiLower s = hex bytes

/-- A string of readable pairs, one of which starts with a plus sign. -/
def Signed (s : String) : Prop :=
  s.toList.length % 2 = 0 ∧ (∀ p ∈ chunkPairs s.toList, ReadPair p) ∧
    ∃ p ∈ chunkPairs s.toList, p.1 = '+'

theorem isHexOf_iff {s : String} {bytes : Bytes} (heven : s.toList.length % 2 = 0)
    (h : ∀ p ∈ chunkPairs s.toList, DigitPair p) :
    IsHexOf s bytes ↔ parsePairs (chunkPairs s.toList) = .ok bytes := by
  have hchars := chunkPairs_eq heven
  have hdigits : ∀ c ∈ s.toList, isHexDigit c = true := by
    rw [← hchars]
    intro c hc
    obtain ⟨p, hp, hc⟩ := List.mem_flatMap.mp hc
    rcases List.mem_pair.mp hc with rfl | rfl
    · exact (h p hp).1
    · exact (h p hp).2
  have hlower : asciiLower s = hex bytes ↔
      (chunkPairs s.toList).flatMap (fun p => [p.1.toLower, p.2.toLower]) =
        bytes.flatMap digitsOf := by
    rw [← String.toList_inj, hex_toList, asciiLower, String.toList_ofList]
    conv_lhs => rw [← hchars, List.map_flatMap]
    rfl
  rw [IsHexOf, hlower, parsePairs_digits h]
  exact ⟨fun h => h.2, fun h => ⟨hdigits, h⟩⟩

theorem utf8ByteSize_of_ascii {s : String} (h : isAscii s = true) :
    s.utf8ByteSize = s.toList.length := by
  have hone : ∀ text : List Char, (∀ c ∈ text, c.toNat < 128) →
      JsonText.size text = text.length := by
    intro text htext
    induction text with
    | nil => rfl
    | cons c rest ih =>
        rw [List.forall_mem_cons] at htext
        rw [JsonText.size_cons, JsonText.utf8Size_of_lt htext.1, ih htext.2, List.length_cons,
          Nat.add_comm]
  rw [← JsonText.size_toList]
  refine hone s.toList fun c hc => ?_
  exact of_decide_eq_true (List.all_eq_true.mp h c hc)

theorem unhex_ok {s : String} {bytes : Bytes} :
    unhex s = .ok bytes ↔ s.toList.length % 2 = 0 ∧ isAscii s = true ∧
      parsePairs (chunkPairs s.toList) = .ok bytes := by
  unfold unhex
  constructor
  · intro h
    split at h
    · next hcheck =>
      rw [utf8ByteSize_of_ascii hcheck.2] at hcheck
      exact ⟨hcheck.1, hcheck.2, h⟩
    · cases h
  · rintro ⟨heven, hascii, hpairs⟩
    rw [← utf8ByteSize_of_ascii hascii] at heven
    rw [if_pos ⟨heven, hascii⟩, hpairs]

/-- Readable pairs are ASCII. -/
theorem isAscii_of_readPair {s : String} (heven : s.toList.length % 2 = 0)
    (h : ∀ p ∈ chunkPairs s.toList, ReadPair p) : isAscii s = true := by
  have hdigit : ∀ c, isHexDigit c = true → c.toNat < 128 := by
    intro c hc
    obtain ⟨v, hv⟩ := Option.isSome_iff_exists.mp hc
    exact ascii_of_hexValue hv
  refine List.all_eq_true.mpr fun c hc => decide_eq_true ?_
  rw [← chunkPairs_eq heven] at hc
  obtain ⟨p, hp, hc⟩ := List.mem_flatMap.mp hc
  obtain ⟨hhigh, hlow⟩ := h p hp
  rcases List.mem_pair.mp hc with rfl | rfl
  · rcases hhigh with hplus | hhigh
    · rw [hplus]
      decide
    · exact hdigit _ hhigh
  · exact hdigit _ hlow

theorem digitPair_of_digits {s : String} (heven : s.toList.length % 2 = 0)
    (h : ∀ c ∈ s.toList, isHexDigit c = true) : ∀ p ∈ chunkPairs s.toList, DigitPair p := by
  intro p hp
  rw [← chunkPairs_eq heven] at h
  exact ⟨h p.1 (List.mem_flatMap.mpr ⟨p, hp, List.mem_cons_self⟩),
    h p.2 (List.mem_flatMap.mpr ⟨p, hp, List.mem_cons_of_mem _ List.mem_cons_self⟩)⟩

theorem IsHexOf.even {s : String} {bytes : Bytes} (h : IsHexOf s bytes) :
    s.toList.length % 2 = 0 := by
  have hlength := congrArg (fun t : String => t.toList.length) h.2
  simp only [asciiLower, String.toList_ofList, List.length_map, hex_length] at hlength
  rw [hlength]
  exact Nat.mul_mod_right 2 _

/-- A plain hexadecimal string is read. -/
theorem IsHexOf.unhex {s : String} {bytes : Bytes} (h : IsHexOf s bytes) :
    unhex s = .ok bytes := by
  have hpairs := digitPair_of_digits h.even h.1
  rw [unhex_ok]
  refine ⟨h.even, isAscii_of_readPair h.even fun p hp => ?_, (isHexOf_iff h.even hpairs).mp h⟩
  exact ⟨.inr (hpairs p hp).1, (hpairs p hp).2⟩

theorem isHexOf_hex (bytes : Bytes) : IsHexOf (hex bytes) bytes := by
  have hdigit : ∀ c ∈ (hex bytes).toList, isHexDigit c = true ∧ c.toLower = c := by
    intro c hc
    rw [hex_toList, List.mem_flatMap] at hc
    obtain ⟨b, -, hc⟩ := hc
    have hb := b.toNat_lt
    have hvalue : ∀ v < 16, isHexDigit (hexDigit v) = true ∧
        (hexDigit v).toLower = hexDigit v := by
      intro v hv
      refine ⟨?_, toLower_hexDigit v hv⟩
      rw [isHexDigit, hexValue_hexDigit v hv]
      rfl
    rcases List.mem_pair.mp hc with rfl | rfl
    · exact hvalue _ (by omega)
    · exact hvalue _ (by omega)
  refine ⟨fun c hc => (hdigit c hc).1, ?_⟩
  rw [← String.toList_inj, asciiLower, String.toList_ofList]
  exact (List.map_congr_left fun c hc => (hdigit c hc).2).trans (List.map_id _)

/-- What `hex` writes is read back. -/
theorem unhex_hex (bytes : Bytes) : unhex (hex bytes) = .ok bytes := (isHexOf_hex bytes).unhex

/-- The plain hexadecimal strings are what is read, but for strings with a plus
sign in place of a first digit. -/
theorem unhex_iff (s : String) :
    (∀ bytes, unhex s = .ok bytes ↔ IsHexOf s bytes) ↔ ¬Signed s := by
  constructor
  · rintro hiff ⟨heven, hread, p, hp, hplus⟩
    obtain ⟨bytes, hbytes⟩ := (parsePairs_iff _).mpr hread
    have hunhex : unhex s = .ok bytes :=
      unhex_ok.mpr ⟨heven, isAscii_of_readPair heven hread, hbytes⟩
    have hdigits := digitPair_of_digits heven ((hiff bytes).mp hunhex).1 p hp
    have hdigit := hdigits.1
    rw [hplus] at hdigit
    cases hdigit
  · intro hsigned bytes
    refine ⟨fun hunhex => ?_, fun h => h.unhex⟩
    obtain ⟨heven, -, hbytes⟩ := unhex_ok.mp hunhex
    have hread := (parsePairs_iff _).mp ⟨bytes, hbytes⟩
    have hpairs : ∀ p ∈ chunkPairs s.toList, DigitPair p := by
      intro p hp
      refine ⟨(hread p hp).1.resolve_left fun hplus => ?_, (hread p hp).2⟩
      exact hsigned ⟨heven, hread, p, hp, hplus⟩
    exact (isHexOf_iff heven hpairs).mpr hbytes

theorem unhex_iff_fails : unhex "+a" = .ok [10] ∧ ¬IsHexOf "+a" [10] := by
  refine ⟨by decide +kernel, fun h => ?_⟩
  have hplus := h.1 '+' (by decide)
  cases hplus

/-- The fingerprints of the store are read as the keys that they stand for. -/
theorem allowedKeys_hex (keys : List Bytes) (h : ∀ key ∈ keys, key.length = 32) :
    allowedKeys (keys.map hex) = .ok keys.flatten := by
  induction keys with
  | nil => rfl
  | cons key rest ih =>
      rw [List.forall_mem_cons] at h
      rw [List.map_cons, allowedKeys, unhex_hex, ih h.2]
      change (if ¬key.length = 32 then _ else _) = _
      rw [if_neg (not_not.mpr h.1)]
      rfl

end Altdb
