import Altdb.Base64
import Altdb.JsonText
import Altdb.Store
import Mathlib.Data.List.TakeWhile

/-!
# Android host keys

The key of a host is the base64 text of 524 bytes, which the native code checks
and hashes.  What `pair` stores is found by another tokenizer than the one of
`hostKey`.  Both find the same text in every key that `hostKey` accepts, since
a key that begins with white space has no bytes before it.
-/

namespace Altdb

/-- `[u8; 32]`. -/
abbrev Digest := {bytes : Bytes // bytes.length = 32}

/-- `STANDARD.decode`. -/
def decodeKey (encoded : String) : Except String Bytes :=
  match Base64.decode encoded.toList with
  | some raw => .ok raw
  | none => .error "invalid base64"

/-- `altdb_android_key_fingerprint`.  `digest` is the hash of the public key
with the modulus, if the native library makes one. -/
def androidKeyFingerprint (digest : Bytes → Option Digest) (raw : Bytes) :
    Option Bytes :=
  if raw.length ≠ 524 ∨ raw.take 4 ≠ [64, 0, 0, 0] then none
  else
    let modulus := ((raw.drop 8).take 256).reverse
    let exponent := raw.drop 520
    -- The exponent 65537, an odd modulus and its highest bit.
    if exponent ≠ [1, 0, 1, 0] ∨ (modulus.getLastD 0).toNat % 2 = 0 ∨
        (modulus.headD 0).toNat < 128 then none
    else (digest modulus).map (·.val)

def androidCodec (digest : Bytes → Option Digest) : KeyCodec where
  decode := decodeKey
  fingerprint := androidKeyFingerprint digest

variable {digest : Bytes → Option Digest}

/-! ## Accepted keys -/

theorem androidKeyFingerprint_cases {raw fp : Bytes}
    (h : androidKeyFingerprint digest raw = some fp) :
    raw.length = 524 ∧ fp.length = 32 := by
  unfold androidKeyFingerprint at h
  split_ifs at h with hlength
  dsimp only at h
  split_ifs at h
  obtain ⟨value, -, rfl⟩ := Option.map_eq_some_iff.mp h
  exact ⟨by simpa using (not_or.mp hlength).1, value.property⟩

theorem decodeKey_cases {encoded : String} {raw : Bytes}
    (h : decodeKey encoded = .ok raw) :
    encoded.toList.length = 4 * ((raw.length + 2) / 3) ∧
      ∀ c ∈ encoded.toList, Base64.Symbol c := by
  unfold decodeKey at h
  cases hdecode : Base64.decode encoded.toList with
  | none => simp [hdecode] at h
  | some bytes =>
      obtain rfl : bytes = raw := by simpa [hdecode] using h
      exact ⟨Base64.decode_length hdecode, Base64.decode_symbols hdecode⟩

/-- The display name for a comment. -/
def displayName (comment : Option String) : String :=
  String.ofList (((comment.getD "Computer").toList.filter
    fun c => !isControl c).take 128)

theorem hostKey_cases {codec : KeyCodec} {key fp name : String}
    (h : hostKey codec key = .ok (fp, name)) :
    ∃ raw bytes, codec.decode (splitFirstWhitespace key).1 = .ok raw ∧
      codec.fingerprint raw = some bytes ∧ fp = hex bytes ∧
      name = displayName (splitFirstWhitespace key).2 := by
  simp only [hostKey] at h
  split at h
  · cases h
  · cases hdecode : codec.decode (splitFirstWhitespace key).1 with
    | error e => simp [hdecode, bind, Except.bind] at h
    | ok raw =>
        simp only [hdecode, bind, Except.bind] at h
        cases hfp : codec.fingerprint raw with
        | none => simp [hfp] at h
        | some bytes =>
            simp [hfp, pure, Except.pure] at h
            exact ⟨raw, bytes, rfl, hfp, h.1.symm, h.2.symm⟩

/-- A key that is short enough has the fingerprint of its first part. -/
theorem hostKey_eq {codec : KeyCodec} {key : String} {raw bytes : Bytes}
    (hsize : key.utf8ByteSize ≤ 8190) (hzero : '\x00' ∉ key.toList)
    (hdecode : codec.decode (splitFirstWhitespace key).1 = .ok raw)
    (hfp : codec.fingerprint raw = some bytes) :
    hostKey codec key =
      .ok (hex bytes, displayName (splitFirstWhitespace key).2) := by
  simp only [hostKey]
  rw [if_neg (not_not.mpr ⟨hsize, hzero⟩)]
  simp only [hdecode, bind, Except.bind, hfp]
  rfl

/-! ## The two tokenizers -/

theorem not_isWhitespace_of_symbol {c : Char} (h : Base64.Symbol c) :
    isWhitespace c = false := by
  obtain ⟨hlow, hhigh, -⟩ := h.bounds
  simp only [isWhitespace, Bool.or_eq_false_iff, Bool.and_eq_false_iff,
    decide_eq_false_iff_not, beq_eq_false_iff_ne]
  omega

theorem firstWord_eq {key : String} (hne : (splitFirstWhitespace key).1 ≠ "") :
    firstWord key = (splitFirstWhitespace key).1 := by
  have hsplit : (splitFirstWhitespace key).1 =
      String.ofList (key.toList.takeWhile fun c => !isWhitespace c) := by
    unfold splitFirstWhitespace
    split <;> rfl
  rw [hsplit] at hne ⊢
  unfold firstWord
  cases hlist : key.toList with
  | nil => rfl
  | cons c rest =>
      have hc : isWhitespace c = false := by
        by_contra hspace
        rw [hlist, List.takeWhile_cons] at hne
        simp [hspace] at hne
      rw [List.dropWhile_cons]
      simp [hc]

theorem splitFirstWhitespace_word {word : String}
    (h : ∀ c ∈ word.toList, isWhitespace c = false) :
    splitFirstWhitespace word = (word, none) := by
  have htake : word.toList.takeWhile (fun c => !isWhitespace c) = word.toList :=
    List.takeWhile_eq_self_iff.mpr fun c hc => by simp [h c hc]
  have hdrop : word.toList.dropWhile (fun c => !isWhitespace c) = [] :=
    List.dropWhile_eq_nil_iff.mpr fun c hc => by simp [h c hc]
  simp [splitFirstWhitespace, htake, hdrop]

/-- Text of the base64 alphabet is as long in bytes as in characters. -/
theorem utf8ByteSize_of_symbols {word : String}
    (h : ∀ c ∈ word.toList, Base64.Symbol c) :
    word.utf8ByteSize ≤ word.toList.length := by
  rw [← JsonText.size_toList, ← one_mul word.toList.length]
  apply JsonText.size_le_of_forall
  intro c hc
  have hbounds := (h c hc).bounds
  rw [JsonText.utf8Size_of_lt (by omega)]

/-- The text of a key is accepted on its own. -/
theorem hostKey_word {word : String} {raw bytes : Bytes}
    (hdecode : decodeKey word = .ok raw)
    (hfp : androidKeyFingerprint digest raw = some bytes) :
    hostKey (androidCodec digest) word = .ok (hex bytes, displayName none) := by
  obtain ⟨hlength, -⟩ := androidKeyFingerprint_cases hfp
  obtain ⟨hencoded, hsymbols⟩ := decodeKey_cases hdecode
  have hsplit := splitFirstWhitespace_word fun c hc =>
    not_isWhitespace_of_symbol (hsymbols c hc)
  have hsize := utf8ByteSize_of_symbols hsymbols
  have hzero : '\x00' ∉ word.toList := fun hmem =>
    absurd (hsymbols _ hmem).bounds.1 (by decide)
  rw [hlength] at hencoded
  have haccepted := @hostKey_eq (androidCodec digest) word raw bytes (by omega)
    hzero (by rw [hsplit]; exact hdecode) hfp
  rwa [hsplit] at haccepted

/-- Every key that the native code can hash is accepted. -/
theorem hostKey_encode {raw bytes : Bytes}
    (hfp : androidKeyFingerprint digest raw = some bytes) :
    hostKey (androidCodec digest) (String.ofList (Base64.encode raw)) =
      .ok (hex bytes, displayName none) := by
  refine hostKey_word ?_ hfp
  rw [decodeKey, String.toList_ofList, Base64.decode_encode]

/-! ## Stored hosts -/

/-- What a stored host has of its key.  The times do not matter. -/
structure Host.WellFormed (digest : Bytes → Option Digest) (host : Host) :
    Prop where
  key_eq : (hostKey (androidCodec digest) host.publicKey).map Prod.fst =
    .ok host.fingerprint
  key_length : host.publicKey.toList.length = 700
  key_symbols : ∀ c ∈ host.publicKey.toList, Base64.Symbol c
  fingerprint_eq : ∃ fp : Digest, host.fingerprint = hex fp
  name_length : host.name.toList.length ≤ 128
  name_plain : ∀ c ∈ host.name.toList, isControl c = false

theorem displayName_length (comment : Option String) :
    (displayName comment).toList.length ≤ 128 := by
  simp [displayName]

theorem displayName_plain (comment : Option String) :
    ∀ c ∈ (displayName comment).toList, isControl c = false := by
  intro c hc
  rw [displayName, String.toList_ofList] at hc
  simpa using List.of_mem_filter (List.mem_of_mem_take hc)

/-- The host that `pair` stores for a key. -/
def newHost (key fp name : String) (now : ℕ) : Host where
  fingerprint := fp
  publicKey := firstWord key
  name := name
  pairedAt := now
  lastConnected := none

theorem newHost_wellFormed {key fp name : String}
    (h : hostKey (androidCodec digest) key = .ok (fp, name)) (now : ℕ) :
    (newHost key fp name now).WellFormed digest := by
  obtain ⟨raw, bytes, hdecode, hfp, rfl, rfl⟩ := hostKey_cases h
  obtain ⟨hlength, hdigest⟩ := androidKeyFingerprint_cases hfp
  obtain ⟨hencoded, hsymbols⟩ := decodeKey_cases hdecode
  rw [hlength] at hencoded
  have hword : firstWord key = (splitFirstWhitespace key).1 := by
    apply firstWord_eq
    intro hempty
    simp [hempty] at hencoded
  have hagain := hostKey_word hdecode hfp
  exact {
    key_eq := by simp only [newHost, hword, hagain]; rfl
    key_length := by simp only [newHost, hword]; exact hencoded
    key_symbols := by simpa only [newHost, hword] using hsymbols
    fingerprint_eq := ⟨⟨bytes, hdigest⟩, rfl⟩
    name_length := displayName_length _
    name_plain := displayName_plain _ }

/-! ## One key -/

/-- The key with the modulus `2 ^ 2048 - 1`. -/
def sampleKey : Bytes :=
  [64, 0, 0, 0, 0, 0, 0, 0] ++ List.replicate 256 255 ++
    List.replicate 256 0 ++ [1, 0, 1, 0]

/-- The SHA-256 hash of this key, in its DER form. -/
def sampleHash : Digest :=
  ⟨[0xFD, 0x88, 0x37, 0xB2, 0xB6, 0xDF, 0x38, 0xD4, 0x2F, 0x9F, 0x13, 0x02,
    0x1C, 0x4E, 0xE8, 0xF1, 0x15, 0x9B, 0xF4, 0x85, 0x02, 0x61, 0xED, 0xAE,
    0xAA, 0x60, 0x91, 0xCD, 0x03, 0x6D, 0x36, 0x2E], rfl⟩

/-- A native library that knows one key. -/
def sampleDigest (modulus : Bytes) : Option Digest :=
  if modulus = List.replicate 256 255 then some sampleHash else none

def sampleText : String := String.ofList (Base64.encode sampleKey)

theorem hostKey_sample : hostKey (androidCodec sampleDigest) sampleText =
    .ok (hex sampleHash.val, displayName none) := by
  apply hostKey_encode
  decide +kernel

end Altdb
