import Altdb.Serialize
import Altdb.StoreInvariant

/-!
# The size of a serialized host list

The fingerprint and the key of a stored host have a fixed length, its name is
bounded in characters and its times are `u64`.
-/

namespace Altdb

open JsonText

variable {digest : Bytes → Option Digest} {host : Host}

theorem plain_hexDigit : ∀ n < 16, Plain (hexDigit n) := by
  unfold Plain
  decide

theorem hex_toList (bytes : Bytes) :
    (hex bytes).toList = bytes.flatMap fun b =>
      [hexDigit (b.toNat / 16), hexDigit (b.toNat % 16)] := by
  simp [hex]

theorem hex_length (bytes : Bytes) :
    (hex bytes).toList.length = 2 * bytes.length := by
  rw [hex_toList]
  induction bytes with
  | nil => rfl
  | cons b rest ih =>
      rw [List.flatMap_cons, List.length_append, ih, List.length_cons]
      simp only [List.length_cons, List.length_nil]
      omega

theorem hex_plain (bytes : Bytes) : ∀ c ∈ (hex bytes).toList, Plain c := by
  intro c hc
  rw [hex_toList, List.mem_flatMap] at hc
  obtain ⟨b, -, hc⟩ := hc
  have hb := b.toNat_lt
  have hmem : c = hexDigit (b.toNat / 16) ∨ c = hexDigit (b.toNat % 16) := by
    simpa using hc
  rcases hmem with rfl | rfl
  · exact plain_hexDigit _ (by omega)
  · exact plain_hexDigit _ (by omega)

theorem escapedSize_hex (bytes : Bytes) :
    escapedSize (hex bytes) ≤ 2 * bytes.length :=
  hex_length bytes ▸ escapedSize_of_plain (hex_plain bytes)

theorem Host.WellFormed.escapedSize_key (h : host.WellFormed digest) :
    escapedSize host.publicKey ≤ 700 := by
  rw [← h.key_length]
  apply escapedSize_of_plain
  intro c hc
  obtain ⟨hlow, hhigh, hbackslash⟩ := (h.key_symbols c hc).bounds
  refine ⟨by omega, by omega, ?_, ?_⟩
  · rintro rfl
    exact absurd hlow (by decide)
  · rintro rfl
    exact absurd rfl hbackslash

/-- A character of a name takes four bytes at most. -/
theorem Host.WellFormed.escapedSize_name (h : host.WellFormed digest) :
    escapedSize host.name ≤ 512 := by
  have hsize := @size_flatMap_escape_le host.name.toList 4 fun c hc => by
    apply size_escape_le_four
    have hcontrol := h.name_plain c hc
    simp only [isControl, Bool.or_eq_false_iff, decide_eq_false_iff_not] at hcontrol
    omega
  have hlength := h.name_length
  unfold escapedSize
  omega

theorem size_time {n : ℕ} (hn : n < 2 ^ 64) : size (Codec.nat.write n) ≤ 20 :=
  Codec.size_nat (by decide) (hn.trans (by decide))

theorem size_optionalTime {time : Option ℕ} (h : ∀ n ∈ time, n < 2 ^ 64) :
    size (optionalTime.write time) ≤ 20 := by
  cases time with
  | none => decide
  | some n => exact size_time (h n rfl)

/-- The greatest size of a host. -/
def hostSize : ℕ := 1391

theorem size_host (h : host.WellFormed digest) (hrange : host.InRange) :
    size (Host.codec.write host) ≤ hostSize := by
  obtain ⟨fp, hfp⟩ := h.fingerprint_eq
  have hfingerprint : escapedSize host.fingerprint ≤ 64 := by
    rw [hfp]
    exact (escapedSize_hex fp.val).trans (by rw [fp.property])
  have hkey := h.escapedSize_key
  have hname := h.escapedSize_name
  have hpaired := size_time hrange.paired
  have hconnected := size_optionalTime hrange.connected
  have hfixed : size (opening "fingerprint") + size (comma "public_key") +
      size (comma "name") + size (comma "paired_at") +
      size (comma "last_connected") + size ['}'] = 69 := by decide
  change size (opening "fingerprint" ++
    (Codec.string.write host.fingerprint ++ comma "public_key" ++
      (Codec.string.write host.publicKey ++ comma "name" ++
        (Codec.string.write host.name ++ comma "paired_at" ++
          (Codec.nat.write host.pairedAt ++ comma "last_connected" ++
            optionalTime.write host.lastConnected))) ++ ['}'])) ≤ 1391
  simp only [size_append, Codec.size_string]
  omega

theorem size_hosts {store : Store} (h : store.Sound digest) :
    size (hostsCodec.write store.hosts) ≤ 44546 := by
  have hsize := @size_writeList_le Host Host.codec.write store.hosts hostSize
    fun host hmem => size_host (h.wellFormed host hmem) (h.inRange host hmem)
  have hlength : store.hosts.length ≤ 32 := h.length_le
  have hbound := Nat.mul_le_mul_left (hostSize + 1) hlength
  exact hsize.trans (Nat.add_le_add_left hbound 2)

end Altdb
