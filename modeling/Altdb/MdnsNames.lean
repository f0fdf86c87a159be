import Altdb.MdnsResponse

/-!
# Names at any place of a packet

A name that stands anywhere in a packet is read back in lower case, and the
reader goes on behind it.  A pointer to the name reads the same; it takes one of
the steps of the reader, so the name has to be one label shorter.
-/

namespace Altdb

namespace Mdns

open JsonText (Text)

/-! ## Dotted names -/

/-- A label that can be sent. -/
structure Label (l : String) : Prop where
  nonempty : l ≠ ""
  size : l.utf8ByteSize ≤ 63
  dotless : '.' ∉ l.toList

/-- The labels of a name, between dots. -/
def dotted (labels : List String) : String := ".".intercalate labels

/-- `to_ascii_lowercase` of a whole name. -/
def lowerName (n : String) : String := String.ofList (lower n.toList)

variable {labels : List String}

theorem Label.fits {l : String} (h : Label l) : Fits l.toList := by
  rw [Fits, JsonText.size_toList]
  refine ⟨Nat.pos_of_ne_zero fun hzero => h.nonempty ?_, h.size⟩
  exact String.utf8ByteSize_eq_zero_iff.mp hzero

theorem dotted_eq (labels : List String) :
    dotted labels = joinLabels (labels.map String.toList) := by
  rw [joinLabels, ← String.toList_inj, String.toList_ofList, dotted, String.toList_intercalate]
  rfl

theorem nameLabels_dotted (hne : labels ≠ []) (hlabels : ∀ l ∈ labels, Label l) :
    nameLabels (dotted labels) = labels.map String.toList := by
  rw [dotted_eq]
  apply nameLabels_joinLabels
  · simpa using hne
  · intro l hl
    obtain ⟨l, hmem, rfl⟩ := List.mem_map.mp hl
    exact (hlabels l hmem).dotless

/-- The dots are no letters, so the labels can be lowered one by one. -/
theorem joinLabels_lower (labels : List Text) :
    joinLabels (labels.map lower) = lowerName (joinLabels labels) := by
  have hmap : List.intercalate ['.'] (labels.map lower) =
      lower (List.intercalate ['.'] labels) := by
    induction labels with
    | nil => rfl
    | cons l rest ih =>
        cases rest with
        | nil => simp [lower]
        | cons l' rest =>
            have hdot : lower ['.'] = ['.'] := rfl
            rw [List.map_cons, List.map_cons, List.intercalate_cons_cons, ← List.map_cons, ih,
              List.intercalate_cons_cons]
            simp only [lower, List.map_append] at hdot ⊢
            rw [hdot]
  rw [joinLabels, hmap, lowerName, joinLabels, String.toList_ofList]

theorem labelBytes_toList (labels : List String) :
    labelBytes (labels.map String.toList) = (labels.map fun l => l.utf8ByteSize + 1).sum := by
  rw [labelBytes, List.map_map]
  congr 2
  funext l
  exact congrArg (· + 1) (JsonText.size_toList l)

/-! ## Pointers -/

/-- The bytes of a pointer to a position below 16384. -/
def pointerTo (p : ℕ) : Bytes := [(0xc0 + p / 256).toUInt8, (p % 256).toUInt8]

variable {data rest : Bytes} {c : Cursor} {p : ℕ}

/-- The two top bits mark a pointer, and the other fourteen are its position. -/
theorem pointerTo_bits (hp : p < 16384) :
    (0xc0 + p / 256).toUInt8 ≠ 0 ∧ (0xc0 + p / 256).toUInt8 &&& 0xc0 = 0xc0 ∧
      (((0xc0 + p / 256).toUInt8.toNat &&& 0x3f) <<< 8) ||| (p % 256).toUInt8.toNat = p := by
  have hhigh : p / 256 < 64 := by omega
  have hall : ∀ k < 64, (0xc0 + k).toUInt8 ≠ 0 ∧ (0xc0 + k).toUInt8 &&& 0xc0 = 0xc0 ∧
      (0xc0 + k).toUInt8.toNat &&& 0x3f = k := by decide
  obtain ⟨hne, hmark, hlow⟩ := hall (p / 256) hhigh
  refine ⟨hne, hmark, ?_⟩
  rw [hlow, UInt8.toNat_ofNat', Nat.mod_eq_of_lt (Nat.mod_lt p (by decide)),
    ← Nat.shiftLeft_add_eq_or_of_lt (Nat.mod_lt p (by decide) : p % 256 < 2 ^ 8),
    Nat.shiftLeft_eq]
  omega

theorem round_pointer (hp : p < 16384) (hsteps : c.steps < 64)
    (h : (data.drop c.p).take 2 = pointerTo p) :
    round data c = .ok (.more { c with
      next := some (c.next.getD (c.p + 2))
      p := p
      steps := c.steps + 1 }) := by
  obtain ⟨hne, hmark, hbits⟩ := pointerTo_bits hp
  have hbyte (k : ℕ) (hk : k < 2) : data[c.p + k]? = (pointerTo p)[k]? := by
    rw [← h, List.getElem?_take_of_lt hk, List.getElem?_drop]
  have hfirst : data[c.p]? = some (0xc0 + p / 256).toUInt8 := hbyte 0 (by decide)
  have hsecond : data[c.p + 1]? = some (p % 256).toUInt8 := hbyte 1 (by decide)
  obtain ⟨hin, hfirst⟩ := List.getElem?_eq_some_iff.mp hfirst
  obtain ⟨hin', hsecond⟩ := List.getElem?_eq_some_iff.mp hsecond
  unfold round
  rw [check_ok ⟨hsteps, hin⟩, index_eq hin, hfirst]
  change (if (0xc0 + p / 256).toUInt8 = 0 then _ else _) = _
  rw [if_neg hne, if_pos hmark, pointer, check_ok hin', index_eq hin', hsecond]
  change Except.ok (Round.more { c with
    next := some (c.next.getD (c.p + 2)), p := _, steps := c.steps + 1 }) = _
  rw [hbits]

/-! ## Names -/

/-- A name that is written between any bytes is read in lower case, and the
reader goes on behind it.  So does a pointer that stands anywhere else, for a
name that leaves it a step. -/
theorem name_read (before after : Bytes) (labels : List String) (hne : 1 ≤ labels.length)
    (hlength : labels.length ≤ 63) (hlabels : ∀ l ∈ labels, Label l)
    (hsize : (labels.map fun l => l.utf8ByteSize + 1).sum ≤ 255) :
    let data := name before (dotted labels) ++ after
    queryName data before.length =
        (.ok (lowerName (dotted labels)), (name before (dotted labels)).length) ∧
      (labels.length ≤ 62 → before.length < 16384 → ∀ q,
        (data.drop q).take 2 = pointerTo before.length →
          queryName data q = (.ok (lowerName (dotted labels)), q + 2)) := by
  have hnonempty : labels ≠ [] := List.ne_nil_of_length_pos hne
  have hnames := nameLabels_dotted hnonempty hlabels
  have hlower : joinLabels ((nameLabels (dotted labels)).map lower) =
      lowerName (dotted labels) := by
    rw [joinLabels_lower, joinLabels_nameLabels]
  have hfits : ∀ l ∈ nameLabels (dotted labels), Fits l := by
    rw [hnames]
    intro l hl
    obtain ⟨l, hmem, rfl⟩ := List.mem_map.mp hl
    exact (hlabels l hmem).fits
  have hcount : (nameLabels (dotted labels)).length = labels.length := by
    rw [hnames, List.length_map]
  have hbytes : labelBytes (nameLabels (dotted labels)) ≤ 255 := by
    rw [hnames, labelBytes_toList]
    exact hsize
  have hdrop : (name before (dotted labels) ++ after).drop before.length =
      name [] (dotted labels) ++ after := by
    simp [name]
  refine ⟨?_, fun hshort hbelow q hq => ?_⟩
  · rw [queryName_wire hfits (by omega) hbytes hdrop, hlower, ← length_name_append]
  · have hwire : (name before (dotted labels) ++ after).drop before.length =
        (nameLabels (dotted labels)).flatMap labelWire ++ 0 :: after := by
      rw [hdrop]
      simp [name]
    have hround := @round_pointer _ (start q) _ hbelow (show 0 < 64 by decide) hq
    have hrounds := @rounds_wire _ ⟨before.length, some (q + 2), [], 1, 0⟩ after _ hwire hfits
      (by change 1 + _ < 64; omega) (by change 0 + _ ≤ 255; omega)
    rw [queryName, (rounds_more hround).trans hrounds]
    change (Except.ok (joinLabels ([] ++ _)), q + 2) = _
    rw [List.nil_append, hlower]

/-- A name of two labels, with a pointer to it behind. -/
theorem name_read_pointer :
    let data := name [7] (dotted ["aB", "local"]) ++ pointerTo 1
    queryName data 1 = (.ok "ab.local", 11) ∧ queryName data 11 = (.ok "ab.local", 13) := by
  have hlabels : ∀ l ∈ ["aB", "local"], Label l := by
    have haB : Label "aB" := ⟨by decide, by decide, by simp⟩
    have hlocal : Label "local" := ⟨by decide, by decide, by simp⟩
    simpa using ⟨haB, hlocal⟩
  obtain ⟨hread, hpointer⟩ :=
    name_read [7] (pointerTo 1) ["aB", "local"] (by decide) (by decide) hlabels (by decide)
  exact ⟨hread, hpointer (by decide) (by decide) 11 (by decide)⟩

end Mdns

end Altdb
