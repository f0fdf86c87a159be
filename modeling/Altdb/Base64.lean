import Mathlib.Tactic

/-!
# The standard base64 alphabet with canonical padding

Three bytes make four characters.  The decoder takes no text but the one that
the encoder makes of the bytes: the padding is complete, and the bits that
carry no data are zero.
-/

namespace Base64

/-- The value of a character of the alphabet. -/
def value (c : Char) : Option ℕ :=
  if 65 ≤ c.toNat ∧ c.toNat ≤ 90 then some (c.toNat - 65)
  else if 97 ≤ c.toNat ∧ c.toNat ≤ 122 then some (c.toNat - 71)
  else if 48 ≤ c.toNat ∧ c.toNat ≤ 57 then some (c.toNat + 4)
  else if c.toNat = 43 then some 62
  else if c.toNat = 47 then some 63
  else none

/-- The character of a value below 64. -/
def digit (n : ℕ) : Char :=
  if n < 26 then Char.ofNat (n + 65)
  else if n < 52 then Char.ofNat (n + 71)
  else if n < 62 then Char.ofNat (n - 4)
  else if n = 62 then '+'
  else '/'

/-- The last group, in which one or two characters are padding. -/
def decodeLast (a b c : Char) : Option (List UInt8) := do
  let x ← value a
  let y ← value b
  if c = '=' then
    if y % 16 = 0 then return [UInt8.ofNat (x * 4 + y / 16)] else none
  else
    let z ← value c
    if z % 4 = 0 then
      return [UInt8.ofNat (x * 4 + y / 16), UInt8.ofNat (y % 16 * 16 + z / 4)]
    else none

def decodeGroup (a b c d : Char) : Option (List UInt8) := do
  let x ← value a
  let y ← value b
  let z ← value c
  let w ← value d
  return [UInt8.ofNat (x * 4 + y / 16), UInt8.ofNat (y % 16 * 16 + z / 4),
    UInt8.ofNat (z % 4 * 64 + w)]

def decode : List Char → Option (List UInt8)
  | [] => some []
  | a :: b :: c :: d :: rest =>
      if d = '=' then
        if rest = [] then decodeLast a b c else none
      else do
        let group ← decodeGroup a b c d
        let more ← decode rest
        return group ++ more
  | _ => none

def encode : List UInt8 → List Char
  | [] => []
  | [x] => [digit (x.toNat / 4), digit (x.toNat % 4 * 16), '=', '=']
  | [x, y] =>
      [digit (x.toNat / 4), digit (x.toNat % 4 * 16 + y.toNat / 16),
        digit (y.toNat % 16 * 4), '=']
  | x :: y :: z :: rest =>
      digit (x.toNat / 4) :: digit (x.toNat % 4 * 16 + y.toNat / 16) ::
        digit (y.toNat % 16 * 4 + z.toNat / 64) :: digit (z.toNat % 64) ::
        encode rest

/-! ## The alphabet -/

theorem value_digit : ∀ n < 64, value (digit n) = some n := by decide

theorem digit_ne_pad : ∀ n < 64, digit n ≠ '=' := by decide

/-- A character that a decoded text may contain. -/
def Symbol (c : Char) : Prop := (value c).isSome ∨ c = '='

theorem Symbol.bounds {c : Char} (h : Symbol c) :
    43 ≤ c.toNat ∧ c.toNat ≤ 122 ∧ c.toNat ≠ 92 := by
  rcases h with hvalue | rfl
  · unfold value at hvalue
    split_ifs at hvalue <;> simp_all <;> omega
  · decide

theorem symbol_of_value {c : Char} {n : ℕ} (h : value c = some n) : Symbol c :=
  .inl (by simp [h])

/-! ## Decoded texts -/

theorem decodeLast_length {a b c : Char} {raw : List UInt8}
    (h : decodeLast a b c = some raw) : raw.length = 1 ∨ raw.length = 2 := by
  simp only [decodeLast, Option.bind_eq_bind, Option.bind_eq_some_iff] at h
  obtain ⟨x, -, y, -, h⟩ := h
  split_ifs at h
  · cases h
    exact .inl rfl
  · obtain ⟨z, -, h⟩ := Option.bind_eq_some_iff.mp h
    split_ifs at h
    cases h
    exact .inr rfl

theorem decodeGroup_length {a b c d : Char} {raw : List UInt8}
    (h : decodeGroup a b c d = some raw) : raw.length = 3 := by
  simp only [decodeGroup, Option.bind_eq_bind, Option.bind_eq_some_iff] at h
  obtain ⟨x, -, y, -, z, -, w, -, h⟩ := h
  cases h
  rfl

theorem decodeLast_symbols {a b c : Char} {raw : List UInt8}
    (h : decodeLast a b c = some raw) : Symbol a ∧ Symbol b ∧ Symbol c := by
  simp only [decodeLast, Option.bind_eq_bind, Option.bind_eq_some_iff] at h
  obtain ⟨x, hx, y, hy, h⟩ := h
  refine ⟨symbol_of_value hx, symbol_of_value hy, ?_⟩
  split_ifs at h with hpad
  · exact .inr hpad
  · obtain ⟨z, hz, -⟩ := Option.bind_eq_some_iff.mp h
    exact symbol_of_value hz

theorem decodeGroup_symbols {a b c d : Char} {raw : List UInt8}
    (h : decodeGroup a b c d = some raw) :
    Symbol a ∧ Symbol b ∧ Symbol c ∧ Symbol d := by
  simp only [decodeGroup, Option.bind_eq_bind, Option.bind_eq_some_iff] at h
  obtain ⟨x, hx, y, hy, z, hz, w, hw, -⟩ := h
  exact ⟨symbol_of_value hx, symbol_of_value hy, symbol_of_value hz,
    symbol_of_value hw⟩

/-- The length of the text is the length of the encoded bytes. -/
theorem decode_length {text : List Char} {raw : List UInt8}
    (h : decode text = some raw) : text.length = 4 * ((raw.length + 2) / 3) := by
  fun_induction decode text generalizing raw with
  | case1 =>
      cases h
      rfl
  | case2 a b c =>
      have hlength := decodeLast_length h
      simp only [List.length_cons, List.length_nil]
      omega
  | case3 => cases h
  | case4 a b c d rest _ ih =>
      simp only [Option.bind_eq_bind, Option.bind_eq_some_iff] at h
      obtain ⟨group, hgroup, more, hmore, h⟩ := h
      cases h
      have hlength := decodeGroup_length hgroup
      have hrest := ih hmore
      simp only [List.length_cons, List.length_append]
      omega
  | case5 => cases h

theorem decode_symbols {text : List Char} {raw : List UInt8}
    (h : decode text = some raw) : ∀ c ∈ text, Symbol c := by
  fun_induction decode text generalizing raw with
  | case1 => simp
  | case2 a b c =>
      have hsymbols := decodeLast_symbols h
      have hpad : Symbol '=' := .inr rfl
      simp [hsymbols, hpad]
  | case3 => cases h
  | case4 a b c d rest _ ih =>
      simp only [Option.bind_eq_bind, Option.bind_eq_some_iff] at h
      obtain ⟨group, hgroup, more, hmore, -⟩ := h
      have hsymbols := decodeGroup_symbols hgroup
      have hrest := ih hmore
      simp only [List.mem_cons]
      grind
  | case5 => cases h

/-! ## Encoded bytes -/

theorem ofNat_eq {x : UInt8} {n : ℕ} (h : n = x.toNat) : UInt8.ofNat n = x := by
  rw [h, UInt8.ofNat_toNat]

theorem decodeLast_digits {p q : ℕ} (hp : p < 64) (hq : q < 64)
    (hzero : q % 16 = 0) :
    decodeLast (digit p) (digit q) '=' = some [UInt8.ofNat (p * 4 + q / 16)] := by
  simp [decodeLast, value_digit p hp, value_digit q hq, hzero]

theorem decodeLast_digits' {p q r : ℕ} (hp : p < 64) (hq : q < 64) (hr : r < 64)
    (hzero : r % 4 = 0) :
    decodeLast (digit p) (digit q) (digit r) =
      some [UInt8.ofNat (p * 4 + q / 16), UInt8.ofNat (q % 16 * 16 + r / 4)] := by
  simp [decodeLast, value_digit p hp, value_digit q hq, value_digit r hr,
    digit_ne_pad r hr, hzero]

theorem decodeGroup_digits {p q r t : ℕ} (hp : p < 64) (hq : q < 64)
    (hr : r < 64) (ht : t < 64) :
    decodeGroup (digit p) (digit q) (digit r) (digit t) =
      some [UInt8.ofNat (p * 4 + q / 16), UInt8.ofNat (q % 16 * 16 + r / 4),
        UInt8.ofNat (r % 4 * 64 + t)] := by
  simp [decodeGroup, value_digit p hp, value_digit q hq, value_digit r hr,
    value_digit t ht]

theorem decode_encode (bytes : List UInt8) :
    decode (encode bytes) = some bytes := by
  fun_induction encode bytes with
  | case1 => rfl
  | case2 x =>
      have hx := x.toNat_lt
      rw [decode, if_pos rfl, if_pos rfl,
        decodeLast_digits (by omega) (by omega) (by omega),
        @ofNat_eq x _ (by omega)]
  | case3 x y =>
      have hx := x.toNat_lt
      have hy := y.toNat_lt
      rw [decode, if_pos rfl, if_pos rfl,
        decodeLast_digits' (by omega) (by omega) (by omega) (by omega),
        @ofNat_eq x _ (by omega), @ofNat_eq y _ (by omega)]
  | case4 x y z rest ih =>
      have hx := x.toNat_lt
      have hy := y.toNat_lt
      have hz := z.toNat_lt
      rw [decode, if_neg (digit_ne_pad _ (by omega)),
        decodeGroup_digits (by omega) (by omega) (by omega) (by omega), ih,
        @ofNat_eq x _ (by omega), @ofNat_eq y _ (by omega),
        @ofNat_eq z _ (by omega)]
      rfl

end Base64
