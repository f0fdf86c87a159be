import Mathlib.Tactic

/-!
# Texts of data

A codec writes values as compact JSON text and reads them back.  Reading
returns the rest of the text, and a codec carries the proof that it reads what
it wrote, so that codecs compose.  Numbers have no end mark: what follows them
must not begin with a digit.  The size of a text is its length in UTF-8.
-/

namespace JsonText

abbrev Text := List Char

/-! ## Bytes -/

/-- The length in UTF-8. -/
def size (text : Text) : ℕ := (text.map Char.utf8Size).sum

def toBytes (text : Text) : List UInt8 := text.flatMap String.utf8EncodeChar

def ofBytes (bytes : List UInt8) : Option Text :=
  (String.fromUTF8? bytes.toByteArray).map String.toList

@[simp] theorem size_nil : size [] = 0 := rfl

@[simp] theorem size_cons (c : Char) (text : Text) :
    size (c :: text) = c.utf8Size + size text := by
  simp [size]

@[simp] theorem size_append (s t : Text) : size (s ++ t) = size s + size t := by
  simp [size]

@[simp] theorem length_toBytes (text : Text) :
    (toBytes text).length = size text := by
  induction text with
  | nil => rfl
  | cons c rest ih =>
      rw [size_cons, ← ih]
      simp [toBytes]

theorem ofBytes_toBytes (text : Text) : ofBytes (toBytes text) = some text := by
  have hvalid : ByteArray.IsValidUTF8 text.utf8Encode :=
    ByteArray.isValidUTF8_utf8Encode
  have hstring : String.fromUTF8 text.utf8Encode hvalid = String.ofList text := by
    apply String.toByteArray_inj.mp
    simp [String.fromUTF8]
  have hread : String.fromUTF8? text.utf8Encode = some (String.ofList text) := by
    rw [String.fromUTF8?, dif_pos hvalid, hstring]
  change (String.fromUTF8? text.utf8Encode).map String.toList = some text
  simp [hread]

theorem size_toList (s : String) : size s.toList = s.utf8ByteSize := by
  have hbytes : s.toByteArray = (toBytes s.toList).toByteArray :=
    String.utf8Encode_toList.symm
  rw [← length_toBytes, ← List.size_toByteArray, ← hbytes]
  rfl

/-! ## Characters of a string -/

def quote : Char := Char.ofNat 0x22

def backslash : Char := Char.ofNat 0x5C

def escape (c : Char) : Text :=
  if c = quote then [backslash, quote]
  else if c = backslash then [backslash, backslash]
  else if c.toNat = 0x08 then [backslash, 'b']
  else if c.toNat = 0x09 then [backslash, 't']
  else if c.toNat = 0x0A then [backslash, 'n']
  else if c.toNat = 0x0C then [backslash, 'f']
  else if c.toNat = 0x0D then [backslash, 'r']
  else if c.toNat < 0x20 then
    [backslash, 'u', '0', '0', Nat.digitChar (c.toNat / 16),
      Nat.digitChar (c.toNat % 16)]
  else [c]

def hexValue (c : Char) : Option ℕ :=
  if c.isDigit then some (c.toNat - 48)
  else if 97 ≤ c.toNat ∧ c.toNat ≤ 102 then some (c.toNat - 87)
  else if 65 ≤ c.toNat ∧ c.toNat ≤ 70 then some (c.toNat - 55)
  else none

/-- A character after the backslash. -/
def readEscape : Text → Option (Char × Text)
  | [] => none
  | 'b' :: rest => some (Char.ofNat 0x08, rest)
  | 't' :: rest => some (Char.ofNat 0x09, rest)
  | 'n' :: rest => some (Char.ofNat 0x0A, rest)
  | 'f' :: rest => some (Char.ofNat 0x0C, rest)
  | 'r' :: rest => some (Char.ofNat 0x0D, rest)
  | 'u' :: a :: b :: c :: d :: rest => do
      let code := (((← hexValue a) * 16 + (← hexValue b)) * 16 +
        (← hexValue c)) * 16 + (← hexValue d)
      return (Char.ofNat code, rest)
  | c :: rest =>
      if c = quote ∨ c = backslash ∨ c = '/' then some (c, rest) else none

/-- One character of a string, or none at its end. -/
def readChar : Text → Option (Char × Text)
  | [] => none
  | c :: rest =>
      if c = quote then none
      else if c = backslash then readEscape rest
      else some (c, rest)

theorem readChar_control (n : ℕ) (hn : n < 0x20) (rest : Text) :
    readChar (escape (Char.ofNat n) ++ rest) = some (Char.ofNat n, rest) := by
  interval_cases n <;> rfl

theorem escape_plain {c : Char} (hquote : c ≠ quote) (hbackslash : c ≠ backslash)
    (hc : 0x20 ≤ c.toNat) : escape c = [c] := by
  unfold escape
  rw [if_neg hquote, if_neg hbackslash, if_neg (by omega), if_neg (by omega),
    if_neg (by omega), if_neg (by omega), if_neg (by omega), if_neg (by omega)]

theorem readChar_escape (c : Char) (rest : Text) :
    readChar (escape c ++ rest) = some (c, rest) := by
  by_cases hquote : c = quote
  · subst hquote
    rfl
  by_cases hbackslash : c = backslash
  · subst hbackslash
    rfl
  by_cases hc : c.toNat < 0x20
  · have hread := readChar_control c.toNat hc rest
    rwa [Char.ofNat_toNat] at hread
  · rw [escape_plain hquote hbackslash (by omega)]
    simp [readChar, hquote, hbackslash]

/-- The characters up to the closing quote. -/
def readChars : ℕ → Text → Option (Text × Text)
  | 0, _ => none
  | fuel + 1, text =>
      match readChar text with
      | some (c, rest) => do
          let (s, rest) ← readChars fuel rest
          return (c :: s, rest)
      | none =>
          match text with
          | c :: rest => if c = quote then some ([], rest) else none
          | [] => none

theorem readChars_escape (s rest : Text) (fuel : ℕ) (hfuel : s.length < fuel) :
    readChars fuel (s.flatMap escape ++ quote :: rest) = some (s, rest) := by
  induction s generalizing fuel with
  | nil =>
      obtain ⟨n, rfl⟩ : ∃ n, fuel = n + 1 := ⟨fuel - 1, by grind⟩
      simp [readChars, readChar]
  | cons c s ih =>
      obtain ⟨n, rfl⟩ : ∃ n, fuel = n + 1 := ⟨fuel - 1, by grind⟩
      have hrest := ih n (by simpa using hfuel)
      simp only [List.flatMap_cons, List.append_assoc, readChars,
        readChar_escape, hrest]
      rfl

theorem escape_ne_nil (c : Char) : 0 < (escape c).length := by
  unfold escape
  split_ifs <;> simp

theorem length_le_flatMap_escape (s : Text) :
    s.length ≤ (s.flatMap escape).length := by
  induction s with
  | nil => simp
  | cons c s ih =>
      have hpos := escape_ne_nil c
      simp only [List.flatMap_cons, List.length_append, List.length_cons]
      omega

/-! ## Arrays -/

def writeRest {α : Type} (write : α → Text) : List α → Text
  | [] => [']']
  | a :: values => ',' :: write a ++ writeRest write values

def writeList {α : Type} (write : α → Text) : List α → Text
  | [] => ['[', ']']
  | a :: values => '[' :: write a ++ writeRest write values

/-! ## Codecs -/

/-- A text that may follow a number. -/
def Clear (text : Text) : Prop := ∀ c ∈ text.head?, c.isDigit = false

structure Codec (α : Type) where
  write : α → Text
  read : Text → Option (α × Text)
  read_write : ∀ value rest, Clear rest →
    read (write value ++ rest) = some (value, rest)

/-- Take a fixed beginning off. -/
def skip : Text → Text → Option Text
  | [], text => some text
  | _ :: _, [] => none
  | c :: expected, d :: text => if c = d then skip expected text else none

@[simp] theorem skip_append (expected rest : Text) :
    skip expected (expected ++ rest) = some rest := by
  induction expected with
  | nil => rfl
  | cons c expected ih => simp [skip, ih]

theorem Clear.append {s : Text} (hs : Clear s) (hne : s ≠ []) (rest : Text) :
    Clear (s ++ rest) := by
  cases s with
  | nil => exact absurd rfl hne
  | cons c s => exact hs

namespace Codec

variable {α β : Type}

def map (codec : Codec α) (f : α → β) (g : β → α) (h : ∀ b, f (g b) = b) :
    Codec β where
  write b := codec.write (g b)
  read text := (codec.read text).map fun (a, rest) => (f a, rest)
  read_write b rest hrest := by
    simp [codec.read_write (g b) rest hrest, h]

/-- Values of which only some stand for a result. -/
def filterMap (codec : Codec α) (f : α → Option β) (g : β → α)
    (h : ∀ b, f (g b) = some b) : Codec β where
  write b := codec.write (g b)
  read text := do
    let (a, rest) ← codec.read text
    let b ← f a
    return (b, rest)
  read_write b rest hrest := by
    simp [codec.read_write (g b) rest hrest, h]

/-- A fixed text before the value. -/
def after (before : Text) (codec : Codec α) : Codec α where
  write a := before ++ codec.write a
  read text := skip before text >>= codec.read
  read_write a rest hrest := by
    rw [List.append_assoc, skip_append]
    exact codec.read_write a rest hrest

/-- A fixed text after the value. -/
def upTo (codec : Codec α) (close : Text) (hclear : Clear close)
    (hne : close ≠ []) : Codec α where
  write a := codec.write a ++ close
  read text := do
    let (a, rest) ← codec.read text
    let rest ← skip close rest
    return (a, rest)
  read_write a rest hrest := by
    rw [List.append_assoc,
      codec.read_write a (close ++ rest) (hclear.append hne rest)]
    simp

/-- Two values with a fixed text between them. -/
def both (first : Codec α) (between : Text) (second : Codec β)
    (hclear : Clear between) (hne : between ≠ []) : Codec (α × β) where
  write value := first.write value.1 ++ between ++ second.write value.2
  read text := do
    let (a, rest) ← first.read text
    let rest ← skip between rest
    let (b, rest) ← second.read rest
    return ((a, b), rest)
  read_write value rest hrest := by
    rw [List.append_assoc, List.append_assoc,
      first.read_write value.1 _ (hclear.append hne _)]
    simp [second.read_write value.2 rest hrest]

/-- A string after its opening quote. -/
def characters : Codec String where
  write s := s.toList.flatMap escape ++ [quote]
  read text := (readChars text.length text).map fun (s, rest) =>
    (String.ofList s, rest)
  read_write s rest _ := by
    have hlength := length_le_flatMap_escape s.toList
    rw [List.append_assoc, List.singleton_append,
      readChars_escape s.toList rest _
        (by simp only [List.length_append, List.length_cons]; omega)]
    simp

def string : Codec String := after [quote] characters

/-- A choice between two words. -/
def word (yes no : Text)
    (hne : ∀ rest, skip yes (no ++ rest) = none) : Codec Bool where
  write b := if b then yes else no
  read text :=
    match skip yes text with
    | some rest => some (true, rest)
    | none => (skip no text).map fun rest => (false, rest)
  read_write b rest _ := by
    cases b with
    | true => simp
    | false => simp [hne]

def bool : Codec Bool :=
  word "true".toList "false".toList fun _ => rfl

def nat : Codec ℕ where
  write n := Nat.toDigits 10 n
  read text :=
    match text.takeWhile Char.isDigit with
    | [] => none
    | c :: digits =>
        some (Nat.ofDigitChars 10 (c :: digits) 0, text.dropWhile Char.isDigit)
  read_write n rest hrest := by
    have hdigits : ∀ c ∈ Nat.toDigits 10 n, c.isDigit = true := fun c hc =>
      Nat.isDigit_of_mem_toDigits (by decide) (by decide) hc
    have hstop : rest.takeWhile Char.isDigit = [] := by
      cases rest with
      | nil => rfl
      | cons c rest => simp [hrest c rfl]
    have hdrop : rest.dropWhile Char.isDigit = rest := by
      cases rest with
      | nil => rfl
      | cons c rest => simp [hrest c rfl]
    rw [List.takeWhile_append_of_pos hdigits, List.dropWhile_append_of_pos hdigits,
      hstop, hdrop, List.append_nil]
    cases hn : Nat.toDigits 10 n with
    | nil => exact absurd hn Nat.toDigits_ne_nil
    | cons c digits =>
        dsimp only
        rw [← hn, Nat.ofDigitChars_ten_toDigits]

/-- Numbers below a bound. -/
def below (bound : ℕ) : Codec {n // n < bound} :=
  nat.filterMap (fun n => if h : n < bound then some ⟨n, h⟩ else none) (·.val)
    fun n => by simp [n.property]

def null : Text := "null".toList

/-- A value or `null`. -/
def option (codec : Codec α)
    (h : ∀ a rest, skip null (codec.write a ++ rest) = none) :
    Codec (Option α) where
  write
    | some a => codec.write a
    | none => null
  read text :=
    match skip null text with
    | some rest => some (none, rest)
    | none => (codec.read text).map fun (a, rest) => (some a, rest)
  read_write value rest hrest := by
    cases value with
    | none => simp
    | some a => simp [h, codec.read_write a rest hrest]

theorem skip_null_nat (n : ℕ) (rest : Text) :
    skip null (nat.write n ++ rest) = none := by
  change skip null (Nat.toDigits 10 n ++ rest) = none
  cases hn : Nat.toDigits 10 n with
  | nil => exact absurd hn Nat.toDigits_ne_nil
  | cons c digits =>
      have hdigit : c.isDigit = true :=
        Nat.isDigit_of_mem_toDigits (b := 10) (n := n) (by decide) (by decide)
          (by simp [hn])
      have hne : 'n' ≠ c := by
        rintro rfl
        exact absurd hdigit (by decide)
      simp [null, skip, hne]

/-! ## Lists -/

def readRest (codec : Codec α) : ℕ → Text → Option (List α × Text)
  | 0, _ => none
  | _ + 1, ']' :: rest => some ([], rest)
  | fuel + 1, ',' :: rest => do
      let (a, rest) ← codec.read rest
      let (values, rest) ← readRest codec fuel rest
      return (a :: values, rest)
  | _ + 1, _ => none

theorem writeRest_clear (codec : Codec α) (values : List α) (rest : Text) :
    Clear (writeRest codec.write values ++ rest) := by
  cases values <;> simp [writeRest, Clear]

theorem length_lt_writeRest (codec : Codec α) (values : List α) :
    values.length < (writeRest codec.write values).length := by
  induction values with
  | nil => simp [writeRest]
  | cons a values ih =>
      simp only [writeRest, List.length_cons, List.length_append,
        List.cons_append]
      omega

theorem readRest_writeRest (codec : Codec α) (values : List α) (rest : Text)
    (fuel : ℕ) (hfuel : values.length < fuel) :
    codec.readRest fuel (writeRest codec.write values ++ rest) = some (values, rest) := by
  induction values generalizing fuel with
  | nil =>
      obtain ⟨n, rfl⟩ : ∃ n, fuel = n + 1 := ⟨fuel - 1, by grind⟩
      rfl
  | cons a values ih =>
      obtain ⟨n, rfl⟩ : ∃ n, fuel = n + 1 := ⟨fuel - 1, by grind⟩
      have hrest := ih n (by simpa using hfuel)
      have hread := codec.read_write a (writeRest codec.write values ++ rest)
        (writeRest_clear codec values rest)
      simp [writeRest, readRest, hread, hrest]

def list (codec : Codec α) (h : ∀ a rest, skip [']'] (codec.write a ++ rest) = none) :
    Codec (List α) where
  write := writeList codec.write
  read text := do
    let text ← skip ['['] text
    match skip [']'] text with
    | some rest => return ([], rest)
    | none =>
        let (a, rest) ← codec.read text
        let (values, rest) ← codec.readRest rest.length rest
        return (a :: values, rest)
  read_write values rest _ := by
    cases values with
    | nil => rfl
    | cons a values =>
        have hread := codec.read_write a (writeRest codec.write values ++ rest)
          (writeRest_clear codec values rest)
        have hlength := length_lt_writeRest codec values
        have hrest := codec.readRest_writeRest values rest
          (writeRest codec.write values ++ rest).length
          (by rw [List.length_append]; omega)
        change (skip ['['] (['['] ++ (codec.write a ++ writeRest codec.write values) ++
          rest)).bind _ = _
        rw [List.append_assoc, skip_append, List.append_assoc]
        simp only [Option.bind_eq_bind, Option.bind_some, h, hread, hrest]
        rfl

/-! ## Objects -/

end Codec

/-- The beginning of an object with its first field name. -/
def opening (name : String) : Text :=
  '{' :: quote :: name.toList ++ [quote, ':']

/-- The next field name. -/
def comma (name : String) : Text :=
  ',' :: quote :: name.toList ++ [quote, ':']

namespace Codec

/-- Two fields, or a field and all fields after it. -/
def field (first : Codec α) (name : String) (second : Codec β) :
    Codec (α × β) :=
  both first (comma name) second (by simp [Clear, comma]) (by simp [comma])

def object (name : String) (fields : Codec α) : Codec α :=
  after (opening name) (upTo fields ['}'] (by simp [Clear]) (by simp))

theorem skip_object (name : String) (fields : Codec α) (a : α) (rest : Text) :
    skip [']'] ((object name fields).write a ++ rest) = none := by
  simp [object, after, opening, skip]

end Codec

/-! ## Sizes -/

theorem size_le_of_forall {text : Text} {k : ℕ}
    (h : ∀ c ∈ text, c.utf8Size ≤ k) : size text ≤ k * text.length := by
  induction text with
  | nil => simp
  | cons c rest ih =>
      have hc := h c (by simp)
      have hrest := ih fun d hd => h d (by simp [hd])
      rw [size_cons, List.length_cons, Nat.mul_succ]
      omega

theorem utf8Size_of_lt {c : Char} (hc : c.toNat < 0x80) : c.utf8Size = 1 := by
  rw [Char.utf8Size_eq_one_iff, UInt32.le_iff_toNat_le]
  change c.toNat ≤ 127
  omega

theorem size_escape_control (n : ℕ) (hn : n < 0x20) :
    size (escape (Char.ofNat n)) ≤ 6 := by
  interval_cases n <;> decide

/-- An escape takes at most six bytes, and any other character is itself. -/
theorem size_escape_cases (c : Char) :
    size (escape c) ≤ 6 ∧ c.toNat < 0x20 ∨ size (escape c) = 2 ∨
      escape c = [c] := by
  by_cases hquote : c = quote
  · subst hquote
    exact .inr (.inl (by decide))
  by_cases hbackslash : c = backslash
  · subst hbackslash
    exact .inr (.inl (by decide))
  by_cases hc : c.toNat < 0x20
  · have hsize := size_escape_control c.toNat hc
    rw [Char.ofNat_toNat] at hsize
    exact .inl ⟨hsize, hc⟩
  · exact .inr (.inr (escape_plain hquote hbackslash (by omega)))

theorem size_escape_le (c : Char) : size (escape c) ≤ 6 * c.utf8Size := by
  have hpos := c.utf8Size_pos
  rcases size_escape_cases c with ⟨hsize, -⟩ | hsize | hplain
  · omega
  · omega
  · rw [hplain, size_cons, size_nil]
    omega

theorem size_escape_le_four {c : Char} (hc : 0x20 ≤ c.toNat) :
    size (escape c) ≤ 4 := by
  have hfour := c.utf8Size_le_four
  rcases size_escape_cases c with ⟨-, hlt⟩ | hsize | hplain
  · omega
  · omega
  · simpa [hplain] using hfour

/-- The size of the characters of a string in a text. -/
def escapedSize (s : String) : ℕ := size (s.toList.flatMap escape)

theorem size_flatMap_escape_le (s : Text) {k : ℕ}
    (h : ∀ c ∈ s, size (escape c) ≤ k) :
    size (s.flatMap escape) ≤ k * s.length := by
  induction s with
  | nil => simp
  | cons c rest ih =>
      have hc := h c (by simp)
      have hrest := ih fun d hd => h d (by simp [hd])
      rw [List.flatMap_cons, size_append, List.length_cons, Nat.mul_succ]
      omega

theorem escapedSize_le (s : String) : escapedSize s ≤ 6 * s.utf8ByteSize := by
  rw [← size_toList, escapedSize]
  induction s.toList with
  | nil => simp
  | cons c rest ih =>
      have hc := size_escape_le c
      rw [List.flatMap_cons, size_append, size_cons]
      omega

/-- A character that stands for itself in one byte. -/
def Plain (c : Char) : Prop :=
  0x20 ≤ c.toNat ∧ c.toNat < 0x80 ∧ c ≠ quote ∧ c ≠ backslash

theorem escapedSize_of_plain {s : String} (h : ∀ c ∈ s.toList, Plain c) :
    escapedSize s ≤ s.toList.length := by
  have hsize := @size_flatMap_escape_le s.toList 1 fun c hc => by
    obtain ⟨hlow, hhigh, hquote, hbackslash⟩ := h c hc
    rw [escape_plain hquote hbackslash hlow, size_cons, utf8Size_of_lt hhigh]
    rfl
  rwa [one_mul] at hsize

namespace Codec

variable {α : Type}

theorem size_string (s : String) :
    size (string.write s) = escapedSize s + 2 := by
  have hquote : size [quote] = 1 := by decide
  change size ([quote] ++ (s.toList.flatMap escape ++ [quote])) = _
  rw [size_append, size_append, hquote, escapedSize]
  omega

theorem size_nat {n k : ℕ} (hk : 0 < k) (hn : n < 10 ^ k) :
    size (nat.write n) ≤ k := by
  have hlength := (Nat.length_toDigits_le_iff (b := 10) (by decide) hk).mpr hn
  have hsize : size (Nat.toDigits 10 n) ≤ 1 * (Nat.toDigits 10 n).length := by
    apply size_le_of_forall
    intro c hc
    have hdigit : c.isDigit = true :=
      Nat.isDigit_of_mem_toDigits (by decide) (by decide) hc
    have hle : c.toNat < 0x80 := by
      simp only [Char.isDigit, Bool.and_eq_true, decide_eq_true_eq,
        UInt32.le_iff_toNat_le] at hdigit
      exact lt_of_le_of_lt hdigit.2 (by decide)
    rw [utf8Size_of_lt hle]
  exact hsize.trans (by omega)

end Codec

theorem size_writeRest_le {α : Type} {write : α → Text} {values : List α} {k : ℕ}
    (h : ∀ a ∈ values, size (write a) ≤ k) :
    size (writeRest write values) ≤ 1 + (k + 1) * values.length := by
  induction values with
  | nil =>
      have hbracket : size [']'] = 1 := by decide
      rw [writeRest, hbracket]
      omega
  | cons a values ih =>
      have ha := h a (by simp)
      have hrest := ih fun b hb => h b (by simp [hb])
      have hcomma : size [','] = 1 := by decide
      change size ([','] ++ write a ++ writeRest write values) ≤ _
      rw [size_append, size_append, hcomma, List.length_cons, Nat.mul_succ]
      omega

theorem size_writeList_le {α : Type} {write : α → Text} {values : List α} {k : ℕ}
    (h : ∀ a ∈ values, size (write a) ≤ k) :
    size (writeList write values) ≤ 2 + (k + 1) * values.length := by
  cases values with
  | nil =>
      have hbrackets : size ['[', ']'] = 2 := by decide
      rw [writeList, hbrackets]
      omega
  | cons a values =>
      have ha := h a (by simp)
      have hrest := @size_writeRest_le α write values k fun b hb =>
        h b (by simp [hb])
      have hbracket : size ['['] = 1 := by decide
      change size (['['] ++ write a ++ writeRest write values) ≤ _
      rw [size_append, size_append, hbracket, List.length_cons, Nat.mul_succ]
      omega

end JsonText
