import Altdb.Base64
import Mathlib.Data.List.DropRight

/-!
# Data in command lines

The URL-safe base64 alphabet without padding, and the words of a command line
in which a shell expands nothing.  Together they carry any bytes through a
shell: no encoded character is special, so the quotes around the word cannot be
left.
-/

namespace Base64

/-! ## The URL-safe alphabet -/

def urlChar (c : Char) : Char :=
  if c = '+' then '-' else if c = '/' then '_' else c

def standardChar (c : Char) : Char :=
  if c = '-' then '+' else if c = '_' then '/' else c

def UrlSafe (c : Char) : Prop :=
  ('A' ≤ c ∧ c ≤ 'Z') ∨ ('a' ≤ c ∧ c ≤ 'z') ∨ ('0' ≤ c ∧ c ≤ '9') ∨ c = '_' ∨ c = '-'

instance (c : Char) : Decidable (UrlSafe c) :=
  inferInstanceAs (Decidable (_ ∨ _))

def isUrlSafe (text : List Char) : Bool := text.all fun c => decide (UrlSafe c)

theorem isUrlSafe_iff {text : List Char} : isUrlSafe text = true ↔ ∀ c ∈ text, UrlSafe c := by
  simp [isUrlSafe]

/-- The text without its padding. -/
def urlEncode (bytes : List UInt8) : List Char :=
  ((encode bytes).map urlChar).rdropWhile (· = '=')

/-- A decoder that takes no padding. -/
def urlDecode (text : List Char) : Option (List UInt8) :=
  if isUrlSafe text then
    decode (text.map standardChar ++ List.replicate ((4 - text.length % 4) % 4) '=')
  else none

theorem urlSafe_digit : ∀ n < 64, UrlSafe (urlChar (digit n)) := by decide

theorem standardChar_digit : ∀ n < 64, standardChar (urlChar (digit n)) = digit n := by decide

theorem urlChar_ne_pad : ∀ n < 64, urlChar (digit n) ≠ '=' := by decide

/-- The digits of a text, and its padding up to a multiple of four. -/
structure Padded (bytes : List UInt8) (digits : List ℕ) : Prop where
  bound : ∀ n ∈ digits, n < 64
  text : encode bytes =
    digits.map digit ++ List.replicate ((4 - digits.length % 4) % 4) '='
  length : 3 * digits.length ≤ 4 * bytes.length + 2
  nonempty : bytes ≠ [] → digits ≠ []

theorem exists_padded (bytes : List UInt8) : ∃ digits, Padded bytes digits := by
  fun_induction encode bytes with
  | case1 => exact ⟨[], by simp, rfl, by simp, by simp⟩
  | case2 x =>
      have hx := x.toNat_lt
      refine ⟨[x.toNat / 4, x.toNat % 4 * 16], ?_, rfl, by simp, by simp⟩
      simp only [List.mem_cons, List.not_mem_nil, or_false, forall_eq_or_imp, forall_eq]
      omega
  | case3 x y =>
      have hx := x.toNat_lt
      have hy := y.toNat_lt
      refine ⟨[x.toNat / 4, x.toNat % 4 * 16 + y.toNat / 16, y.toNat % 16 * 4], ?_, rfl,
        by simp, by simp⟩
      simp only [List.mem_cons, List.not_mem_nil, or_false, forall_eq_or_imp, forall_eq]
      omega
  | case4 x y z rest ih =>
      have hx := x.toNat_lt
      have hy := y.toNat_lt
      have hz := z.toNat_lt
      obtain ⟨digits, hbound, htext, hlength, -⟩ := ih
      refine ⟨x.toNat / 4 :: (x.toNat % 4 * 16 + y.toNat / 16) ::
        (y.toNat % 16 * 4 + z.toNat / 64) :: z.toNat % 64 :: digits, ?_, ?_, ?_, by simp⟩
      · simp only [List.mem_cons, forall_eq_or_imp]
        exact ⟨by omega, by omega, by omega, by omega, hbound⟩
      · have hpad : (4 - (digits.length + 4) % 4) % 4 = (4 - digits.length % 4) % 4 := by
          rw [Nat.add_mod_right]
        simp only [encode, htext, List.map_cons, List.cons_append, List.length_cons,
          Nat.add_assoc, Nat.reduceAdd, hpad]
      · simp only [List.length_cons]
        omega

theorem rdropWhile_append_of_forall {α : Type*} {p : α → Bool} {kept dropped : List α}
    (hkept : ∀ a ∈ kept, p a = false) (hdropped : ∀ a ∈ dropped, p a = true) :
    (kept ++ dropped).rdropWhile p = kept := by
  have hall : ∀ a ∈ dropped.reverse, p a = true := by simpa using hdropped
  rw [List.rdropWhile, List.reverse_append, List.dropWhile_append_of_pos hall]
  cases hlast : kept.reverse with
  | nil => simpa using congrArg List.reverse hlast
  | cons a before =>
      have ha : a ∈ kept := by simpa using List.mem_reverse.mp (hlast ▸ List.mem_cons_self)
      rw [List.dropWhile_cons_of_neg (by simp [hkept a ha]), ← hlast, List.reverse_reverse]

theorem Padded.urlEncode {bytes : List UInt8} {digits : List ℕ} (h : Padded bytes digits) :
    urlEncode bytes = digits.map fun n => urlChar (digit n) := by
  rw [Base64.urlEncode, h.text, List.map_append, List.map_map]
  apply rdropWhile_append_of_forall
  · intro c hc
    obtain ⟨n, hn, rfl⟩ := List.mem_map.mp hc
    exact decide_eq_false (urlChar_ne_pad n (h.bound n hn))
  · intro c hc
    rw [List.map_replicate] at hc
    rw [(List.mem_replicate.mp hc).2]
    decide

theorem urlEncode_safe (bytes : List UInt8) : ∀ c ∈ urlEncode bytes, UrlSafe c := by
  obtain ⟨digits, h⟩ := exists_padded bytes
  rw [h.urlEncode]
  intro c hc
  obtain ⟨n, hn, rfl⟩ := List.mem_map.mp hc
  exact urlSafe_digit n (h.bound n hn)

theorem urlEncode_length (bytes : List UInt8) :
    3 * (urlEncode bytes).length ≤ 4 * bytes.length + 2 := by
  obtain ⟨digits, h⟩ := exists_padded bytes
  rw [h.urlEncode, List.length_map]
  exact h.length

theorem urlEncode_ne_nil {bytes : List UInt8} (hbytes : bytes ≠ []) : urlEncode bytes ≠ [] := by
  obtain ⟨digits, h⟩ := exists_padded bytes
  rw [h.urlEncode]
  simpa using h.nonempty hbytes

theorem urlDecode_urlEncode (bytes : List UInt8) :
    urlDecode (urlEncode bytes) = some bytes := by
  rw [urlDecode, if_pos (isUrlSafe_iff.mpr (urlEncode_safe bytes))]
  obtain ⟨digits, h⟩ := exists_padded bytes
  have hback : (digits.map fun n => urlChar (digit n)).map standardChar = digits.map digit := by
    rw [List.map_map]
    apply List.map_congr_left
    intro n hn
    exact standardChar_digit n (h.bound n hn)
  rw [h.urlEncode, hback, List.length_map, ← h.text, decode_encode]

end Base64

namespace Shell

/-! ## Words -/

def apostrophe : Char := Char.ofNat 0x27

def tab : Char := Char.ofNat 0x09

/-- What a shell does not take literally outside quotes, blanks and apostrophes
apart. -/
def special : List Char :=
  ['|', '&', ';', '<', '>', '(', ')', '$', '*', '?', '[', '#', '~', '=', '%', '!', '{', '}',
    Char.ofNat 0x0A, Char.ofNat 0x22, Char.ofNat 0x5C, Char.ofNat 0x60]

/-- The words of a command line.  `word` is what has been read of the current
word.  A line with anything to expand, to redirect or to run separately has no
words here. -/
def words (word : Option (List Char)) (quoted : Bool) : List Char → Option (List (List Char))
  | [] => if quoted then none else some word.toList
  | c :: rest =>
      if quoted then
        if c = apostrophe then words word false rest
        else words (some (word.getD [] ++ [c])) true rest
      else if c = apostrophe then words (some (word.getD [])) true rest
      else if c = ' ' ∨ c = tab then (words none false rest).map (word.toList ++ ·)
      else if c ∈ special then none
      else words (some (word.getD [] ++ [c])) false rest

def Literal (c : Char) : Prop := c ≠ apostrophe ∧ c ≠ ' ' ∧ c ≠ tab ∧ c ∉ special

instance (c : Char) : Decidable (Literal c) := inferInstanceAs (Decidable (_ ∧ _))

def isLiteral (text : List Char) : Bool := text.all fun c => decide (Literal c)

theorem words_literal {text : List Char} (htext : ∀ c ∈ text, Literal c) (word rest : List Char) :
    words (some word) false (text ++ rest) = words (some (word ++ text)) false rest := by
  induction text generalizing word with
  | nil => simp
  | cons c text ih =>
      obtain ⟨hquote, hblank, htab, hspecial⟩ := htext c List.mem_cons_self
      have hblanks : ¬ (c = ' ' ∨ c = tab) := by simp [hblank, htab]
      rw [List.cons_append, words, if_neg (by decide), if_neg hquote, if_neg hblanks,
        if_neg hspecial, Option.getD_some, ih fun c hc => htext c (List.mem_cons_of_mem _ hc)]
      simp

/-- A word and the blank after it. -/
theorem words_word {text : List Char} (hne : text ≠ []) (hliteral : isLiteral text = true)
    (rest : List Char) :
    words none false (text ++ ' ' :: rest) = (words none false rest).map (text :: ·) := by
  have htext : ∀ c ∈ text, Literal c := by simpa [isLiteral] using hliteral
  cases text with
  | nil => exact absurd rfl hne
  | cons c text =>
      obtain ⟨hquote, hblank, htab, hspecial⟩ := htext c List.mem_cons_self
      have hblanks : ¬ (c = ' ' ∨ c = tab) := by simp [hblank, htab]
      rw [List.cons_append, words, if_neg (by decide), if_neg hquote, if_neg hblanks,
        if_neg hspecial, words_literal fun c hc => htext c (List.mem_cons_of_mem _ hc)]
      rw [words, if_neg (by decide), if_neg (by decide), if_pos (.inl rfl)]
      simp

/-- A quoted word reaches the program as it stands between the quotes. -/
theorem words_quoted {text : List Char} (htext : apostrophe ∉ text) (word : List Char) :
    words (some word) true (text ++ [apostrophe]) = some [word ++ text] := by
  induction text generalizing word with
  | nil => simp [words]
  | cons c text ih =>
      have hne : c ≠ apostrophe := fun h => htext (by simp [h])
      have hrest : apostrophe ∉ text := fun h => htext (List.mem_cons_of_mem _ h)
      rw [List.cons_append, words, if_pos rfl, if_neg hne, Option.getD_some, ih hrest]
      simp

theorem quote_not_safe {text : List Char} (htext : ∀ c ∈ text, Base64.UrlSafe c) :
    apostrophe ∉ text :=
  fun hmem => absurd (htext _ hmem) (by decide)

end Shell
