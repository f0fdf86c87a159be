import Altdb.JsonText
import Mathlib.Data.List.Sort

/-!
# JSON values

The compact text of a value, and a reader for such texts.  Numbers are natural
numbers, and the fields of an object stand in the order in which they are
written.
-/

namespace JsonText

inductive Value where
  | null
  | bool (b : Bool)
  | nat (n : ℕ)
  | string (s : String)
  | array (items : List Value)
  | object (fields : List (String × Value))

/-- A map that keeps its fields in the order of their names. -/
def Value.map (fields : List (String × Value)) : Value :=
  .object (fields.insertionSort fun a b => a.1 ≤ b.1)

def Value.field (name : String) : Value → Option Value
  | .object fields => (fields.find? fun entry => entry.1 = name).map (·.2)
  | _ => none

/-! ## Texts -/

mutual

def Value.text : Value → Text
  | .null => Codec.null
  | .bool b => Codec.bool.write b
  | .nat n => Codec.nat.write n
  | .string s => Codec.string.write s
  | .array [] => ['[', ']']
  | .array (v :: items) => '[' :: (v.text ++ itemsText items)
  | .object [] => ['{', '}']
  | .object ((name, v) :: fields) =>
      '{' :: (Codec.string.write name ++ ':' :: (v.text ++ fieldsText fields))

def itemsText : List Value → Text
  | [] => [']']
  | v :: items => ',' :: (v.text ++ itemsText items)

def fieldsText : List (String × Value) → Text
  | [] => ['}']
  | (name, v) :: fields =>
      ',' :: (Codec.string.write name ++ ':' :: (v.text ++ fieldsText fields))

end

/-! ## Reading -/

mutual

def Value.read : ℕ → Text → Option (Value × Text)
  | 0, _ => none
  | fuel + 1, text =>
      match text with
      | [] => none
      | 'n' :: _ => (skip Codec.null text).map fun rest => (.null, rest)
      | 't' :: _ | 'f' :: _ =>
          (Codec.bool.read text).map fun (b, rest) => (.bool b, rest)
      | '[' :: ']' :: rest => some (.array [], rest)
      | '[' :: rest => do
          let (v, rest) ← Value.read fuel rest
          let (items, rest) ← readItems fuel rest
          return (.array (v :: items), rest)
      | '{' :: '}' :: rest => some (.object [], rest)
      | '{' :: rest => do
          let (name, rest) ← Codec.string.read rest
          let rest ← skip [':'] rest
          let (v, rest) ← Value.read fuel rest
          let (fields, rest) ← readFields fuel rest
          return (.object ((name, v) :: fields), rest)
      | c :: _ =>
          if c = quote then
            (Codec.string.read text).map fun (s, rest) => (.string s, rest)
          else (Codec.nat.read text).map fun (n, rest) => (.nat n, rest)

def readItems : ℕ → Text → Option (List Value × Text)
  | 0, _ => none
  | fuel + 1, text =>
      match text with
      | ']' :: rest => some ([], rest)
      | ',' :: rest => do
          let (v, rest) ← Value.read fuel rest
          let (items, rest) ← readItems fuel rest
          return (v :: items, rest)
      | _ => none

def readFields : ℕ → Text → Option (List (String × Value) × Text)
  | 0, _ => none
  | fuel + 1, text =>
      match text with
      | '}' :: rest => some ([], rest)
      | ',' :: rest => do
          let (name, rest) ← Codec.string.read rest
          let rest ← skip [':'] rest
          let (v, rest) ← Value.read fuel rest
          let (fields, rest) ← readFields fuel rest
          return ((name, v) :: fields, rest)
      | _ => none

end

theorem exists_digit (n : ℕ) :
    ∃ c digits, Codec.nat.write n = c :: digits ∧ c.isDigit = true := by
  change ∃ c digits, Nat.toDigits 10 n = c :: digits ∧ c.isDigit = true
  cases hn : Nat.toDigits 10 n with
  | nil => exact absurd hn Nat.toDigits_ne_nil
  | cons c digits =>
      have hmem : c ∈ Nat.toDigits 10 n := by simp [hn]
      exact ⟨c, digits, rfl, Nat.isDigit_of_mem_toDigits (by decide) (by decide) hmem⟩

/-- A text that begins a value never looks like the end of an array. -/
theorem Value.text_head (v : Value) : ∃ c more, v.text = c :: more ∧ c ≠ ']' := by
  cases v with
  | null => exact ⟨'n', _, rfl, by decide⟩
  | bool b => cases b <;> exact ⟨_, _, rfl, by decide⟩
  | nat n =>
      obtain ⟨c, digits, hn, hdigit⟩ := exists_digit n
      refine ⟨c, digits, by rw [Value.text, hn], ?_⟩
      intro hc
      subst hc
      exact absurd hdigit (by decide)
  | string s => exact ⟨quote, _, rfl, by decide⟩
  | array items => cases items <;> exact ⟨'[', _, by rw [Value.text], by decide⟩
  | object fields => cases fields <;> exact ⟨'{', _, by rw [Value.text], by decide⟩

theorem itemsText_clear (items : List Value) (rest : Text) :
    Clear (itemsText items ++ rest) := by
  cases items <;> simp [itemsText, Clear]

theorem fieldsText_clear (fields : List (String × Value)) (rest : Text) :
    Clear (fieldsText fields ++ rest) := by
  rcases fields with _ | ⟨⟨name, v⟩, fields⟩ <;> simp [fieldsText, Clear]

theorem read_array {c : Char} (hc : c ≠ ']') (fuel : ℕ) (text : Text) :
    Value.read (fuel + 1) ('[' :: c :: text) = (do
      let (v, rest) ← Value.read fuel (c :: text)
      let (items, rest) ← readItems fuel rest
      return (.array (v :: items), rest)) := by
  rw [Value.read]
  intro rest h
  exact hc (List.cons.inj h).1

theorem read_object (fuel : ℕ) (text : Text) :
    Value.read (fuel + 1) ('{' :: quote :: text) = (do
      let (name, rest) ← Codec.string.read (quote :: text)
      let rest ← skip [':'] rest
      let (v, rest) ← Value.read fuel rest
      let (fields, rest) ← readFields fuel rest
      return (.object ((name, v) :: fields), rest)) := by
  rw [Value.read]
  intro rest h
  exact absurd (List.cons.inj h).1 (by decide)

theorem read_digit {c : Char} (hc : c.isDigit = true) (fuel : ℕ) (text : Text) :
    Value.read (fuel + 1) (c :: text) =
      (Codec.nat.read (c :: text)).map fun (n, rest) => (.nat n, rest) := by
  have hquote : c ≠ quote := by
    intro h
    rw [h] at hc
    exact absurd hc (by decide)
  rw [Value.read, if_neg hquote]
  all_goals
    intros
    subst_vars
    exact absurd hc (by decide)

mutual

theorem Value.read_text (v : Value) (fuel : ℕ) (rest : Text)
    (hfuel : v.text.length < fuel) (hrest : Clear rest) :
    Value.read fuel (v.text ++ rest) = some (v, rest) := by
  obtain ⟨n, rfl⟩ : ∃ n, fuel = n + 1 := ⟨fuel - 1, by omega⟩
  cases v with
  | null => simp [Value.text, Value.read, Codec.null, skip]
  | bool b =>
      have hread := Codec.bool.read_write b rest hrest
      cases b <;> simpa [Value.text, Value.read, Codec.bool, Codec.word] using hread
  | nat k =>
      have hread := Codec.nat.read_write k rest hrest
      obtain ⟨c, digits, hk, hdigit⟩ := exists_digit k
      rw [Value.text, hk, List.cons_append, read_digit hdigit, ← List.cons_append, ← hk, hread]
      rfl
  | string s =>
      have hread := Codec.string.read_write s rest hrest
      change (Codec.string.read (Codec.string.write s ++ rest)).map _ = _
      rw [hread]
      rfl
  | array items =>
      cases items with
      | nil => rfl
      | cons v items =>
          simp only [Value.text, List.length_cons, List.length_append] at hfuel
          have hv := Value.read_text v n (itemsText items ++ rest) (by omega)
            (itemsText_clear items rest)
          have hitems := readItems_text items n rest (by omega)
          obtain ⟨c, more, hc, hne⟩ := v.text_head
          rw [Value.text, List.cons_append, List.append_assoc]
          rw [hc, List.cons_append] at hv ⊢
          rw [read_array hne, hv]
          simp [hitems]
  | object fields =>
      rcases fields with _ | ⟨⟨name, v⟩, fields⟩
      · rfl
      · simp only [Value.text, List.length_cons, List.length_append] at hfuel
        have hname := Codec.string.read_write name
          (':' :: (v.text ++ fieldsText fields ++ rest)) (by simp [Clear])
        have hv := Value.read_text v n (fieldsText fields ++ rest) (by omega)
          (fieldsText_clear fields rest)
        have hfields := readFields_text fields n rest (by omega)
        rw [Value.text, List.cons_append, List.append_assoc, List.cons_append]
        change Value.read (n + 1) ('{' :: quote :: _) = _
        rw [read_object]
        change (Codec.string.read (Codec.string.write name ++ _)).bind _ = _
        rw [hname]
        simp [skip, hv, hfields]

theorem readItems_text (items : List Value) (fuel : ℕ) (rest : Text)
    (hfuel : (itemsText items).length < fuel) :
    readItems fuel (itemsText items ++ rest) = some (items, rest) := by
  obtain ⟨n, rfl⟩ : ∃ n, fuel = n + 1 := ⟨fuel - 1, by omega⟩
  cases items with
  | nil => rfl
  | cons v items =>
      simp only [itemsText, List.length_cons, List.length_append] at hfuel
      have hv := Value.read_text v n (itemsText items ++ rest) (by omega)
        (itemsText_clear items rest)
      have hitems := readItems_text items n rest (by omega)
      simp [itemsText, readItems, hv, hitems]

theorem readFields_text (fields : List (String × Value)) (fuel : ℕ) (rest : Text)
    (hfuel : (fieldsText fields).length < fuel) :
    readFields fuel (fieldsText fields ++ rest) = some (fields, rest) := by
  obtain ⟨n, rfl⟩ : ∃ n, fuel = n + 1 := ⟨fuel - 1, by omega⟩
  rcases fields with _ | ⟨⟨name, v⟩, fields⟩
  · rfl
  · simp only [fieldsText, List.length_cons, List.length_append] at hfuel
    have hname := Codec.string.read_write name
      (':' :: (v.text ++ fieldsText fields ++ rest)) (by simp [Clear])
    have hv := Value.read_text v n (fieldsText fields ++ rest) (by omega)
      (fieldsText_clear fields rest)
    have hfields := readFields_text fields n rest (by omega)
    simp only [List.append_assoc] at hname
    simp [fieldsText, readFields, hname, skip, hv, hfields]

end

/-- A whole text. -/
def Value.parse (text : Text) : Option Value :=
  match Value.read (text.length + 1) text with
  | some (v, []) => some v
  | _ => none

theorem Value.parse_text (v : Value) : Value.parse v.text = some v := by
  have hread := v.read_text (v.text.length + 1) [] (by omega) (by simp [Clear])
  rw [List.append_nil] at hread
  rw [Value.parse, hread]

end JsonText
