import Mathlib.Tactic

/-!
# Incremental framing

A framer looks at the front of an input and finds an item there, or an error,
or that more input is needed.  A reader that keeps what is left over and looks
again after each read finds the same items however the input is cut, as long as
more input does not change what was found before.
-/

/-- What a framer finds at the front of an input. -/
inductive Frame (α β ε : Type*) where
  | more
  | bad (error : ε)
  | item (value : β) (rest : List α)

/-- A framer.  An item takes some of the input. -/
structure Framer (α β ε : Type*) where
  read : List α → Frame α β ε
  shorter : ∀ {input : List α} {value : β} {rest : List α},
    read input = .item value rest → rest.length < input.length

namespace Framer

variable {α β ε ε' : Type*}

/-- The items at the front of an input and what is left. -/
def split (F : Framer α β ε) (input : List α) : List β × List α :=
  match _hread : F.read input with
  | .item value rest => (value :: (split F rest).1, (split F rest).2)
  | .bad _ => ([], input)
  | .more => ([], input)
termination_by input.length
decreasing_by all_goals exact F.shorter ‹_›

/-- Later input does not change what was found. -/
structure Stable (F : Framer α β ε) : Prop where
  item : ∀ {input : List α} {value : β} {rest : List α} (later : List α),
    F.read input = .item value rest → F.read (input ++ later) = .item value (rest ++ later)
  bad : ∀ {input : List α} {error : ε} (later : List α),
    F.read input = .bad error → F.read (input ++ later) = .bad error

variable {F : Framer α β ε} {input rest : List α} {value : β} {error : ε}

theorem split_item (h : F.read input = .item value rest) :
    F.split input = (value :: (F.split rest).1, (F.split rest).2) := by
  rw [split]
  split
  · next heq =>
    obtain ⟨rfl, rfl⟩ := Frame.item.inj (heq.symm.trans h)
    rfl
  · next heq => cases heq.symm.trans h
  · next heq => cases heq.symm.trans h

theorem split_bad (h : F.read input = .bad error) : F.split input = ([], input) := by
  rw [split]
  split
  · next heq => cases heq.symm.trans h
  · rfl
  · rfl

theorem split_more (h : F.read input = .more) : F.split input = ([], input) := by
  rw [split]
  split
  · next heq => cases heq.symm.trans h
  · rfl
  · rfl

/-- The induction along the items of an input. -/
theorem split_induction {motive : List α → Prop}
    (item : ∀ input value rest, F.read input = .item value rest → motive rest → motive input)
    (bad : ∀ input error, F.read input = .bad error → motive input)
    (more : ∀ input, F.read input = .more → motive input) (input : List α) :
    motive input := by
  induction hlength : input.length using Nat.strong_induction_on generalizing input with
  | _ n ih =>
      cases hread : F.read input with
      | more => exact more input hread
      | bad error => exact bad input error hread
      | item value rest =>
          exact item input value rest hread (ih rest.length (hlength ▸ F.shorter hread) rest rfl)

/-- No item is left. -/
theorem read_split (input : List α) :
    F.read (F.split input).2 = .more ∨ ∃ error, F.read (F.split input).2 = .bad error := by
  induction input using F.split_induction with
  | item input value rest h ih =>
      rw [split_item h]
      exact ih
  | bad input error h =>
      rw [split_bad h]
      exact .inr ⟨error, h⟩
  | more input h =>
      rw [split_more h]
      exact .inl h

/-- The items of an input that arrives in two parts. -/
theorem Stable.split_append (h : F.Stable) (input later : List α) :
    F.split (input ++ later) =
      ((F.split input).1 ++ (F.split ((F.split input).2 ++ later)).1,
        (F.split ((F.split input).2 ++ later)).2) := by
  induction input using F.split_induction with
  | item input value rest hread ih =>
      rw [split_item (h.item later hread), split_item hread, ih]
      rfl
  | bad input error hread =>
      rw [split_bad hread]
      rfl
  | more input hread =>
      rw [split_more hread]
      rfl

/-- The items of an input that starts with their encodings. -/
theorem split_flatMap {encode : β → List α} (values : List β) (rest : List α)
    (h : ∀ value ∈ values, ∀ rest, F.read (encode value ++ rest) = .item value rest) :
    F.split (values.flatMap encode ++ rest) =
      (values ++ (F.split rest).1, (F.split rest).2) := by
  induction values with
  | nil => rfl
  | cons value values ih =>
      have hvalues := ih fun v hv => h v (List.mem_cons_of_mem value hv)
      rw [List.flatMap_cons, List.append_assoc,
        split_item (h value List.mem_cons_self _), hvalues]
      rfl

/-- Framers that find the same items, whatever their errors. -/
theorem split_congr {G : Framer α β ε'}
    (h : ∀ input value rest, F.read input = .item value rest ↔
      G.read input = .item value rest) (input : List α) : F.split input = G.split input := by
  have hnone : ∀ input, (∀ value rest, F.read input ≠ .item value rest) →
      G.split input = ([], input) := by
    intro input hno
    cases hread : G.read input with
    | more => exact split_more hread
    | bad error => exact split_bad hread
    | item value rest => exact absurd ((h input value rest).mpr hread) (hno value rest)
  induction input using F.split_induction with
  | item input value rest hread ih =>
      rw [split_item hread, split_item ((h input value rest).mp hread), ih]
  | bad input error hread =>
      rw [split_bad hread, hnone input fun value rest heq => by cases hread.symm.trans heq]
  | more input hread =>
      rw [split_more hread, hnone input fun value rest heq => by cases hread.symm.trans heq]

/-! ## Complete inputs -/

/-- The framer of a decoder for inputs that do not grow. -/
def ofDecoder (decode : List α → Option (β × List α))
    (shorter : ∀ {input value rest}, decode input = some (value, rest) →
      rest.length < input.length) : Framer α β Unit where
  read := fun input => (decode input).elim (.bad ()) fun found => .item found.1 found.2
  shorter := by
    intro input value rest h
    cases hdecode : decode input with
    | none =>
        rw [hdecode] at h
        cases h
    | some found =>
        rw [hdecode] at h
        obtain ⟨rfl, rfl⟩ := Frame.item.inj h
        exact shorter hdecode

end Framer
