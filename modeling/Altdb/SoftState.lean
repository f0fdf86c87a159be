import Mathlib.Data.List.Basic
import Mathlib.Data.Int.Order.Basic
import Mathlib.Logic.Function.Basic

/-!
# Soft state

A listener keeps what it hears for the lifetime that comes with it, and forgets it
at once when the lifetime is zero.  A speaker that repeats the same keys before
they expire, and takes them back before it changes them, keeps the listener at
exactly its own keys.
-/

namespace SoftState

variable {K : Type*} [DecidableEq K]

/-- The time at which each key expires. -/
abbrev Cache (K : Type*) := K → Option ℤ

/-- A key with its lifetime. -/
structure Notice (K : Type*) where
  key : K
  lifetime : ℕ

def empty : Cache K := fun _ => none

def absorb (now : ℤ) (cache : Cache K) (notice : Notice K) : Cache K :=
  Function.update cache notice.key
    (if notice.lifetime = 0 then none else some (now + notice.lifetime))

def absorbAll (now : ℤ) (cache : Cache K) (notices : List (Notice K)) : Cache K :=
  notices.foldl (absorb now) cache

/-- Exactly the keys, all with the same time. -/
def filled (keys : List K) (expiry : ℤ) : Cache K :=
  fun key => if key ∈ keys then some expiry else none

/-- Notices with one lifetime set their own keys and no others. -/
theorem absorbAll_apply (now : ℤ) (cache : Cache K) (keys : List K) (lifetime : ℕ) (key : K) :
    absorbAll now cache (keys.map (⟨·, lifetime⟩)) key =
      if key ∈ keys then (if lifetime = 0 then none else some (now + lifetime))
      else cache key := by
  induction keys generalizing cache with
  | nil => rfl
  | cons first rest ih =>
      have hnext := ih (absorb now cache ⟨first, lifetime⟩)
      change absorbAll now (absorb now cache ⟨first, lifetime⟩) _ key = _
      rw [hnext]
      by_cases hrest : key ∈ rest
      · rw [if_pos hrest, if_pos (List.mem_cons_of_mem _ hrest)]
      · rw [if_neg hrest]
        by_cases hfirst : key = first
        · subst hfirst
          rw [absorb, Function.update_self, if_pos List.mem_cons_self]
        · have hnot : key ∉ first :: rest := fun h => (List.mem_cons.mp h).elim hfirst hrest
          rw [absorb, Function.update_of_ne hfirst, if_neg hnot]

/-- A cache that holds nothing but some of the keys. -/
def Within (keys : List K) (cache : Cache K) : Prop :=
  ∀ key, key ∉ keys → cache key = none

theorem within_filled (keys : List K) (expiry : ℤ) : Within keys (filled keys expiry) :=
  fun _ h => if_neg h

omit [DecidableEq K] in
theorem within_empty (keys : List K) : Within keys (empty : Cache K) := fun _ _ => rfl

/-- Repeated keys are held until their lifetime has passed. -/
theorem absorbAll_renew {keys : List K} {cache : Cache K} (h : Within keys cache) (now : ℤ)
    {lifetime : ℕ} (hlifetime : lifetime ≠ 0) :
    absorbAll now cache (keys.map (⟨·, lifetime⟩)) = filled keys (now + lifetime) := by
  funext key
  rw [absorbAll_apply, if_neg hlifetime, filled]
  by_cases hkey : key ∈ keys
  · rw [if_pos hkey, if_pos hkey]
  · rw [if_neg hkey, if_neg hkey, h key hkey]

/-- Keys that are taken back leave nothing. -/
theorem absorbAll_forget {keys : List K} {cache : Cache K} (h : Within keys cache) (now : ℤ) :
    absorbAll now cache (keys.map (⟨·, 0⟩)) = empty := by
  funext key
  rw [absorbAll_apply]
  by_cases hkey : key ∈ keys
  · rw [if_pos hkey, if_pos rfl]
    rfl
  · rw [if_neg hkey, h key hkey]
    rfl

end SoftState
