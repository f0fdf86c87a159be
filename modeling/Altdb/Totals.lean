import Mathlib.Tactic

/-!
# Totals over a map

The sum of a weight over the entries of a tree map.  Inserting an entry changes
the total by the weights of the new and the replaced value, and a map whose
entries are covered by lighter ones has a smaller total.
-/

namespace Totals

variable {α β γ : Type*} {cmp : α → α → Ordering}

/-- The sum of the weights of all values. -/
def total (weight : β → ℕ) (m : Std.TreeMap α β cmp) : ℕ :=
  (m.toList.map fun entry => weight entry.2).sum

theorem total_one (m : Std.TreeMap α β cmp) : total (fun _ => 1) m = m.size := by
  simp [total, Std.TreeMap.length_toList]

variable [Std.TransCmp cmp] [Std.LawfulEqCmp cmp] {weight : β → ℕ}

/-- A map in which every value stands for one that weighs as much or more. -/
theorem total_le {weight' : γ → ℕ} {m : Std.TreeMap α β cmp}
    {m' : Std.TreeMap α γ cmp}
    (h : ∀ (k : α) (v' : γ), m'[k]? = some v' →
      ∃ v, m[k]? = some v ∧ weight' v' ≤ weight v) :
    total weight' m' ≤ total weight m := by
  classical
  have hcovered : ∀ entry ∈ m'.toList, ∃ v, m[entry.1]? = some v ∧
      weight' entry.2 ≤ weight v := by
    rintro ⟨k, v'⟩ hmem
    exact h k v' (Std.TreeMap.mem_toList_iff_getElem?_eq_some.mp hmem)
  cases isEmpty_or_nonempty β with
  | inl hempty =>
      have hnil : m'.toList = [] := List.eq_nil_iff_forall_not_mem.mpr
        fun entry hmem => (hcovered entry hmem).elim fun v _ => hempty.elim v
      simp [total, hnil]
  | inr hnonempty =>
      choose! cover hcover hweight using hcovered
      -- The values that are stood for, each under its own key.
      have hnodup : (m'.toList.map fun entry => (entry.1, cover entry)).Nodup := by
        refine Std.TreeMap.distinct_keys_toList.map _ fun a b hab heq => hab ?_
        rw [(Prod.mk.inj heq).1]
        exact Std.ReflCmp.compare_self
      have hsubset : (m'.toList.map fun entry => (entry.1, cover entry)) ⊆
          m.toList := by
        intro entry hmem
        obtain ⟨old, hold, rfl⟩ := List.mem_map.mp hmem
        exact Std.TreeMap.mem_toList_iff_getElem?_eq_some.mpr (hcover old hold)
      obtain ⟨part, hperm, hsub⟩ := List.subperm_of_subset hnodup hsubset
      calc total weight' m'
          ≤ (m'.toList.map fun entry => weight (cover entry)).sum :=
            List.sum_le_sum fun entry hmem => hweight entry hmem
        _ = (part.map fun entry => weight entry.2).sum := by
            rw [(hperm.map fun entry => weight entry.2).sum_eq, List.map_map]
            rfl
        _ ≤ total weight m := (hsub.map fun entry => weight entry.2).sum_le_sum
            fun _ _ => Nat.zero_le _

/-- An insertion trades the weight of the old value for that of the new one. -/
theorem total_insert (m : Std.TreeMap α β cmp) (k : α) (v : β) :
    total weight (m.insert k v) + m[k]?.elim 0 weight = total weight m + weight v := by
  classical
  have hperm (v : β) := ((@Std.TreeMap.toList_insert_perm _ _ _ m _ _ _ k v).map
    fun entry => weight entry.2).sum_eq
  cases hk : m[k]? with
  | none =>
      have hrest : (m.toList.filter fun entry => ¬(k == entry.1)) = m.toList := by
        apply List.filter_eq_self.mpr
        rintro ⟨other, old⟩ hmem
        have hold := Std.TreeMap.mem_toList_iff_getElem?_eq_some.mp hmem
        simp only [beq_iff_eq, decide_eq_true_eq]
        rintro rfl
        rw [hk] at hold
        cases hold
      simp only [total]
      rw [hperm, hrest]
      simp [Nat.add_comm]
  | some old =>
      have hsame : (m.insert k old).toList = m.toList := by
        apply Std.TreeMap.Equiv.toList_eq
        apply Std.TreeMap.Equiv.of_forall_constGet?_eq
        intro other
        rw [Std.TreeMap.getElem?_insert]
        split
        · next heq =>
          rw [← Std.LawfulEqCmp.eq_of_compare heq, hk]
        · rfl
      have hold := hperm old
      rw [hsame] at hold
      simp only [total]
      rw [hperm, hold]
      simp
      omega

/-- An entry weighs no more than the map. -/
theorem le_total {m : Std.TreeMap α β cmp} {k : α} {v : β} (h : m[k]? = some v) :
    weight v ≤ total weight m := by
  have hmem := Std.TreeMap.mem_toList_iff_getElem?_eq_some.mpr h
  exact List.le_sum_of_mem (List.mem_map_of_mem hmem)

theorem size_le {m : Std.TreeMap α β cmp} {m' : Std.TreeMap α γ cmp}
    (h : ∀ (k : α) (v' : γ), m'[k]? = some v' → ∃ v, m[k]? = some v) : m'.size ≤ m.size := by
  rw [← total_one, ← total_one]
  exact total_le fun k v' hv' => (h k v' hv').imp fun _ hv => ⟨hv, le_rfl⟩

end Totals
