import Mathlib.Logic.Relation

/-!
# Reachable states and invariants

A transition system is a predicate for its initial states and a relation for
its steps.  The rules below are the two ways in which a development uses runs:
an invariant holds in every reachable state, and a stable property once true
stays true.
-/

namespace Transition

variable {σ : Type*}

/-- The states that some run from an initial state reaches. -/
def Reachable (init : σ → Prop) (step : σ → σ → Prop) (s : σ) : Prop :=
  ∃ s₀, init s₀ ∧ Relation.ReflTransGen step s₀ s

variable {init : σ → Prop} {step : σ → σ → Prop}

theorem Reachable.start {s : σ} (h : init s) : Reachable init step s :=
  ⟨s, h, .refl⟩

theorem Reachable.next {s s' : σ} (h : Reachable init step s)
    (hstep : step s s') : Reachable init step s' := by
  obtain ⟨s₀, hinit, hrun⟩ := h
  exact ⟨s₀, hinit, hrun.tail hstep⟩

theorem Reachable.run {s s' : σ} (h : Reachable init step s)
    (hrun : Relation.ReflTransGen step s s') : Reachable init step s' := by
  obtain ⟨s₀, hinit, hbefore⟩ := h
  exact ⟨s₀, hinit, hbefore.trans hrun⟩

/-- The invariant rule.  A step may use that its source is reachable, so that
invariants proved earlier are available. -/
theorem Reachable.invariant {inv : σ → Prop}
    (hinit : ∀ s, init s → inv s)
    (hstep : ∀ s s', Reachable init step s → inv s → step s s' → inv s')
    {s : σ} (h : Reachable init step s) : inv s := by
  obtain ⟨s₀, h₀, hrun⟩ := h
  induction hrun with
  | refl => exact hinit s₀ h₀
  | tail hbefore hlast ih => exact hstep _ _ ⟨s₀, h₀, hbefore⟩ ih hlast

/-- A property that every step keeps survives every run. -/
theorem stable {prop : σ → Prop} (hstep : ∀ s s', prop s → step s s' → prop s')
    {s s' : σ} (h : prop s) (hrun : Relation.ReflTransGen step s s') :
    prop s' := by
  induction hrun with
  | refl => exact h
  | tail _ hlast ih => exact hstep _ _ ih hlast

end Transition
