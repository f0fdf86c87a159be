import Mathlib.Data.List.Basic

/-!
# Properties of a history

A history is a list of events, the oldest first.  `EachMoment` constrains each
event by what happened before it, `Answered` asks for something after it.  The
rules below say how either is kept while the history grows.
-/

namespace History

variable {α : Type*} {h h' : List α}

/-- Each event satisfies `P` together with the events before it. -/
def EachMoment (P : List α → α → Prop) (h : List α) : Prop :=
  ∀ before e after, h = before ++ e :: after → P before e

/-- Each event that asks is followed by one that answers. -/
def Answered (asks answers : α → Prop) (h : List α) : Prop :=
  ∀ before e after, h = before ++ e :: after → asks e →
    ∃ e' ∈ after, answers e'

/-! ## Each moment -/

variable {P Q : List α → α → Prop}

@[simp] theorem eachMoment_nil : EachMoment P [] := by
  intro before e after heq
  simp at heq

/-- An event of an appended list is in one of the two parts. -/
theorem append_eq_append_cons {before after : List α} {e : α}
    (heq : h ++ h' = before ++ e :: after) :
    (∃ rest, h = before ++ e :: rest ∧ after = rest ++ h') ∨
      ∃ start, before = h ++ start ∧ h' = start ++ e :: after := by
  rcases List.append_eq_append_iff.mp heq with ⟨start, rfl, rfl⟩ | ⟨rest, rfl, hrest⟩
  · exact .inr ⟨start, rfl, rfl⟩
  · cases rest with
    | nil => exact .inr ⟨[], by simp, by simpa using hrest.symm⟩
    | cons d rest =>
        obtain ⟨rfl, rfl⟩ := List.cons.inj hrest
        exact .inl ⟨rest, rfl, rfl⟩

theorem eachMoment_append :
    EachMoment P (h ++ h') ↔
      EachMoment P h ∧ EachMoment (fun before => P (h ++ before)) h' := by
  constructor
  · intro hall
    refine ⟨fun before e after heq => ?_, fun before e after heq => ?_⟩
    · exact hall before e (after ++ h') (by simp [heq])
    · exact hall (h ++ before) e after (by simp [heq])
  · rintro ⟨hleft, hright⟩ before e after heq
    rcases append_eq_append_cons heq with ⟨rest, hrest, -⟩ | ⟨start, rfl, hstart⟩
    · exact hleft before e rest hrest
    · exact hright start e after hstart

@[simp] theorem eachMoment_cons {e : α} :
    EachMoment P (e :: h) ↔
      P [] e ∧ EachMoment (fun before => P (e :: before)) h := by
  have hone : EachMoment P [e] ↔ P [] e := by
    constructor
    · exact fun hall => hall [] e [] rfl
    · intro hp before d after heq
      rcases List.singleton_eq_append_iff.mp heq with ⟨rfl, hd⟩ | ⟨-, hd⟩
      · obtain ⟨rfl, -⟩ := List.cons.inj hd
        exact hp
      · cases hd
  rw [← List.singleton_append, eachMoment_append, hone]
  rfl

/-! ## Answers -/

variable {asks answers : α → Prop}

theorem answered_append :
    Answered asks answers (h ++ h') ↔
      (Answered asks answers h ∨ ∃ e ∈ h', answers e) ∧
        Answered asks answers h' := by
  constructor
  · intro hall
    refine ⟨?_, fun before e after heq => ?_⟩
    · by_cases hanswer : ∃ e ∈ h', answers e
      · exact .inr hanswer
      · refine .inl fun before e after heq hasks => ?_
        obtain ⟨e', he', hanswers⟩ :=
          hall before e (after ++ h') (by simp [heq]) hasks
        rcases List.mem_append.mp he' with he' | he'
        · exact ⟨e', he', hanswers⟩
        · exact absurd ⟨e', he', hanswers⟩ hanswer
    · exact hall (h ++ before) e after (by simp [heq])
  · rintro ⟨hleft, hright⟩ before e after heq hasks
    rcases append_eq_append_cons heq with ⟨rest, hrest, rfl⟩ | ⟨start, rfl, hstart⟩
    · rcases hleft with hleft | ⟨e', he', hanswers⟩
      · obtain ⟨e', he', hanswers⟩ := hleft before e rest hrest hasks
        exact ⟨e', List.mem_append_left _ he', hanswers⟩
      · exact ⟨e', List.mem_append_right _ he', hanswers⟩
    · exact hright start e after hstart hasks

/-- Nothing is to be answered where nothing asks. -/
theorem Answered.of_forall_not (hall : ∀ e ∈ h, ¬asks e) :
    Answered asks answers h := by
  intro before e after heq hasks
  exact absurd hasks (hall e (by simp [heq]))

end History
