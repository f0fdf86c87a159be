import Mathlib.Tactic

/-!
# Fallible stateful methods

`EStateM ε σ α` is the type of a method that may fail after it has already
changed its receiver: the state reached so far survives the failure.  This
file gives such methods a weakest precondition with one postcondition for each
exit.  The rules below turn a method body into a statement about its branches,
so that a caller cites the rule of each callee and unfolds nothing else.
-/

namespace Fallible

variable {ε σ α β : Type}

/-! ## Building blocks -/

/-- Fail with `message` unless the condition holds. -/
def ensure (condition : Prop) [Decidable condition] (message : ε) :
    EStateM ε σ Unit :=
  if condition then pure () else throw message

/-- Pass on the outcome of a call that does not touch the state. -/
def lift : Except ε α → EStateM ε σ α
  | .ok value => pure value
  | .error error => throw error

/-- Run a method and hand its outcome to the caller instead of failing. -/
def attempt (method : EStateM ε σ α) : EStateM ε σ (Except ε α) := fun s =>
  match method s with
  | .ok value s' => .ok (.ok value) s'
  | .error error s' => .ok (.error error) s'

/-- Convert the failures of a method. -/
def mapError {ε' : Type} (f : ε → ε') (method : EStateM ε σ α) :
    EStateM ε' σ α := fun s =>
  match method s with
  | .ok value s' => .ok value s'
  | .error error s' => .error (f error) s'

/-- The state in which a method ends, on either exit. -/
def final : EStateM.Result ε σ α → σ
  | .ok _ s => s
  | .error _ s => s

/-- The value or the failure with which a method ends. -/
def outcome : EStateM.Result ε σ α → Except ε α
  | .ok value _ => .ok value
  | .error error _ => .error error

@[simp] theorem final_ok (value : α) (s : σ) :
    final (.ok value s : EStateM.Result ε σ α) = s := rfl

@[simp] theorem final_error (error : ε) (s : σ) :
    final (.error error s : EStateM.Result ε σ α) = s := rfl

@[simp] theorem outcome_ok (value : α) (s : σ) :
    outcome (.ok value s : EStateM.Result ε σ α) = .ok value := rfl

@[simp] theorem outcome_error (error : ε) (s : σ) :
    outcome (.error error s : EStateM.Result ε σ α) = .error error := rfl

theorem eq_ok_of_outcome {result : EStateM.Result ε σ α} {value : α}
    (h : outcome result = .ok value) : result = .ok value (final result) := by
  cases result with
  | ok value' s =>
      obtain rfl := Except.ok.inj h
      rfl
  | error error s => cases h

theorem bind_ok {method : EStateM ε σ α} {next : α → EStateM ε σ β} {value : α} {s s' : σ}
    (h : method s = .ok value s') : (method >>= next) s = next value s' := by
  change EStateM.bind method next s = _
  rw [EStateM.bind, h]

theorem bind_error {method : EStateM ε σ α} {next : α → EStateM ε σ β} {error : ε}
    {s s' : σ} (h : method s = .error error s') : (method >>= next) s = .error error s' := by
  change EStateM.bind method next s = _
  rw [EStateM.bind, h]

/-- A condition is met, or the method fails. -/
theorem ensure_cases (condition : Prop) [Decidable condition] (message : ε) (s : σ) :
    ¬ condition ∧ ensure condition message s = .error message s ∨
      condition ∧ ensure condition message s = .ok () s := by
  by_cases h : condition
  · refine .inr ⟨h, ?_⟩
    rw [ensure, if_pos h]
    rfl
  · refine .inl ⟨h, ?_⟩
    rw [ensure, if_neg h]
    rfl

/-! ## Weakest preconditions -/

/-- Started in `s`, the method ends in `post` if it returns and in `fail` if
it fails. -/
def wp (method : EStateM ε σ α) (post : α → σ → Prop) (fail : ε → σ → Prop)
    (s : σ) : Prop :=
  match method s with
  | .ok value s' => post value s'
  | .error error s' => fail error s'

variable {post : α → σ → Prop} {fail : ε → σ → Prop} {s : σ}

theorem wp_mono {method : EStateM ε σ α} {post' : α → σ → Prop}
    {fail' : ε → σ → Prop} (h : wp method post fail s)
    (hpost : ∀ value s', post value s' → post' value s')
    (hfail : ∀ error s', fail error s' → fail' error s') :
    wp method post' fail' s := by
  unfold wp at h ⊢
  split at h
  · exact hpost _ _ h
  · exact hfail _ _ h

/-- The rule that remembers the run. -/
theorem wp_intro {method : EStateM ε σ α}
    (hpost : ∀ value s', method s = .ok value s' → post value s')
    (hfail : ∀ error s', method s = .error error s' → fail error s') :
    wp method post fail s := by
  unfold wp
  split
  · exact hpost _ _ (by assumption)
  · exact hfail _ _ (by assumption)

/-- What holds on both exits holds of the final state. -/
theorem wp_final {method : EStateM ε σ α} {inv : σ → Prop}
    (h : wp method (fun _ => inv) (fun _ => inv) s) : inv (final (method s)) := by
  unfold wp at h
  cases hrun : method s <;> simpa [hrun] using h

/-- A method that returned satisfies its postcondition. -/
theorem wp_of_ok {method : EStateM ε σ α} {value : α} {s' : σ}
    (h : wp method post fail s) (hrun : method s = .ok value s') :
    post value s' := by
  simpa [wp, hrun] using h

theorem wp_of_error {method : EStateM ε σ α} {error : ε} {s' : σ}
    (h : wp method post fail s) (hrun : method s = .error error s') :
    fail error s' := by
  simpa [wp, hrun] using h

theorem eq_ok_of_wp {method : EStateM ε σ α} {value : α} {s' : σ}
    (h : wp method (fun v t => v = value ∧ t = s') (fun _ _ => False) s) :
    method s = .ok value s' := by
  unfold wp at h
  cases hrun : method s <;> simp_all

/-- A method that can only fail in one way fails in this way. -/
theorem eq_error_of_wp {method : EStateM ε σ α} {error : ε} {s' : σ}
    (h : wp method (fun _ _ => False) (fun e t => e = error ∧ t = s') s) :
    method s = .error error s' := by
  unfold wp at h
  cases hrun : method s <;> simp_all

@[simp] theorem wp_pure (value : α) :
    wp (pure value : EStateM ε σ α) post fail s ↔ post value s := Iff.rfl

@[simp] theorem wp_throw (error : ε) :
    wp (throw error : EStateM ε σ α) post fail s ↔ fail error s := Iff.rfl

@[simp] theorem wp_bind (method : EStateM ε σ α) (next : α → EStateM ε σ β)
    {post : β → σ → Prop} :
    wp (method >>= next) post fail s ↔
      wp method (fun value => wp (next value) post fail) fail s := by
  show wp (EStateM.bind method next) post fail s ↔ _
  unfold wp EStateM.bind
  cases method s <;> rfl

@[simp] theorem wp_map (f : α → β) (method : EStateM ε σ α)
    {post : β → σ → Prop} :
    wp (f <$> method) post fail s ↔
      wp method (fun value => post (f value)) fail s := by
  show wp (EStateM.map f method) post fail s ↔ _
  unfold wp EStateM.map
  cases method s <;> rfl

@[simp] theorem wp_get {post : σ → σ → Prop} :
    wp (get : EStateM ε σ σ) post fail s ↔ post s s := Iff.rfl

@[simp] theorem wp_set (s' : σ) {post : PUnit → σ → Prop} :
    wp (set s' : EStateM ε σ PUnit) post fail s ↔ post ⟨⟩ s' := Iff.rfl

@[simp] theorem wp_modify (f : σ → σ) {post : PUnit → σ → Prop} :
    wp (modify f : EStateM ε σ PUnit) post fail s ↔ post ⟨⟩ (f s) := Iff.rfl

@[simp] theorem wp_ensure (condition : Prop) [Decidable condition]
    (message : ε) {post : Unit → σ → Prop} :
    wp (ensure condition message) post fail s ↔
      (condition → post () s) ∧ (¬condition → fail message s) := by
  unfold ensure
  split <;> simp [*]

@[simp] theorem wp_lift (result : Except ε α) :
    wp (lift result) post fail s ↔
      (∀ value, result = .ok value → post value s) ∧
        (∀ error, result = .error error → fail error s) := by
  cases result <;> simp [lift]

@[simp] theorem wp_attempt (method : EStateM ε σ α)
    {post : Except ε α → σ → Prop} :
    wp (attempt method) post fail s ↔
      wp method (fun value => post (.ok value)) (fun error => post (.error error))
        s := by
  unfold wp attempt
  cases method s <;> rfl

@[simp] theorem wp_mapError {ε' : Type} (f : ε → ε') (method : EStateM ε σ α)
    {fail : ε' → σ → Prop} : wp (mapError f method) post fail s ↔
      wp method post (fun error => fail (f error)) s := by
  unfold wp mapError
  cases method s <;> rfl

@[simp] theorem wp_ite (condition : Prop) [Decidable condition]
    (yes no : EStateM ε σ α) :
    wp (if condition then yes else no) post fail s ↔
      (condition → wp yes post fail s) ∧ (¬condition → wp no post fail s) := by
  split <;> simp [*]

/-! ## Invariants -/

/-- The method keeps what holds of the state, on either exit. -/
def Preserves (inv : σ → Prop) (method : EStateM ε σ α) : Prop :=
  ∀ s, inv s → wp method (fun _ => inv) (fun _ => inv) s

namespace Preserves

variable {inv : σ → Prop}

theorem pure (value : α) :
    Preserves inv (Pure.pure value : EStateM ε σ α) := fun _ h => h

theorem throw (error : ε) :
    Preserves inv (MonadExcept.throw error : EStateM ε σ α) := fun _ h => h

theorem modify {f : σ → σ} (h : ∀ s, inv s → inv (f s)) :
    Preserves inv (modify f : EStateM ε σ PUnit) := fun s hs => h s hs

theorem ensure (condition : Prop) [Decidable condition] (message : ε) :
    Preserves inv (Fallible.ensure condition message : EStateM ε σ Unit) := by
  intro s hs
  rw [wp_ensure]
  exact ⟨fun _ => hs, fun _ => hs⟩

theorem lift (result : Except ε α) :
    Preserves inv (Fallible.lift result : EStateM ε σ α) := by
  intro s h
  rw [wp_lift]
  exact ⟨fun _ _ => h, fun _ _ => h⟩

theorem bind {method : EStateM ε σ α} {next : α → EStateM ε σ β}
    (h : Preserves inv method) (hnext : ∀ value, Preserves inv (next value)) :
    Preserves inv (method >>= next) := by
  intro s hs
  rw [wp_bind]
  exact wp_mono (h s hs) (fun value s' => hnext value s') (fun _ _ h => h)

/-- The rest of a method knows something of the value that it gets. -/
theorem bind_of {method : EStateM ε σ α} {next : α → EStateM ε σ β}
    {P : α → Prop}
    (h : ∀ s, inv s →
      wp method (fun value s' => P value ∧ inv s') (fun _ => inv) s)
    (hnext : ∀ value, P value → Preserves inv (next value)) :
    Preserves inv (method >>= next) := by
  intro s hs
  rw [wp_bind]
  exact wp_mono (h s hs) (fun value s' h => hnext value h.1 s' h.2)
    (fun _ _ h => h)

/-- The rest of a method knows that the state it read was a good one. -/
theorem get_bind {next : σ → EStateM ε σ β}
    (h : ∀ s, inv s → Preserves inv (next s)) :
    Preserves inv (get >>= next) := by
  intro s hs
  rw [wp_bind, wp_get]
  exact h s hs s hs

theorem lift_bind {result : Except ε α} {next : α → EStateM ε σ β}
    (h : ∀ value, result = .ok value → Preserves inv (next value)) :
    Preserves inv (Fallible.lift result >>= next) := by
  intro s hs
  rw [wp_bind, wp_lift]
  exact ⟨fun value hvalue => h value hvalue s hs, fun _ _ => hs⟩

/-- The rest of a method knows that the condition was met. -/
theorem ensure_bind {condition : Prop} [Decidable condition] {message : ε}
    {next : Unit → EStateM ε σ β}
    (h : condition → Preserves inv (next ())) :
    Preserves inv (Fallible.ensure condition message >>= next) := by
  intro s hs
  rw [wp_bind, wp_ensure]
  exact ⟨fun hcondition => h hcondition s hs, fun _ => hs⟩

theorem attempt {method : EStateM ε σ α} (h : Preserves inv method) :
    Preserves inv (Fallible.attempt method) := by
  intro s hs
  rw [wp_attempt]
  exact h s hs

theorem mapError {ε' : Type} {f : ε → ε'} {method : EStateM ε σ α}
    (h : Preserves inv method) : Preserves inv (Fallible.mapError f method) := by
  intro s hs
  rw [wp_mapError]
  exact h s hs

theorem final {method : EStateM ε σ α} (h : Preserves inv method) {s : σ}
    (hs : inv s) : inv (Fallible.final (method s)) :=
  wp_final (h s hs)

theorem forM {item : Type} {body : item → EStateM ε σ PUnit}
    (h : ∀ x, Preserves inv (body x)) :
    ∀ items : List item, Preserves inv (items.forM body)
  | [] => pure _
  | x :: rest => bind (h x) fun _ => forM h rest

theorem ite {condition : Prop} [Decidable condition]
    {yes no : EStateM ε σ α} (hyes : Preserves inv yes)
    (hno : Preserves inv no) :
    Preserves inv (if condition then yes else no) := by
  split
  · exact hyes
  · exact hno

end Preserves

/-! ## Loops -/

/-- The loop rule: an invariant of the body, read with the items still to do,
carries over the whole loop. -/
theorem wp_forM {item : Type} {body : item → EStateM ε σ PUnit}
    {inv : List item → σ → Prop} {fail : ε → σ → Prop}
    (hbody : ∀ x rest s, inv (x :: rest) s →
      wp (body x) (fun _ => inv rest) fail s)
    (items : List item) (s : σ) (hinit : inv items s) :
    wp (items.forM body) (fun _ => inv []) fail s := by
  induction items generalizing s with
  | nil => exact hinit
  | cons x rest ih =>
      show wp (body x >>= fun _ => rest.forM body) (fun _ => inv []) fail s
      rw [wp_bind]
      exact wp_mono (hbody x rest s hinit) (fun _ s' h => ih s' h)
        (fun _ _ h => h)

end Fallible
