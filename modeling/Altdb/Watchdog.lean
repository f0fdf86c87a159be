import Altdb.Config
import Altdb.Transition
import Mathlib.Tactic

/-!
# The watchdog script

`service.sh` may be started at any time and more than once, the daemon may also
be started by hand, either may die at any moment, and the owner of the device
may set and clear the flags that disable the module.  Two file locks keep one
script and one daemon; the delay between two starts of the daemon doubles up to
a minute.
-/

namespace Altdb.Watchdog

/-! ## Doubling delays -/

/-- The starts so far, the latest first, with the delay before the next one.  Counted
back from the latest, the start at place `k` either lies `quiet` back, or the
delay has doubled with each start since. -/
def Spaced (cap quiet : ℕ) (launches : List ℕ) (delay : ℕ) : Prop :=
  ∀ latest ∈ launches.head?, ∀ k t, launches[k]? = some t →
    t + quiet ≤ latest ∨ (t + secs (2 ^ k - 1) ≤ latest ∧ min (2 ^ k) cap ≤ delay)

theorem secs_add (a b : ℕ) : secs (a + b) = secs a + secs b := Nat.add_mul _ _ _

theorem secs_mono {a b : ℕ} (h : a ≤ b) : secs a ≤ secs b := Nat.mul_le_mul_right _ h

/-- One more start, after the delay, or after a run that has lasted long. -/
theorem Spaced.launch {cap quiet delay delay' slept : ℕ} {launches : List ℕ} {now : ℕ}
    (h : Spaced cap quiet launches delay) (hcap : 0 < cap) (hquiet : quiet ≤ secs cap)
    (hslept : ∀ latest ∈ launches.head?, latest + secs slept ≤ now ∧
      (latest + quiet ≤ now ∨ slept = delay))
    (hdelay : delay' = min (2 * slept) cap) (hpos : 0 < slept) :
    Spaced cap quiet (now :: launches) delay' := by
  intro latest hlatest k t ht
  obtain rfl := Option.some.inj hlatest
  cases k with
  | zero =>
      obtain rfl := Option.some.inj ht
      right
      constructor
      · simp [secs]
      · omega
  | succ k =>
      rw [List.getElem?_cons_succ] at ht
      cases launches with
      | nil => cases ht
      | cons before launches =>
          obtain ⟨hwait, hcause⟩ := hslept before rfl
          have hle : t ≤ before := by
            rcases h before rfl k t ht with hfar | hnear
            · omega
            · omega
          rcases hcause with hlong | rfl
          · left
            omega
          · rcases h before rfl k t ht with hfar | ⟨hnear, hgrown⟩
            · left
              omega
            · by_cases hbig : cap ≤ 2 ^ k
              · left
                have hslept : secs cap ≤ secs slept := secs_mono (by omega)
                omega
              · right
                have hpow : 2 ^ (k + 1) = 2 * 2 ^ k := by ring
                have hone : 1 ≤ 2 ^ k := Nat.one_le_two_pow
                have hsplit : secs (2 ^ (k + 1) - 1) = secs (2 ^ k - 1) + secs (2 ^ k) := by
                  rw [← secs_add]
                  congr 1
                  omega
                have hslept : secs (2 ^ k) ≤ secs slept := secs_mono (by omega)
                constructor
                · omega
                · omega

/-! ## The script -/

/-- Where a run of the script stands; a stage with a time sleeps until then.  `child` is
the daemon that it has started.  In `spawned` the variable `PID` is not yet set. -/
inductive Stage where
  /-- Up to `flock`; also a script that has not been started. -/
  | opening
  | booting (wake : ℕ)
  /-- At the test of the outer loop. -/
  | idle
  | dated (start : ℤ)
  | spawned (start : ℤ) (child : ℕ)
  /-- At the test of the inner loop. -/
  | watching (start : ℤ) (child : ℕ)
  | napping (start : ℤ) (child : ℕ) (wake : ℕ)
  | resting (wake : ℕ)
  /-- In `stopping`, waiting for the daemon. -/
  | stopping (child : ℕ)
  | exited (left : Option ℕ)
  | killed (wake : ℕ) (left : Option ℕ)
  deriving DecidableEq, Repr

/-- A run of the script with its variable `DELAY`; `starts` is a history variable, the times
at which it has read `START`, the latest first. -/
structure Script where
  stage : Stage
  delay : ℕ
  starts : List ℕ
  deriving DecidableEq, Repr

inductive DaemonStage where
  | absent
  /-- Up to the lock of the state directory. -/
  | opening
  | serving
  | ended (code : ℕ)
  deriving DecidableEq, Repr

/-- A daemon with the script that has started it, if one has. -/
structure Process where
  parent : Option ℕ
  stage : DaemonStage
  deriving DecidableEq, Repr

structure Device where
  clock : ℕ
  /-- Whether `disable` or `remove` is there. -/
  disabled : Bool
  booted : Bool
  scripts : ℕ → Script
  daemons : ℕ → Process
  next : ℕ

def Stage.child : Stage → Option ℕ
  | .spawned _ child | .watching _ child | .napping _ child _ | .stopping child => some child
  | .exited left | .killed _ left => left
  | _ => none

/-- Until when a command in the foreground runs on, which has inherited the lock. -/
def Stage.wake (clock : ℕ) : Stage → ℕ
  | .booting wake | .napping _ _ wake | .resting wake => wake
  | _ => clock

/-- The lock of the script is held. -/
def Stage.Holds (clock : ℕ) : Stage → Prop
  | .opening | .exited _ => False
  | .killed wake _ => clock < wake
  | _ => True

/-- The signal handler is set and the script runs. -/
def Stage.Trapped : Stage → Prop
  | .opening | .exited _ | .killed _ _ => False
  | _ => True

def DaemonStage.Alive (stage : DaemonStage) : Prop := stage = .opening ∨ stage = .serving

/-- What the script goes on with when it is interrupted. -/
def Stage.interrupted : Stage → Stage
  | .watching _ child | .napping _ child _ | .stopping child => .stopping child
  | stage => .exited stage.child

/-- The delay before the next start, after a run since `start`. -/
def Script.backoff (script : Script) (start now : ℤ) : ℕ :=
  if 60 ≤ now - start then 1 else script.delay

/-- One command of a script.  `date` is what `date +%s` prints at a time. -/
inductive Moves (date : ℕ → ℤ) (s : Device) (w : Script) : Script → Prop
  | lock (hstage : w.stage = .opening) (hfree : ∀ j, ¬ (s.scripts j).stage.Holds s.clock) :
      Moves date s w { w with stage := .booting s.clock }
  | refused (hstage : w.stage = .opening) : Moves date s w { w with stage := .exited none }
  | booted (wake : ℕ) (hstage : w.stage = .booting wake) (hwake : wake ≤ s.clock)
      (hbooted : s.booted = true) : Moves date s w { w with stage := .idle }
  | unbooted (wake : ℕ) (hstage : w.stage = .booting wake) (hwake : wake ≤ s.clock)
      (hbooted : s.booted = false) (hdisabled : s.disabled = false) :
      Moves date s w { w with stage := .booting (s.clock + secs 1) }
  | unwanted (wake : ℕ) (hstage : w.stage = .booting wake) (hwake : wake ≤ s.clock)
      (hbooted : s.booted = false) (hdisabled : s.disabled = true) :
      Moves date s w { w with stage := .exited none }
  | leave (hstage : w.stage = .idle) (hdisabled : s.disabled = true) :
      Moves date s w { w with stage := .exited none }
  | start (hstage : w.stage = .idle) (hdisabled : s.disabled = false) :
      Moves date s w { w with stage := .dated (date s.clock), starts := s.clock :: w.starts }
  | name (start : ℤ) (child : ℕ) (hstage : w.stage = .spawned start child) :
      Moves date s w { w with stage := .watching start child }
  -- `kill -0` also finds a daemon that has ended and has not been reaped
  | nap (start : ℤ) (child : ℕ) (hstage : w.stage = .watching start child)
      (hdisabled : s.disabled = false) :
      Moves date s w { w with stage := .napping start child (s.clock + secs 1) }
  | halt (start : ℤ) (child : ℕ) (hstage : w.stage = .watching start child)
      (hdisabled : s.disabled = true) : Moves date s w { w with stage := .stopping child }
  | poll (start : ℤ) (child wake : ℕ) (hstage : w.stage = .napping start child wake)
      (hwake : wake ≤ s.clock) : Moves date s w { w with stage := .watching start child }
  | done (start : ℤ) (child code : ℕ) (hstage : w.stage = .watching start child)
      (hended : (s.daemons child).stage = .ended code) (hcode : code = 0 ∨ code = 73) :
      Moves date s w { w with stage := .exited none }
  | rest (start : ℤ) (child code : ℕ) (hstage : w.stage = .watching start child)
      (hended : (s.daemons child).stage = .ended code) (hcode : ¬ (code = 0 ∨ code = 73)) :
      Moves date s w { w with
        stage := .resting (s.clock + secs (w.backoff start (date s.clock)))
        delay := w.backoff start (date s.clock) }
  | retry (wake : ℕ) (hstage : w.stage = .resting wake) (hwake : wake ≤ s.clock) :
      Moves date s w { w with stage := .idle, delay := min (2 * w.delay) 60 }
  | stopped (child code : ℕ) (hstage : w.stage = .stopping child)
      (hended : (s.daemons child).stage = .ended code) :
      Moves date s w { w with stage := .exited none }
  /-- `TERM` or `INT`. -/
  | interrupt (htrapped : w.stage.Trapped) :
      Moves date s w { w with stage := w.stage.interrupted }
  | kill (htrapped : w.stage.Trapped) :
      Moves date s w { w with stage := .killed (w.stage.wake s.clock) w.stage.child }

/-- One step of a daemon on the lock of the state directory. -/
inductive DaemonMoves (s : Device) : DaemonStage → DaemonStage → Prop
  | lock (hfree : ∀ l, (s.daemons l).stage ≠ .serving) : DaemonMoves s .opening .serving
  | already (l : ℕ) (hheld : (s.daemons l).stage = .serving) :
      DaemonMoves s .opening (.ended 73)
  | fail (code : ℕ) : DaemonMoves s .opening (.ended code)
  | exit (code : ℕ) : DaemonMoves s .serving (.ended code)

inductive Step (date : ℕ → ℤ) : Device → Device → Prop
  | time (s : Device) (clock : ℕ) (htime : s.clock ≤ clock) : Step date s { s with clock := clock }
  | owner (s : Device) (disabled booted : Bool) :
      Step date s { s with disabled := disabled, booted := booted }
  | move (s : Device) (i : ℕ) (w : Script) (hmoves : Moves date s (s.scripts i) w) :
      Step date s { s with scripts := Function.update s.scripts i w }
  | launch (s : Device) (i : ℕ) (start : ℤ) (hstage : (s.scripts i).stage = .dated start) :
      Step date s { s with
        scripts := Function.update s.scripts i
          { s.scripts i with stage := .spawned start s.next }
        daemons := Function.update s.daemons s.next ⟨some i, .opening⟩
        next := s.next + 1 }
  | manual (s : Device) :
      Step date s { s with
        daemons := Function.update s.daemons s.next ⟨none, .opening⟩
        next := s.next + 1 }
  | daemon (s : Device) (k : ℕ) (stage : DaemonStage)
      (hmoves : DaemonMoves s (s.daemons k).stage stage) :
      Step date s { s with
        daemons := Function.update s.daemons k { s.daemons k with stage := stage } }

/-- A device before any script and any daemon has been started. -/
def Device.Initial (s : Device) : Prop :=
  (∀ i, s.scripts i = ⟨.opening, 1, []⟩) ∧ (∀ k, s.daemons k = ⟨none, .absent⟩) ∧ s.next = 0

abbrev Reachable (date : ℕ → ℤ) : Device → Prop :=
  Transition.Reachable Device.Initial (Step date)

variable {date : ℕ → ℤ} {s s' : Device} {w w' : Script}

/-! ## One script and one daemon -/

theorem Stage.interrupted_child (stage : Stage) : stage.interrupted.child = stage.child := by
  cases stage <;> rfl

theorem Stage.holds_of_trapped {stage : Stage} {clock : ℕ} (h : stage.Trapped) :
    stage.Holds clock := by
  cases stage <;> first | exact h.elim | trivial

/-- A script takes the lock only when it is free. -/
theorem Moves.holds (h : Moves date s w w') (hholds : w'.stage.Holds s.clock) :
    w.stage.Holds s.clock ∨ ∀ j, ¬ (s.scripts j).stage.Holds s.clock := by
  cases h with
  | lock hstage hfree => exact .inr hfree
  | refused | unwanted | leave | done | stopped => exact hholds.elim
  | interrupt htrapped => exact .inl (Stage.holds_of_trapped htrapped)
  | kill htrapped => exact .inl (Stage.holds_of_trapped htrapped)
  | booted _ hstage | unbooted _ hstage | start hstage | name _ _ hstage | nap _ _ hstage
  | halt _ _ hstage | poll _ _ _ hstage | rest _ _ _ hstage | retry _ hstage =>
      left
      rw [hstage]
      trivial

/-- A script forgets its daemon only once that has ended. -/
theorem Moves.child (h : Moves date s w w') :
    w'.stage.child = w.stage.child ∨
      w'.stage.child = none ∧ ∀ c, w.stage.child = some c → ¬ (s.daemons c).stage.Alive := by
  have hgone : ∀ {c k code : ℕ}, some c = some k → (s.daemons c).stage = .ended code →
      ¬ (s.daemons k).stage.Alive := by
    rintro c k code hck hended
    obtain rfl := Option.some.inj hck
    simp [hended, DaemonStage.Alive]
  cases h with
  | interrupt => exact .inl (Stage.interrupted_child _)
  | kill => exact .inl rfl
  | done start child code hstage hended =>
      right
      rw [hstage]
      exact ⟨rfl, fun c hc => hgone hc hended⟩
  | rest start child code hstage hended =>
      right
      rw [hstage]
      exact ⟨rfl, fun c hc => hgone hc hended⟩
  | stopped child code hstage hended =>
      right
      rw [hstage]
      exact ⟨rfl, fun c hc => hgone hc hended⟩
  | lock hstage | refused hstage | booted _ hstage | unbooted _ hstage | unwanted _ hstage
  | leave hstage | start hstage | name _ _ hstage | nap _ _ hstage | halt _ _ hstage
  | poll _ _ _ hstage | retry _ hstage =>
      left
      rw [hstage]
      rfl

structure Device.Sound (s : Device) : Prop where
  one : ∀ i j, (s.scripts i).stage.Holds s.clock → (s.scripts j).stage.Holds s.clock → i = j
  serving : ∀ k l, (s.daemons k).stage = .serving → (s.daemons l).stage = .serving → k = l
  children : ∀ i c, (s.scripts i).stage.child = some c →
    c < s.next ∧ (s.daemons c).parent = some i
  tracked : ∀ i k, (s.daemons k).parent = some i → (s.daemons k).stage.Alive →
    (s.scripts i).stage.child = some k
  fresh : ∀ k, s.next ≤ k → s.daemons k = ⟨none, .absent⟩
  present : ∀ k, k < s.next → (s.daemons k).stage ≠ .absent

theorem Device.Initial.sound (h : s.Initial) : s.Sound := by
  obtain ⟨hscripts, hdaemons, hnext⟩ := h
  constructor
  · intro i j hi
    rw [hscripts] at hi
    exact hi.elim
  · intro k l hk
    rw [hdaemons] at hk
    cases hk
  · intro i c hc
    rw [hscripts] at hc
    cases hc
  · intro i k hk
    rw [hdaemons] at hk
    cases hk
  · exact fun k _ => hdaemons k
  · intro k hk
    rw [hnext] at hk
    cases hk

theorem Stage.Holds.earlier {stage : Stage} {clock clock' : ℕ} (h : stage.Holds clock')
    (htime : clock ≤ clock') : stage.Holds clock := by
  cases stage with
  | killed wake left =>
      have hwake : clock' < wake := h
      exact htime.trans_lt hwake
  | _ => exact h

theorem DaemonMoves.alive {stage stage' : DaemonStage} (h : DaemonMoves s stage stage')
    (halive : stage'.Alive) : stage.Alive := by
  cases h with
  | lock => exact .inl rfl
  | already | fail | exit => rcases halive with hopen | hserving <;> contradiction

theorem Device.Sound.move (h : s.Sound) (i : ℕ) (hmoves : Moves date s (s.scripts i) w) :
    Device.Sound { s with scripts := Function.update s.scripts i w } where
  one a b ha hb := by
    have hkept : ∀ a, (Function.update s.scripts i w a).stage.Holds s.clock →
        (s.scripts a).stage.Holds s.clock ∨
          a = i ∧ ∀ j, ¬ (s.scripts j).stage.Holds s.clock := by
      intro a ha
      by_cases hai : a = i
      · subst hai
        rw [Function.update_self] at ha
        exact (hmoves.holds ha).imp id fun hfree => ⟨rfl, hfree⟩
      · rw [Function.update_of_ne hai] at ha
        exact .inl ha
    rcases hkept a ha with hold | ⟨rfl, hfree⟩
    · rcases hkept b hb with hold' | ⟨rfl, hfree⟩
      · exact h.one a b hold hold'
      · exact absurd hold (hfree a)
    · rcases hkept b hb with hold' | ⟨rfl, -⟩
      · exact absurd hold' (hfree b)
      · rfl
  serving := h.serving
  children a c hc := by
    dsimp only at hc ⊢
    by_cases hai : a = i
    · subst hai
      rw [Function.update_self] at hc
      rcases hmoves.child with hsame | ⟨hnone, -⟩
      · exact h.children a c (hsame ▸ hc)
      · rw [hnone] at hc
        cases hc
    · rw [Function.update_of_ne hai] at hc
      exact h.children a c hc
  tracked a k hparent halive := by
    dsimp only at hparent halive ⊢
    have htracked := h.tracked a k hparent halive
    by_cases hai : a = i
    · subst hai
      rw [Function.update_self]
      rcases hmoves.child with hsame | ⟨-, hgone⟩
      · rw [hsame]
        exact htracked
      · exact absurd halive (hgone k htracked)
    · rw [Function.update_of_ne hai]
      exact htracked
  fresh := h.fresh
  present := h.present

theorem Device.Sound.launch (h : s.Sound) (i : ℕ) (start : ℤ)
    (hstage : (s.scripts i).stage = .dated start) :
    Device.Sound { s with
      scripts := Function.update s.scripts i { s.scripts i with stage := .spawned start s.next }
      daemons := Function.update s.daemons s.next ⟨some i, .opening⟩
      next := s.next + 1 } where
  one a b ha hb := by
    have hkept : ∀ a, (Function.update s.scripts i
        { s.scripts i with stage := .spawned start s.next } a).stage.Holds s.clock →
        (s.scripts a).stage.Holds s.clock := by
      intro a ha
      by_cases hai : a = i
      · rw [hai, hstage]
        trivial
      · rwa [Function.update_of_ne hai] at ha
    exact h.one a b (hkept a ha) (hkept b hb)
  serving k l hk hl := by
    have hold : ∀ k, (Function.update s.daemons s.next ⟨some i, .opening⟩ k).stage = .serving →
        (s.daemons k).stage = .serving := by
      intro k hk
      by_cases hnext : k = s.next
      · rw [hnext, Function.update_self] at hk
        cases hk
      · rwa [Function.update_of_ne hnext] at hk
    exact h.serving k l (hold k hk) (hold l hl)
  children a c hc := by
    dsimp only at hc ⊢
    by_cases hai : a = i
    · rw [hai, Function.update_self] at hc
      obtain rfl := Option.some.inj hc
      rw [hai, Function.update_self]
      exact ⟨Nat.lt_succ_self _, rfl⟩
    · rw [Function.update_of_ne hai] at hc
      obtain ⟨hlt, hparent⟩ := h.children a c hc
      rw [Function.update_of_ne hlt.ne]
      exact ⟨hlt.trans (Nat.lt_succ_self _), hparent⟩
  tracked a k hparent halive := by
    dsimp only at hparent halive ⊢
    by_cases hnext : k = s.next
    · rw [hnext, Function.update_self] at hparent
      obtain rfl := Option.some.inj hparent
      rw [Function.update_self, hnext]
      rfl
    · rw [Function.update_of_ne hnext] at hparent halive
      have htracked := h.tracked a k hparent halive
      have hai : a ≠ i := by
        rintro rfl
        rw [hstage] at htracked
        cases htracked
      rw [Function.update_of_ne hai]
      exact htracked
  fresh k hk := by
    dsimp only at hk ⊢
    have hne : k ≠ s.next := by omega
    rw [Function.update_of_ne hne]
    exact h.fresh k ((Nat.le_succ _).trans hk)
  present k hk := by
    dsimp only at hk ⊢
    by_cases hnext : k = s.next
    · rw [hnext, Function.update_self]
      exact DaemonStage.noConfusion
    · rw [Function.update_of_ne hnext]
      exact h.present k (by omega)

theorem Device.Sound.manual (h : s.Sound) :
    Device.Sound { s with
      daemons := Function.update s.daemons s.next ⟨none, .opening⟩
      next := s.next + 1 } where
  one := h.one
  serving k l hk hl := by
    have hold : ∀ k, (Function.update s.daemons s.next ⟨none, .opening⟩ k).stage = .serving →
        (s.daemons k).stage = .serving := by
      intro k hk
      by_cases hnext : k = s.next
      · rw [hnext, Function.update_self] at hk
        cases hk
      · rwa [Function.update_of_ne hnext] at hk
    exact h.serving k l (hold k hk) (hold l hl)
  children a c hc := by
    dsimp only at hc ⊢
    obtain ⟨hlt, hparent⟩ := h.children a c hc
    rw [Function.update_of_ne hlt.ne]
    exact ⟨hlt.trans (Nat.lt_succ_self _), hparent⟩
  tracked a k hparent halive := by
    dsimp only at hparent halive ⊢
    by_cases hnext : k = s.next
    · rw [hnext, Function.update_self] at hparent
      cases hparent
    · rw [Function.update_of_ne hnext] at hparent halive
      exact h.tracked a k hparent halive
  fresh k hk := by
    dsimp only at hk ⊢
    have hne : k ≠ s.next := by omega
    rw [Function.update_of_ne hne]
    exact h.fresh k ((Nat.le_succ _).trans hk)
  present k hk := by
    dsimp only at hk ⊢
    by_cases hnext : k = s.next
    · rw [hnext, Function.update_self]
      exact DaemonStage.noConfusion
    · rw [Function.update_of_ne hnext]
      exact h.present k (by omega)

theorem Device.Sound.daemon (h : s.Sound) (k : ℕ) {stage : DaemonStage}
    (hmoves : DaemonMoves s (s.daemons k).stage stage) :
    Device.Sound { s with
      daemons := Function.update s.daemons k { s.daemons k with stage := stage } } where
  one := h.one
  serving a b ha hb := by
    by_cases hserving : stage = .serving
    · have hfree : ∀ l, (s.daemons l).stage ≠ .serving := by
        generalize hold : (s.daemons k).stage = old at hmoves
        cases hmoves with
        | lock hfree => exact hfree
        | already | fail | exit => cases hserving
      have hnew : ∀ a, (Function.update s.daemons k { s.daemons k with stage := stage } a).stage =
          .serving → a = k := by
        intro a ha
        by_contra hak
        rw [Function.update_of_ne hak] at ha
        exact hfree a ha
      rw [hnew a ha, hnew b hb]
    · have hold : ∀ a, (Function.update s.daemons k { s.daemons k with stage := stage } a).stage =
          .serving → (s.daemons a).stage = .serving := by
        intro a ha
        by_cases hak : a = k
        · rw [hak, Function.update_self] at ha
          exact absurd ha hserving
        · rwa [Function.update_of_ne hak] at ha
      exact h.serving a b (hold a ha) (hold b hb)
  children a c hc := by
    dsimp only at hc ⊢
    obtain ⟨hlt, hparent⟩ := h.children a c hc
    refine ⟨hlt, ?_⟩
    by_cases hck : c = k
    · rw [← hck, Function.update_self]
      exact hparent
    · rw [Function.update_of_ne hck]
      exact hparent
  tracked a c hparent halive := by
    dsimp only at hparent halive ⊢
    by_cases hck : c = k
    · rw [hck, Function.update_self] at hparent halive
      rw [hck]
      exact h.tracked a k hparent (hmoves.alive halive)
    · rw [Function.update_of_ne hck] at hparent halive
      exact h.tracked a c hparent halive
  fresh c hc := by
    dsimp only at hc ⊢
    have hck : c ≠ k := by
      rintro rfl
      rw [h.fresh c hc] at hmoves
      cases hmoves
    rw [Function.update_of_ne hck]
    exact h.fresh c hc
  present c hc := by
    dsimp only at hc ⊢
    by_cases hck : c = k
    · rw [hck, Function.update_self]
      generalize (s.daemons k).stage = old at hmoves
      cases hmoves <;> exact DaemonStage.noConfusion
    · rw [Function.update_of_ne hck]
      exact h.present c hc

theorem Device.Sound.step (h : s.Sound) (hstep : Step date s s') : s'.Sound := by
  cases hstep with
  | time clock htime =>
      exact ⟨fun i j hi hj => h.one i j (hi.earlier htime) (hj.earlier htime), h.serving,
        h.children, h.tracked, h.fresh, h.present⟩
  | owner disabled booted => exact ⟨h.one, h.serving, h.children, h.tracked, h.fresh, h.present⟩
  | move i w hmoves => exact h.move i hmoves
  | launch i start hstage => exact h.launch i start hstage
  | manual => exact h.manual
  | daemon k stage hmoves => exact h.daemon k hmoves

theorem Reachable.sound (h : Reachable date s) : s.Sound :=
  h.invariant (fun _ => Device.Initial.sound) fun _ _ _ hsound hstep => hsound.step hstep

/-! ## The end of a disabled module -/

/-- How far a script of a disabled module is from its end. -/
def Stage.rank : Stage → ℕ
  | .opening => 9
  | .dated _ => 8
  | .spawned _ _ => 7
  | .napping _ _ _ => 6
  | .watching _ _ => 5
  | .booting _ | .resting _ => 4
  | .stopping _ => 3
  | .idle => 2
  | .exited _ | .killed _ _ => 0

/-- A script that runs is never stuck: once its sleep is over it goes on, or it starts its
daemon, or it waits for the end of the daemon that it has told to stop. -/
theorem Device.Sound.progress (h : s.Sound) (i : ℕ) (htrapped : (s.scripts i).stage.Trapped)
    (hwake : (s.scripts i).stage.wake s.clock ≤ s.clock) (hdisabled : s.disabled = true) :
    (∃ w, Moves date s (s.scripts i) w ∧ w.stage.rank < (s.scripts i).stage.rank) ∨
      (∃ start, (s.scripts i).stage = .dated start) ∨
      ∃ c, (s.scripts i).stage = .stopping c ∧ (s.daemons c).stage.Alive := by
  have hchild := h.children i
  generalize hw : s.scripts i = w at htrapped hwake hchild
  have hfate : ∀ c, w.stage.child = some c →
      (s.daemons c).stage.Alive ∨ ∃ code, (s.daemons c).stage = .ended code := by
    intro c hc
    have hpresent := h.present c (hchild c hc).1
    cases hstage : (s.daemons c).stage with
    | absent => exact absurd hstage hpresent
    | opening => exact .inl (.inl rfl)
    | serving => exact .inl (.inr rfl)
    | ended code => exact .inr ⟨code, rfl⟩
  cases hstage : w.stage with
  | opening | exited | killed =>
      rw [hstage] at htrapped
      exact htrapped.elim
  | dated start => exact .inr (.inl ⟨start, rfl⟩)
  | booting wake =>
      rw [hstage] at hwake
      left
      cases hbooted : s.booted with
      | false =>
          exact ⟨_, .unwanted wake hstage hwake hbooted hdisabled, by simp [Stage.rank]⟩
      | true => exact ⟨_, .booted wake hstage hwake hbooted, by simp [Stage.rank]⟩
  | idle => exact .inl ⟨_, .leave hstage hdisabled, by simp [Stage.rank]⟩
  | spawned start child => exact .inl ⟨_, .name start child hstage, by simp [Stage.rank]⟩
  | napping start child wake =>
      rw [hstage] at hwake
      exact .inl ⟨_, .poll start child wake hstage hwake, by simp [Stage.rank]⟩
  | resting wake =>
      rw [hstage] at hwake
      exact .inl ⟨_, .retry wake hstage hwake, by simp [Stage.rank]⟩
  | watching start child =>
      left
      rcases hfate child (by rw [hstage]; rfl) with halive | ⟨code, hended⟩
      · exact ⟨_, .halt start child hstage hdisabled, by simp [Stage.rank]⟩
      · by_cases hcode : code = 0 ∨ code = 73
        · exact ⟨_, .done start child code hstage hended hcode, by simp [Stage.rank]⟩
        · exact ⟨_, .rest start child code hstage hended hcode, by simp [Stage.rank]⟩
  | stopping child =>
      rcases hfate child (by rw [hstage]; rfl) with halive | ⟨code, hended⟩
      · exact .inr (.inr ⟨child, rfl, halive⟩)
      · exact .inl ⟨_, .stopped child code hstage hended, by simp [Stage.rank]⟩

/-! ## The time between two starts -/

/-- A start from `wake` on keeps the spacing. -/
def Script.Ready (quiet : ℕ) (w : Script) (wake delay : ℕ) : Prop :=
  ∀ now, wake ≤ now →
    (∀ latest ∈ w.starts.head?, latest + secs 1 ≤ now) ∧ Spaced 60 quiet (now :: w.starts) delay

/-- What a script knows of its starts at each stage. -/
def Script.Phase (date : ℕ → ℤ) (quiet clock : ℕ) (w : Script) : Prop :=
  match w.stage with
  | .opening | .booting _ => w.starts = [] ∧ w.delay = 1
  | .idle => w.Ready quiet clock w.delay
  | .dated start | .spawned start _ | .watching start _ | .napping start _ _ =>
      Spaced 60 quiet w.starts w.delay ∧
        ∃ latest, w.starts.head? = some latest ∧ latest ≤ clock ∧ start = date latest
  | .resting wake => w.Ready quiet wake (min (2 * w.delay) 60)
  | .stopping _ | .exited _ | .killed _ _ => True

structure Script.Paced (date : ℕ → ℤ) (quiet clock : ℕ) (w : Script) : Prop where
  positive : 0 < w.delay
  apart : ∀ (k t t' : ℕ), w.starts[k]? = some t' → w.starts[k + 1]? = some t → t + secs 1 ≤ t'
  spread : ∀ (k n t t' : ℕ), w.starts[k]? = some t' → w.starts[k + n]? = some t →
    t + min quiet (secs (2 ^ n - 1)) ≤ t'
  phase : w.Phase date quiet clock

/-- The script's clock does not run fast: a minute of it lasts `quiet` at least. -/
def Minutes (date : ℕ → ℤ) (quiet : ℕ) : Prop :=
  quiet ≤ secs 60 ∧ ∀ a b : ℕ, a ≤ b → 60 ≤ date b - date a → a + quiet ≤ b

variable {quiet clock clock' : ℕ}

theorem spaced_single (cap now : ℕ) {delay : ℕ} (hdelay : 0 < delay) :
    Spaced cap quiet [now] delay := by
  intro latest hlatest k t ht
  obtain rfl := Option.some.inj hlatest
  cases k with
  | zero =>
      obtain rfl := Option.some.inj ht
      right
      constructor
      · simp [secs]
      · omega
  | succ k => cases ht

theorem Spaced.spread {cap delay t latest n : ℕ} {launches : List ℕ}
    (h : Spaced cap quiet launches delay) (hlatest : launches.head? = some latest)
    (ht : launches[n]? = some t) : t + min quiet (secs (2 ^ n - 1)) ≤ latest := by
  rcases h latest hlatest n t ht with hfar | ⟨hnear, -⟩
  · exact (Nat.add_le_add_left (Nat.min_le_left _ _) _).trans hfar
  · exact (Nat.add_le_add_left (Nat.min_le_right _ _) _).trans hnear

theorem Script.Ready.later {wake wake' delay : ℕ} (h : w.Ready quiet wake delay)
    (hwake : wake ≤ wake') : w.Ready quiet wake' delay := by
  intro now hnow
  exact h now (hwake.trans hnow)

theorem Script.Paced.later (h : w.Paced date quiet clock) (htime : clock ≤ clock') :
    w.Paced date quiet clock' where
  positive := h.positive
  apart := h.apart
  spread := h.spread
  phase := by
    have hphase := h.phase
    unfold Script.Phase at hphase ⊢
    cases hstage : w.stage with
    | opening | booting | resting | stopping | exited | killed =>
        rw [hstage] at hphase
        exact hphase
    | idle =>
        rw [hstage] at hphase
        exact hphase.later htime
    | dated | spawned | watching | napping =>
        rw [hstage] at hphase
        obtain ⟨hspaced, latest, hlatest, hle, hstart⟩ := hphase
        exact ⟨hspaced, latest, hlatest, hle.trans htime, hstart⟩

/-- Another stage with the same starts. -/
theorem Script.Paced.turn (h : w.Paced date quiet clock) {stage : Stage} {delay : ℕ}
    (hdelay : 0 < delay)
    (hphase : Script.Phase date quiet clock { w with stage := stage, delay := delay }) :
    Script.Paced date quiet clock { w with stage := stage, delay := delay } :=
  ⟨hdelay, h.apart, h.spread, hphase⟩

/-- The script rests for the delay, or for a second after a run of a minute. -/
theorem Script.Paced.rest (h : w.Paced date quiet clock) (hminutes : Minutes date quiet)
    {start : ℤ} {child : ℕ} (hstage : w.stage = .watching start child) :
    Script.Paced date quiet clock { w with
      stage := .resting (clock + secs (w.backoff start (date clock)))
      delay := w.backoff start (date clock) } := by
  have hphase := h.phase
  unfold Script.Phase at hphase
  rw [hstage] at hphase
  obtain ⟨hspaced, latest, hlatest, hle, rfl⟩ := hphase
  have hpositive : 0 < w.backoff (date latest) (date clock) := by
    unfold Script.backoff
    split
    · exact Nat.one_pos
    · exact h.positive
  apply h.turn hpositive
  intro now hnow
  have hsecond : secs 1 ≤ secs (w.backoff (date latest) (date clock)) := secs_mono hpositive
  constructor
  · intro before hbefore
    obtain rfl := Option.some.inj (hlatest.symm.trans hbefore)
    omega
  · apply hspaced.launch (by decide) hminutes.1 _ rfl hpositive
    intro before hbefore
    obtain rfl := Option.some.inj (hlatest.symm.trans hbefore)
    constructor
    · omega
    · unfold Script.backoff
      split
      · rename_i hlong
        have hquiet := hminutes.2 latest clock hle hlong
        left
        omega
      · exact .inr rfl

/-- The script reads `START`. -/
theorem Script.Paced.start (h : w.Paced date quiet clock) (hstage : w.stage = .idle) :
    Script.Paced date quiet clock
      { w with stage := .dated (date clock), starts := clock :: w.starts } := by
  have hphase := h.phase
  unfold Script.Phase at hphase
  rw [hstage] at hphase
  obtain ⟨hapart, hspaced⟩ := hphase clock le_rfl
  constructor
  · exact h.positive
  · intro k t t' ht' ht
    cases k with
    | zero =>
        obtain rfl := Option.some.inj ht'
        apply hapart t
        rw [List.getElem?_cons_succ] at ht
        rwa [List.head?_eq_getElem?]
    | succ k => exact h.apart k t t' ht' ht
  · intro k n t t' ht' ht
    cases k with
    | zero =>
        rw [Nat.zero_add] at ht
        exact hspaced.spread ht' ht
    | succ k =>
        rw [Nat.succ_add_eq_add_succ, Nat.add_succ, List.getElem?_cons_succ] at ht
        exact h.spread k n t t' ht' ht
  · exact ⟨hspaced, clock, rfl, le_rfl, rfl⟩

theorem Moves.paced (h : Moves date s w w') (hminutes : Minutes date quiet)
    (hpaced : w.Paced date quiet s.clock) : w'.Paced date quiet s.clock := by
  have hphase := hpaced.phase
  unfold Script.Phase at hphase
  cases h with
  | refused | unwanted | leave | halt | done | stopped | kill =>
      exact hpaced.turn hpaced.positive trivial
  | lock hstage | unbooted _ hstage | name _ _ hstage | nap _ _ hstage | poll _ _ _ hstage =>
      rw [hstage] at hphase
      exact hpaced.turn hpaced.positive hphase
  | booted wake hstage =>
      rw [hstage] at hphase
      obtain ⟨hstarts, hdelay⟩ := hphase
      apply hpaced.turn hpaced.positive
      intro now hnow
      constructor
      · intro latest hlatest
        rw [hstarts] at hlatest
        cases hlatest
      · rw [hstarts]
        exact spaced_single 60 now hpaced.positive
  | start hstage => exact hpaced.start hstage
  | rest start child code hstage => exact hpaced.rest hminutes hstage
  | retry wake hstage hwake =>
      rw [hstage] at hphase
      have hpositive := hpaced.positive
      have hready : w.Ready quiet s.clock (min (2 * w.delay) 60) := hphase.later hwake
      exact hpaced.turn (by omega) hready
  | interrupt htrapped =>
      apply hpaced.turn hpaced.positive
      unfold Script.Phase
      cases hstage : w.stage <;> trivial

theorem Step.paced (h : Step date s s') (hminutes : Minutes date quiet)
    (hpaced : ∀ i, (s.scripts i).Paced date quiet s.clock) (i : ℕ) :
    (s'.scripts i).Paced date quiet s'.clock := by
  cases h with
  | time clock htime => exact (hpaced i).later htime
  | owner | manual | daemon => exact hpaced i
  | move j w hmoves =>
      by_cases hij : i = j
      · subst hij
        dsimp only
        rw [Function.update_self]
        exact hmoves.paced hminutes (hpaced i)
      · dsimp only
        rw [Function.update_of_ne hij]
        exact hpaced i
  | launch j start hstage =>
      by_cases hij : i = j
      · subst hij
        dsimp only
        rw [Function.update_self]
        have hphase := (hpaced i).phase
        unfold Script.Phase at hphase
        rw [hstage] at hphase
        exact (hpaced i).turn (hpaced i).positive hphase
      · dsimp only
        rw [Function.update_of_ne hij]
        exact hpaced i

theorem Reachable.paced (h : Reachable date s) (hminutes : Minutes date quiet) :
    ∀ i, (s.scripts i).Paced date quiet s.clock := by
  apply Transition.Reachable.invariant _ _ h
  · intro s hinit i
    rw [hinit.1 i]
    constructor
    · exact Nat.one_pos
    · intro k t t' ht'
      cases ht'
    · intro k n t t' ht'
      cases ht'
    · exact ⟨rfl, rfl⟩
  · intro s s' _ hpaced hstep i
    exact hstep.paced hminutes hpaced i

/-! ## A run with two restarts -/

/-- `date +%s`, with the clock in nanoseconds. -/
def seconds (clock : ℕ) : ℤ := (clock / secs 1 : ℕ)

theorem seconds_minutes : Minutes seconds (secs 59) := by
  constructor
  · exact secs_mono (by decide)
  · intro a b hle hlong
    simp only [seconds, secs] at hlong ⊢
    omega

/-- Two daemons fail at once; the third serves until the module is disabled. -/
theorem restarted : ∃ s : Device, Reachable seconds s ∧ s.disabled = true ∧
    (s.scripts 0).stage = .watching 3 2 ∧ (s.scripts 0).starts = [secs 3, secs 1, 0] ∧
    (s.daemons 2).stage = .serving := by
  have hfree : ∀ {stage : Stage}, stage = .opening → ¬ stage.Holds 0 := by
    intro stage hstage hholds
    rw [hstage] at hholds
    exact hholds
  have hfresh : Reachable seconds ⟨0, false, true, fun _ => ⟨.opening, 1, []⟩,
      fun _ => ⟨none, .absent⟩, 0⟩ :=
    Transition.Reachable.start ⟨fun _ => rfl, fun _ => rfl, rfl⟩
  have hlocked := hfresh.next (.move _ 0 _ (.lock rfl fun _ => hfree rfl))
  have hbooted := hlocked.next (.move _ 0 _ (.booted 0 rfl le_rfl rfl))
  have hdated := hbooted.next (.move _ 0 _ (.start rfl rfl))
  have hlaunched := hdated.next (.launch _ 0 0 rfl)
  have hnamed := hlaunched.next (.move _ 0 _ (.name 0 0 rfl))
  have hfailed := hnamed.next (.daemon _ 0 _ (.fail 1))
  have hrested := hfailed.next (.move _ 0 _ (.rest 0 0 1 rfl rfl (by decide)))
  have hlater := hrested.next (.time _ (secs 1) (Nat.zero_le _))
  have hretried := hlater.next (.move _ 0 _ (.retry (secs 1) rfl le_rfl))
  have hdated := hretried.next (.move _ 0 _ (.start rfl rfl))
  have hlaunched := hdated.next (.launch _ 0 1 rfl)
  have hnamed := hlaunched.next (.move _ 0 _ (.name 1 1 rfl))
  have hfailed := hnamed.next (.daemon _ 1 _ (.fail 1))
  have hrested := hfailed.next (.move _ 0 _ (.rest 1 1 1 rfl rfl (by decide)))
  have hlater := hrested.next (.time _ (secs 3) (secs_mono (by decide)))
  have hretried := hlater.next (.move _ 0 _ (.retry (secs 3) rfl le_rfl))
  have hdated := hretried.next (.move _ 0 _ (.start rfl rfl))
  have hlaunched := hdated.next (.launch _ 0 3 rfl)
  have hnamed := hlaunched.next (.move _ 0 _ (.name 3 2 rfl))
  have hserving := hnamed.next (.daemon _ 2 .serving (.lock (by
    intro l
    by_cases htwo : l = 2
    · subst htwo
      decide
    · by_cases hone : l = 1
      · subst hone
        decide
      · by_cases hzero : l = 0
        · subst hzero
          decide
        · simp [Function.update, htwo, hone, hzero])))
  exact ⟨_, hserving.next (.owner _ true true), rfl, rfl, rfl, rfl⟩

/-! ## Every run -/

/-- Two starts of the daemon by one script are a second apart, and the last of `n` more
follows `2 ^ n - 1` seconds later, or as long as a minute lasts on the script's clock
if that is less: less than such a minute sees at most six starts. -/
theorem restarts_spaced (h : Reachable date s) (hminutes : Minutes date quiet) (i : ℕ) :
    (∀ (k t t' : ℕ), (s.scripts i).starts[k]? = some t' →
      (s.scripts i).starts[k + 1]? = some t → t + secs 1 ≤ t') ∧
    (∀ (k n t t' : ℕ), (s.scripts i).starts[k]? = some t' →
      (s.scripts i).starts[k + n]? = some t → t + min quiet (secs (2 ^ n - 1)) ≤ t') := by
  have hpaced := Reachable.paced h hminutes i
  exact ⟨hpaced.apart, hpaced.spread⟩

theorem restarts_spaced_restarted :
    ∃ s : Device, (s.scripts 0).starts = [secs 3, secs 1, 0] ∧ secs 1 + secs 1 ≤ secs 3 ∧
      0 + min (secs 59) (secs (2 ^ 2 - 1)) ≤ secs 3 := by
  obtain ⟨s, h, -, -, hstarts, -⟩ := restarted
  obtain ⟨happart, hspread⟩ := restarts_spaced h seconds_minutes 0
  refine ⟨s, hstarts, happart 0 (secs 1) (secs 3) ?_ ?_, hspread 0 2 0 (secs 3) ?_ ?_⟩
  all_goals
    rw [hstarts]
    rfl

end Altdb.Watchdog
