import Altdb.DaemonPolicy
import Mathlib.Data.List.Induction

/-!
# The monitor of native debugging

A thread scans `/proc` and, when that found nothing, reads the settings, and it
stores the result for the main loop.  While the settings cannot be read a recent
clear check keeps a running service alive for a while.
-/

namespace Altdb

/-- `SETTINGS_GRACE`. -/
def settingsGrace : ℕ := secs 120

inductive NativeState where
  | clear
  | paused (reason : String)
  | grace
  deriving DecidableEq, Repr

/-- The result of a scan or of a read: a reason to pause, if there is one. -/
abbrev Finding := Except String (Option String)

/-- The state after a check, with the time of the last clear check. -/
def nativeState (lastClear : Option Instant) (processes settings : Finding)
    (now : Instant) : Option Instant × NativeState :=
  let settingsFailed : Bool := match processes, settings with
    | .ok none, .error _ => true
    | _, _ => false
  match processes.bind fun reason => if reason.isSome then .ok reason else settings with
  | .ok none => (some now, .clear)
  | .ok (some reason) => (none, .paused reason)
  | .error error =>
      if settingsFailed ∧ lastClear.any fun checked => now - checked < settingsGrace then
        -- The time of the clear check is kept and not refreshed.
        (lastClear, .grace)
      else
        (none, .paused
          ("Cannot read native debugging settings or processes; service paused: " ++ error))

structure NativeSnapshot where
  checkedAt : Instant
  state : NativeState
  deriving DecidableEq, Repr

/-- The monitor with the variable of its thread. -/
structure NativeMonitor where
  lastClear : Option Instant
  snapshot : Option NativeSnapshot
  deriving DecidableEq, Repr

/-- One check: what is found, and the two readings of the clock.  `settings` is
the result of the read if it is made. -/
structure Check where
  processes : Finding
  settings : Finding
  now : Instant
  checkedAt : Instant

namespace NativeMonitor

def start : NativeMonitor := ⟨none, none⟩

/-- The loop body of the thread.  The settings are read only after a scan
without findings. -/
def check (monitor : NativeMonitor) (c : Check) : NativeMonitor :=
  let settings := match c.processes with
    | .ok none => c.settings
    | _ => .ok none
  let (lastClear, state) :=
    nativeState monitor.lastClear c.processes settings c.now
  ⟨lastClear, some ⟨c.checkedAt, state⟩⟩

/-- The reason to pause, and whether the grace period keeps the service. -/
def status (monitor : NativeMonitor) (time : Instant) (running : Bool) :
    Option String × Bool :=
  match monitor.snapshot with
  | none => (some "Checking native debugging settings and processes", false)
  | some snapshot =>
      if secs 6 < time - snapshot.checkedAt then
        (some "Native debugging check is stale; service paused", false)
      else
        match snapshot.state, running with
        | .clear, _ => (none, false)
        | .paused reason, _ => (some reason, false)
        | .grace, true => (none, true)
        | .grace, false =>
            (some "Checking native debugging settings and processes", false)

/-- The monitor after some checks. -/
def checked (checks : List Check) : NativeMonitor := checks.foldl check start

end NativeMonitor

namespace Check

/-- Both were read and nothing was found. -/
def Clear (c : Check) : Prop := c.processes = .ok none ∧ c.settings = .ok none

/-- The scan found nothing and the settings could not be read. -/
def Unreadable (c : Check) : Prop :=
  c.processes = .ok none ∧ ∃ error, c.settings = .error error

end Check

/-! ## One check -/

namespace NativeMonitor

variable {monitor : NativeMonitor} {c : Check} {checks : List Check}

theorem check_clear (h : c.Clear) :
    monitor.check c = ⟨some c.now, some ⟨c.checkedAt, .clear⟩⟩ := by
  simp [check, nativeState, h.1, h.2, Except.bind]

/-- Unreadable settings keep a recent clear check, and forget an old one. -/
theorem check_unreadable (h : c.Unreadable) :
    (∃ clear, monitor.lastClear = some clear ∧ c.now - clear < settingsGrace ∧
        monitor.check c = ⟨some clear, some ⟨c.checkedAt, .grace⟩⟩) ∨
      (∀ clear, monitor.lastClear = some clear → ¬c.now - clear < settingsGrace) ∧
        ∃ reason, monitor.check c = ⟨none, some ⟨c.checkedAt, .paused reason⟩⟩ := by
  obtain ⟨hscan, error, hsettings⟩ := h
  by_cases hgrace : ∃ clear, monitor.lastClear = some clear ∧
      c.now - clear < settingsGrace
  · obtain ⟨clear, hclear, hgrace⟩ := hgrace
    left
    refine ⟨clear, hclear, hgrace, ?_⟩
    simp [check, nativeState, hscan, hsettings, hclear, hgrace, Except.bind]
  · right
    have hexpired : ¬monitor.lastClear.any fun clear =>
        c.now - clear < settingsGrace := by
      simpa [Option.any_eq_true] using hgrace
    refine ⟨fun clear hclear hrecent => hgrace ⟨clear, hclear, hrecent⟩,
      "Cannot read native debugging settings or processes; service paused: " ++ error, ?_⟩
    simp [check, nativeState, hscan, hsettings, hexpired, Except.bind]

/-- A finding or a failing scan pauses and forgets the clear check. -/
theorem check_conflict (hclear : ¬c.Clear) (hreadable : ¬c.Unreadable) :
    ∃ reason, monitor.check c = ⟨none, some ⟨c.checkedAt, .paused reason⟩⟩ := by
  cases hscan : c.processes with
  | error error =>
      refine ⟨"Cannot read native debugging settings or processes; service paused: " ++
        error, ?_⟩
      simp [check, nativeState, hscan, Except.bind]
  | ok found =>
      cases found with
      | some reason => exact ⟨reason, by simp [check, nativeState, hscan, Except.bind]⟩
      | none =>
          cases hsettings : c.settings with
          | error error => exact absurd ⟨hscan, error, hsettings⟩ hreadable
          | ok found =>
              cases found with
              | some reason =>
                  exact ⟨reason, by simp [check, nativeState, hscan, hsettings, Except.bind]⟩
              | none => exact absurd ⟨hscan, hsettings⟩ hclear

/-! ## All checks -/

/-- The monitor remembers its last check, and a clear check after which the
settings were unreadable. -/
structure Grounded (checks : List Check) (monitor : NativeMonitor) : Prop where
  lastClear : ∀ time, monitor.lastClear = some time →
    ∃ before clear between, checks = before ++ clear :: between ∧ clear.Clear ∧
      clear.now = time ∧ ∀ c ∈ between, c.Unreadable
  snapshot : ∀ s, monitor.snapshot = some s →
    ∃ before last, checks = before ++ [last] ∧ s.checkedAt = last.checkedAt ∧
      (s.state = .clear → last.Clear) ∧
      (s.state = .grace → last.Unreadable ∧ ∃ time,
        monitor.lastClear = some time ∧ last.now - time < settingsGrace)

theorem Grounded.check (h : Grounded checks monitor) (c : Check) :
    Grounded (checks ++ [c]) (monitor.check c) := by
  by_cases hclear : c.Clear
  · rw [check_clear hclear]
    constructor
    · rintro time ⟨rfl⟩
      exact ⟨checks, c, [], rfl, hclear, rfl, by simp⟩
    · rintro s ⟨rfl⟩
      exact ⟨checks, c, rfl, rfl, fun _ => hclear, fun hgrace => (by cases hgrace)⟩
  · have hpaused : ∀ reason, monitor.check c = ⟨none, some ⟨c.checkedAt, .paused reason⟩⟩ →
        Grounded (checks ++ [c]) (monitor.check c) := by
      intro reason heq
      rw [heq]
      constructor
      · intro time htime
        cases htime
      · rintro s ⟨rfl⟩
        exact ⟨checks, c, rfl, rfl, fun hstate => (by cases hstate),
          fun hstate => (by cases hstate)⟩
    by_cases hreadable : c.Unreadable
    · rcases check_unreadable hreadable with ⟨time, htime, hrecent, heq⟩ |
        ⟨-, reason, heq⟩
      · rw [heq]
        constructor
        · rintro _ ⟨rfl⟩
          obtain ⟨before, clear, between, rfl, hclear, hnow, hbetween⟩ :=
            h.lastClear time htime
          refine ⟨before, clear, between ++ [c], by simp, hclear, hnow, ?_⟩
          intro c' hc'
          rcases List.mem_append.mp hc' with hc' | hc'
          · exact hbetween c' hc'
          · rw [List.mem_singleton.mp hc']
            exact hreadable
        · rintro s ⟨rfl⟩
          exact ⟨checks, c, rfl, rfl, fun hstate => (by cases hstate),
            fun _ => ⟨hreadable, time, rfl, hrecent⟩⟩
      · exact hpaused reason heq
    · obtain ⟨reason, heq⟩ := @check_conflict monitor c hclear hreadable
      exact hpaused reason heq

theorem grounded_checked (checks : List Check) : Grounded checks (checked checks) := by
  induction checks using List.reverseRecOn with
  | nil => exact ⟨fun _ h => (by cases h), fun _ h => (by cases h)⟩
  | append_singleton checks c ih =>
      have hstep := ih.check c
      unfold checked at hstep ⊢
      rw [List.foldl_append]
      exact hstep

/-- Unreadable settings do not end a pause. -/
theorem paused_of_unreadable {fails : List Check} (hfails : ∀ c ∈ fails, c.Unreadable)
    (hclear : monitor.lastClear = none)
    (hpaused : ∃ at_ reason, monitor.snapshot = some ⟨at_, .paused reason⟩) :
    ∃ at_ reason,
      (fails.foldl NativeMonitor.check monitor).snapshot = some ⟨at_, .paused reason⟩ := by
  induction fails generalizing monitor with
  | nil => exact hpaused
  | cons c rest ih =>
      rw [List.foldl_cons]
      have hrest : ∀ c ∈ rest, c.Unreadable :=
        fun c' hc' => hfails c' (List.mem_cons_of_mem _ hc')
      rcases @check_unreadable monitor c (hfails c List.mem_cons_self) with
        ⟨time, htime, -⟩ | ⟨-, reason, heq⟩
      · rw [hclear] at htime
        cases htime
      · rw [heq]
        exact ih hrest rfl ⟨_, _, rfl⟩

theorem status_paused {before fails : List Check} {bad : Check} (time : Instant)
    (running : Bool) (hclear : ¬bad.Clear) (hreadable : ¬bad.Unreadable)
    (hfails : ∀ c ∈ fails, c.Unreadable) :
    ∃ reason bridged,
      (checked (before ++ bad :: fails)).status time running = (some reason, bridged) := by
  obtain ⟨reason, hbad⟩ := @check_conflict (checked before) bad hclear hreadable
  obtain ⟨at_, reason, hpaused⟩ := @paused_of_unreadable ((checked before).check bad)
    fails hfails (by rw [hbad]) ⟨_, _, by rw [hbad]⟩
  have hsnapshot : (checked (before ++ bad :: fails)).snapshot =
      some ⟨at_, .paused reason⟩ := by
    unfold checked at hpaused ⊢
    rw [List.foldl_append, List.foldl_cons]
    exact hpaused
  unfold status
  rw [hsnapshot]
  dsimp only
  split
  · exact ⟨_, _, rfl⟩
  · exact ⟨_, _, rfl⟩

/-- A status without a reason to pause rests on a clear check, directly or, for
a running service, through the grace period; and after a conflict or a failing
scan unreadable settings do not help. -/
theorem status_grounded (checks : List Check) (time : Instant) (running : Bool) :
    (((checked checks).status time running).1 = none →
      ∃ before clear between last, checks = before ++ clear :: between ∧
        (clear :: between).getLast? = some last ∧
        time - last.checkedAt ≤ secs 6 ∧ clear.Clear ∧
        (∀ c ∈ between, c.Unreadable) ∧ last.now - clear.now < secs 120 ∧
        (between ≠ [] → running = true)) ∧
      ∀ before bad fails, checks = before ++ bad :: fails →
        ¬bad.Clear → ¬bad.Unreadable → (∀ c ∈ fails, c.Unreadable) →
        ((checked checks).status time running).1 ≠ none := by
  constructor
  · intro hstatus
    have hgrounded := grounded_checked checks
    unfold status at hstatus
    split at hstatus
    · cases hstatus
    · next s hsnapshot =>
      obtain ⟨before, last, hlast, hat, hclear, hgrace⟩ := hgrounded.snapshot s hsnapshot
      split at hstatus
      · cases hstatus
      · next hfresh =>
        rw [hat, Nat.not_lt] at hfresh
        split at hstatus
        · next hstate =>
          exact ⟨before, last, [], last, hlast, rfl, hfresh, hclear hstate, by simp,
            by simp [secs], by simp⟩
        · cases hstatus
        · next hstate =>
          obtain ⟨hunreadable, clearTime, htime, hrecent⟩ := hgrace hstate
          obtain ⟨start, clear, between, heq, hcleared, rfl, hbetween⟩ :=
            hgrounded.lastClear clearTime htime
          refine ⟨start, clear, between, last, heq, ?_, hfresh, hcleared, hbetween,
            hrecent, fun _ => rfl⟩
          have hgetLast := congrArg List.getLast? (heq.symm.trans hlast)
          simpa using hgetLast
        · cases hstatus
  · rintro before bad fails rfl hclear hreadable hfails
    obtain ⟨reason, bridged, hpaused⟩ :=
      @status_paused before fails bad time running hclear hreadable hfails
    rw [hpaused]
    simp

/-- The settings become unreadable after a clear check. -/
theorem status_grounded_grace :
    let checks : List Check := [⟨.ok none, .ok none, secs 1, secs 1⟩,
      ⟨.ok none, .error "provider unavailable", secs 90, secs 92⟩]
    (checked checks).status (secs 95) true = (none, true) ∧
      ∃ before clear between last, checks = before ++ clear :: between ∧
        (clear :: between).getLast? = some last ∧ last.now - clear.now < secs 120 := by
  intro checks
  have hstatus : (checked checks).status (secs 95) true = (none, true) := by
    decide +kernel
  obtain ⟨before, clear, between, last, hchecks, hlast, -, -, -, hrecent, -⟩ :=
    (status_grounded checks (secs 95) true).1 (by rw [hstatus])
  exact ⟨hstatus, before, clear, between, last, hchecks, hlast, hrecent⟩

end NativeMonitor

namespace MainLoop

open Daemon NativeMonitor

/-- A main loop that asks the monitor stops everything after a conflict, until
a clear check follows. -/
theorem conflict_stops {codec : KeyCodec} {l : MainLoop} (h : Reachable codec l)
    {env : Env} {before fails : List Check} {bad : Check}
    (hquit : l.daemon.quit = false) (htest : l.daemon.test = false)
    (hdue : millis 250 ≤ env.now - l.propertyCheck)
    (hmonitor : env.nativeStatus =
      (checked (before ++ bad :: fails)).status env.now)
    (hclear : ¬bad.Clear) (hreadable : ¬bad.Unreadable)
    (hfails : ∀ c ∈ fails, c.Unreadable) :
    (l.step codec env .checks).daemon.worker = none ∧
      (l.step codec env .checks).daemon.services = [] := by
  have hpause : ∃ reason bridged, l.daemon.nativePause env = (some reason, bridged) := by
    unfold nativePause
    rw [htest, if_neg (by simp)]
    split
    · exact ⟨_, _, rfl⟩
    · rw [hmonitor]
      exact status_paused env.now _ hclear hreadable hfails
    · exact ⟨_, _, rfl⟩
  obtain ⟨reason, bridged, hpause⟩ := hpause
  have hstop : ∃ state reason, (l.step codec env .checks).daemon =
      l.daemon.stop env state reason := by
    unfold step checks
    rw [if_neg (by simp [hquit])]
    dsimp only
    rw [if_pos (.inr hdue)]
    split
    · exact ⟨_, _, rfl⟩
    · rw [hpause]
      exact ⟨_, _, rfl⟩
  obtain ⟨state, reason, heq⟩ := hstop
  rw [heq]
  have hstopped := h.contained.stop env state reason
  exact ⟨hstopped.worker, hstopped.services⟩

end MainLoop

end Altdb
