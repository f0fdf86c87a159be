import Altdb.NativeMonitor
import Altdb.ServiceName

/-!
# The settings of native debugging

The monitor reads the global settings as text, one setting on a line.  A scan
of the lines ends at the first one that decides it.
-/

namespace Altdb

/-! ## Lines -/

/-- The line before a line feed, without the carriage return of its end. -/
def endLine (line : List Char) : List Char :=
  if line.getLast? = some '\r' then line.dropLast else line

/-- The lines of a text, of which the first starts with `line`. -/
def linesFrom (line : List Char) : List Char → List (List Char)
  | [] => if line = [] then [] else [line]
  | c :: rest =>
      if c = '\n' then endLine line :: linesFrom [] rest
      else linesFrom (line ++ [c]) rest

/-- `str::lines`. -/
def textLines (text : String) : List String :=
  (linesFrom [] text.toList).map String.ofList

theorem mem_endLine {line : List Char} {c : Char} (h : c ∈ endLine line) : c ∈ line := by
  unfold endLine at h
  split at h
  · exact List.dropLast_subset line h
  · exact h

/-- The lines are made of characters of the text. -/
theorem mem_linesFrom {line text found : List Char} {c : Char}
    (hfound : found ∈ linesFrom line text) (hc : c ∈ found) : c ∈ line ∨ c ∈ text := by
  induction text generalizing line with
  | nil =>
      unfold linesFrom at hfound
      split at hfound
      · cases hfound
      · rw [List.mem_singleton.mp hfound] at hc
        exact .inl hc
  | cons d rest ih =>
      unfold linesFrom at hfound
      split at hfound
      · cases hfound with
        | head => exact .inl (mem_endLine hc)
        | tail _ hfound =>
            rcases ih hfound with hnil | hrest
            · cases hnil
            · exact .inr (List.mem_cons_of_mem d hrest)
      · rcases ih hfound with hline | hrest
        · rcases List.mem_append.mp hline with hline | hd
          · exact .inl hline
          · rw [List.mem_singleton.mp hd]
            exact .inr List.mem_cons_self
        · exact .inr (List.mem_cons_of_mem d hrest)

/-! ## The scan -/

/-- The names of the two settings. -/
def isNativeFlag (name : String) : Bool := name = "adb_enabled" ∨ name = "adb_wifi_enabled"

/-- The loop of `native_settings_status`. -/
def scanSettings : List String → Finding
  | [] => .ok none
  | line :: rest =>
      match splitOnce '=' line with
      | none => scanSettings rest
      | some (name, value) =>
          if isNativeFlag name then
            if value = "1" then
              .ok (some "Native debugging is enabled in developer options")
            else if value = "0" then scanSettings rest
            else .error "Unrecognized native debugging setting"
          else scanSettings rest

def nativeSettingsStatus (text : String) : Finding :=
  if '=' ∈ text.toList then scanSettings (textLines text)
  else .error "System debugging settings are unavailable"

/-- A line that enables native debugging. -/
def Enables (line : String) : Prop := line = "adb_enabled=1" ∨ line = "adb_wifi_enabled=1"

/-- A line with one of the two settings and a value that is neither on nor off. -/
def Unrecognized (line : String) : Prop :=
  ∃ name value, splitOnce '=' line = some (name, value) ∧ isNativeFlag name = true ∧
    value ≠ "1" ∧ value ≠ "0"

/-- An unrecognized line comes before all that enable native debugging. -/
def Hidden (lines : List String) : Prop :=
  ∃ before line after, lines = before ++ line :: after ∧ Unrecognized line ∧
    ∀ l ∈ before, ¬Enables l

variable {line : String} {rest : List String}

theorem splitOnce_enables (h : Enables line) :
    ∃ name, splitOnce '=' line = some (name, "1") ∧ isNativeFlag name = true := by
  rcases h with rfl | rfl
  · exact ⟨"adb_enabled", by decide +kernel, by decide⟩
  · exact ⟨"adb_wifi_enabled", by decide +kernel, by decide⟩

theorem splitOnce_eq {separator : Char} {s before after : String}
    (h : splitOnce separator s = some (before, after)) :
    s.toList = before.toList ++ separator :: after.toList := by
  unfold splitOnce at h
  split at h
  · cases h
  · next d tail hdrop =>
    obtain ⟨rfl, rfl⟩ := Prod.mk.inj (Option.some.inj h)
    have hhead := List.head?_dropWhile_not (fun c => decide (c ≠ separator)) s.toList
    rw [hdrop] at hhead
    have hd : d = separator := by
      simpa using hhead
    rw [hd] at hdrop
    rw [String.toList_ofList, String.toList_ofList, ← hdrop, List.takeWhile_append_dropWhile]

/-- Only the two lines enable native debugging. -/
theorem enables_of_splitOnce {name : String} (h : splitOnce '=' line = some (name, "1"))
    (hflag : isNativeFlag name = true) : Enables line := by
  have hline := splitOnce_eq h
  unfold isNativeFlag at hflag
  rcases of_decide_eq_true hflag with rfl | rfl
  · exact .inl (String.toList_inj.mp hline)
  · exact .inr (String.toList_inj.mp hline)

/-- A line either ends the scan or is passed over. -/
theorem scan_cons (line : String) (rest : List String) :
    (Enables line ∧ ∃ reason, scanSettings (line :: rest) = .ok (some reason)) ∨
      (Unrecognized line ∧ ∃ error, scanSettings (line :: rest) = .error error) ∨
      (¬Enables line ∧ ¬Unrecognized line ∧ scanSettings (line :: rest) = scanSettings rest) := by
  by_cases henables : Enables line
  · obtain ⟨name, hsplit, hflag⟩ := splitOnce_enables henables
    refine .inl ⟨henables, "Native debugging is enabled in developer options", ?_⟩
    rw [scanSettings, hsplit]
    simp only [hflag, if_true]
  by_cases hunrecognized : Unrecognized line
  · obtain ⟨name, value, hsplit, hflag, hon, hoff⟩ := hunrecognized
    refine .inr (.inl ⟨⟨name, value, hsplit, hflag, hon, hoff⟩,
      "Unrecognized native debugging setting", ?_⟩)
    rw [scanSettings, hsplit]
    simp only [hflag, if_true, if_neg hon, if_neg hoff]
  refine .inr (.inr ⟨henables, hunrecognized, ?_⟩)
  rw [scanSettings]
  split
  · rfl
  · next name value hsplit =>
    split
    · next hflag =>
      split
      · next hon =>
        subst hon
        exact absurd (enables_of_splitOnce hsplit hflag) henables
      · next hon =>
        split
        · rfl
        · next hoff => exact absurd ⟨name, value, hsplit, hflag, hon, hoff⟩ hunrecognized
    · rfl

theorem not_enables_of_unrecognized (h : Unrecognized line) : ¬Enables line := by
  intro henables
  obtain ⟨name, hsplit, -⟩ := splitOnce_enables henables
  obtain ⟨name', value, hsplit', -, hon, -⟩ := h
  obtain ⟨-, rfl⟩ := Prod.mk.inj (Option.some.inj (hsplit.symm.trans hsplit'))
  exact hon rfl

theorem hidden_cons (hline : ¬Enables line) (h : Hidden rest) : Hidden (line :: rest) := by
  obtain ⟨before, bad, after, rfl, hbad, hbefore⟩ := h
  refine ⟨line :: before, bad, after, rfl, hbad, fun l hl => ?_⟩
  cases hl with
  | head => exact hline
  | tail _ hl => exact hbefore l hl

theorem hidden_tail (hline : ¬Unrecognized line) (h : Hidden (line :: rest)) :
    Hidden rest ∧ ¬Enables line := by
  obtain ⟨before, bad, after, heq, hbad, hbefore⟩ := h
  cases before with
  | nil =>
      obtain ⟨rfl, -⟩ := List.cons.inj heq
      exact absurd hbad hline
  | cons first before =>
      obtain ⟨rfl, rfl⟩ := List.cons.inj heq
      exact ⟨⟨before, bad, after, rfl, hbad, fun l hl => hbefore l (List.mem_cons_of_mem _ hl)⟩,
        hbefore line List.mem_cons_self⟩

/-- An enabling line is found unless an unrecognized one hides it. -/
theorem scan_enabled {lines : List String} (h : ∃ line ∈ lines, Enables line) :
    (¬Hidden lines ∧ ∃ reason, scanSettings lines = .ok (some reason)) ∨
      (Hidden lines ∧ ∃ error, scanSettings lines = .error error) := by
  induction lines with
  | nil =>
      obtain ⟨line, hline, -⟩ := h
      cases hline
  | cons first lines ih =>
      rcases scan_cons first lines with ⟨henables, hscan⟩ | ⟨hbad, hscan⟩ |
        ⟨henables, hrecognized, hscan⟩
      · refine .inl ⟨fun hhidden => ?_, hscan⟩
        exact (hidden_tail (fun hbad => not_enables_of_unrecognized hbad henables) hhidden).2
          henables
      · exact .inr ⟨⟨[], first, lines, rfl, hbad, fun l hl => by cases hl⟩, hscan⟩
      · have hrest : ∃ line ∈ lines, Enables line := by
          obtain ⟨line, hline, hon⟩ := h
          cases hline with
          | head => exact absurd hon henables
          | tail _ hline => exact ⟨line, hline, hon⟩
        rw [hscan]
        rcases ih hrest with ⟨hnone, hok⟩ | ⟨hhidden, herror⟩
        · exact .inl ⟨fun hhidden => hnone (hidden_tail hrecognized hhidden).1, hok⟩
        · exact .inr ⟨hidden_cons henables hhidden, herror⟩

theorem equals_of_enables {text : String} (hline : line ∈ textLines text) (h : Enables line) :
    '=' ∈ text.toList := by
  obtain ⟨found, hfound, rfl⟩ := List.mem_map.mp hline
  have hequals : '=' ∈ found := by
    rw [← @String.toList_ofList found]
    rcases h with heq | heq
    · rw [heq]
      decide
    · rw [heq]
      decide
  rcases mem_linesFrom hfound hequals with hnil | htext
  · cases hnil
  · exact htext

/-! ## The state after the scan -/

/-- The state is paused and the clear check forgotten. -/
def Pauses (lastClear : Option Instant) (settings : Finding) (now : Instant) : Prop :=
  ∃ reason, nativeState lastClear (.ok none) settings now = (none, .paused reason)

/-- A clear check that the grace period reaches. -/
def Recent (lastClear : Option Instant) (now : Instant) : Prop :=
  ∃ clear, lastClear = some clear ∧ now - clear < settingsGrace

variable {lastClear : Option Instant} {now : Instant}

theorem pauses_found (reason : String) : Pauses lastClear (.ok (some reason)) now :=
  ⟨reason, rfl⟩

/-- Settings that cannot be read pause only without a recent clear check. -/
theorem pauses_error (error : String) :
    Pauses lastClear (.error error) now ↔ ¬Recent lastClear now := by
  have hany : (lastClear.any fun clear => now - clear < settingsGrace) = true ↔
      Recent lastClear now := by
    simp [Recent, Option.any_eq_true]
  by_cases hrecent : Recent lastClear now
  · refine ⟨fun h => ?_, fun h => absurd hrecent h⟩
    obtain ⟨reason, hstate⟩ := h
    have hgrace : nativeState lastClear (.ok none) (.error error) now = (lastClear, .grace) := by
      simp only [nativeState, Except.bind, Option.isSome_none, Bool.false_eq_true, if_false,
        hany.mpr hrecent, and_self, if_true]
    cases hgrace.symm.trans hstate
  · refine ⟨fun _ => hrecent, fun _ =>
      ⟨"Cannot read native debugging settings or processes; service paused: " ++ error, ?_⟩⟩
    have hnone : ¬(lastClear.any fun clear => now - clear < settingsGrace) = true :=
      fun h => hrecent (hany.mp h)
    simp only [nativeState, Except.bind, Option.isSome_none, Bool.false_eq_true, if_false,
      hnone, and_false]

/-- Settings with an enabling line pause, unless an unrecognized line hides it
while a clear check is recent. -/
theorem enabled_pauses (text : String) (lastClear : Option Instant) (now : Instant)
    (h : ∃ line ∈ textLines text, Enables line) :
    Pauses lastClear (nativeSettingsStatus text) now ↔
      ¬(Hidden (textLines text) ∧ Recent lastClear now) := by
  obtain ⟨line, hline, henables⟩ := h
  rw [nativeSettingsStatus, if_pos (equals_of_enables hline henables)]
  rcases scan_enabled ⟨line, hline, henables⟩ with ⟨hnone, reason, hscan⟩ |
    ⟨hhidden, error, hscan⟩
  · rw [hscan]
    exact ⟨fun _ h => hnone h.1, fun _ => pauses_found reason⟩
  · rw [hscan, pauses_error]
    exact ⟨fun hold h => hold h.2, fun h hrecent => h ⟨hhidden, hrecent⟩⟩

/-- A value that another program left behind hides the enabled setting. -/
theorem enabled_pauses_fails :
    "adb_wifi_enabled=1" ∈ textLines "adb_enabled=null\nadb_wifi_enabled=1\n" ∧
      nativeState (some (secs 1)) (.ok none)
        (nativeSettingsStatus "adb_enabled=null\nadb_wifi_enabled=1\n") (secs 2) =
          (some (secs 1), .grace) := by
  decide +kernel

/-- In the other order it is found. -/
theorem enabled_pauses_first :
    Pauses (some (secs 1)) (nativeSettingsStatus "adb_wifi_enabled=1\nadb_enabled=null\n")
        (secs 2) ↔
      ¬(Hidden (textLines "adb_wifi_enabled=1\nadb_enabled=null\n") ∧
        Recent (some (secs 1)) (secs 2)) :=
  enabled_pauses _ _ _ ⟨"adb_wifi_enabled=1", by decide +kernel, .inr rfl⟩

end Altdb
