import Altdb.Sync

/-!
# Pushed files

A push writes to a temporary name and renames it to the target.  Until then only
the temporary name changes, and nothing is written to the stream; afterwards the
target is the whole file that was sent.  On a failure the temporary name is
removed.
-/

namespace Altdb

namespace Sync

open Fallible

/-! ## Body -/

/-- The input is the frames of `chunks` and a `DONE` frame, with `rest` behind. -/
structure Sent (input : Bytes) (chunks : List Bytes) (mtime : UInt32) (rest : Bytes) :
    Prop where
  fits : ∀ c ∈ chunks, c.length ≤ MAX
  input_eq : input =
    chunks.flatMap (fun c => (Frame.data c).bytes) ++ (Frame.done mtime).bytes ++ rest

/-- What a push makes of its content before it has a time. -/
def unstamped (mode : UInt32) (content : Bytes) : Node :=
  if isLink mode then .link (dropNul content) none
  else .file content (mode &&& 0o777) none

/-- What a push makes of its content: a link to it, or a file with it. -/
def pushed (mode : UInt32) (content : Bytes) (mtime : UInt32) : Node :=
  if isLink mode then .link (dropNul content) (some mtime)
  else .file content (mode &&& 0o777) (some mtime)

theorem setTime_unstamped (mode : UInt32) (content : Bytes) (mtime : UInt32) :
    (unstamped mode content).setTime mtime = pushed mode content mtime := by
  unfold unstamped pushed
  split
  · rfl
  · rfl

/-! ## Before the target is replaced -/

/-- Only the temporary name has changed, and nothing was written. -/
def Untouched (s : State) (temp : Place) (moment : Files × Bytes) : Prop :=
  (∀ p ≠ temp, moment.1 p = s.files p) ∧ moment.2 = s.output

/-- A push from `s` that has not replaced its target. -/
structure Staged (s : State) (temp : Place) (s' : State) : Prop where
  now : Untouched s temp (s'.files, s'.output)
  seen : ∀ m ∈ s'.seen, m ∈ s.seen ∨ Untouched s temp m

variable {env : Env} {s s₁ s' : State} {temp target : Place} {mode : UInt32}

theorem Staged.refl (s : State) (temp : Place) : Staged s temp s :=
  ⟨⟨fun _ _ => rfl, rfl⟩, fun _ h => .inl h⟩

theorem Staged.read (h : Staged s temp s₁) (rest : Bytes) :
    Staged s temp { s₁ with input := rest } := ⟨h.now, h.seen⟩

theorem Staged.set (h : Staged s temp s₁) (node : Option Node) :
    Staged s temp (s₁.change (s₁.files.set temp node)) := by
  have hnow : Untouched s temp (s₁.files.set temp node, s₁.output) := by
    refine ⟨fun p hp => ?_, h.now.2⟩
    rw [← h.now.1 p hp]
    exact Function.update_of_ne hp _ _
  refine ⟨hnow, fun m hm => ?_⟩
  obtain hold | hnew := List.mem_append.mp hm
  · exact h.seen m hold
  · exact .inr (List.mem_singleton.mp hnew ▸ hnow)

theorem change_files (s : State) (place : Place) (node : Option Node) :
    (s.change (s.files.set place node)).files place = node :=
  Function.update_self _ _ _

theorem wp_inject {post : Unit → State → Prop} {failed : Failure → State → Prop}
    (fault : Option Failure) (hpost : fault = none → post () s)
    (hfail : ∀ error, fault = some error → failed error s) :
    wp (inject fault) post failed s := by
  cases fault with
  | none => exact hpost rfl
  | some error => exact hfail error rfl

theorem make_spec (h : Staged s temp s₁) (fault : Option Failure) (node : Node) :
    wp (make fault temp node)
      (fun _ s' => Staged s temp s' ∧ s'.files temp = some node ∧ s'.input = s₁.input)
      (fun _ s' => Staged s temp s') s₁ := by
  unfold make
  rw [wp_bind]
  refine wp_inject fault (fun _ => ?_) fun _ _ => h
  simp only [wp_bind, wp_get, wp_ite, wp_throw, wp_modify]
  exact ⟨fun _ => h, fun _ => ⟨h.set _, change_files _ _ _, rfl⟩⟩

theorem update_spec (h : Staged s temp s₁) (f : Node → Node) :
    wp (update temp f)
      (fun _ s' => Staged s temp s' ∧ s'.files temp = (s₁.files temp).map f ∧
        s'.input = s₁.input)
      (fun _ _ => False) s₁ := by
  unfold update
  rw [wp_modify]
  exact ⟨h.set _, change_files _ _ _, rfl⟩

theorem append_spec (h : Staged s temp s₁) (bytes : Bytes) :
    wp (append env temp bytes)
      (fun _ s' => Staged s temp s' ∧
        s'.files temp = (s₁.files temp).map (Node.append bytes) ∧ s'.input = s₁.input)
      (fun _ s' => Staged s temp s') s₁ := by
  simp only [append, wp_bind, wp_get]
  cases env.written s₁.input.length with
  | none => exact wp_mono (update_spec h _) (fun _ _ h => h) fun _ _ h => h.elim
  | some fault =>
      simp only [wp_bind]
      refine wp_mono (update_spec h _) (fun _ _ h => ?_) fun _ _ h => h.elim
      exact h.1

/-! ## The content -/

/-- Where the content of the frames so far is kept. -/
def Collected (symlink : Bool) (temp : Place) (content linked : Bytes) (s : State) : Prop :=
  if symlink then linked = content else s.files temp = some (.file content 0o600 none)

theorem keep_spec {symlink : Bool} {content linked : Bytes} (h : Staged s temp s₁)
    (hcollected : Collected symlink temp content linked s₁) (buf : Bytes) :
    wp (keep env temp symlink linked buf)
      (fun linked' s' => Staged s temp s' ∧
        Collected symlink temp (content ++ buf) linked' s' ∧ s'.input = s₁.input)
      (fun _ s' => Staged s temp s') s₁ := by
  cases symlink with
  | true =>
      obtain rfl : linked = content := hcollected
      simp only [keep, if_true, wp_bind, wp_ensure, wp_pure]
      exact ⟨fun _ => ⟨h, rfl, trivial⟩, fun _ => h⟩
  | false =>
      have hfile : s₁.files temp = some (.file content 0o600 none) := hcollected
      simp only [keep, Bool.false_eq_true, if_false, wp_bind]
      refine wp_mono (append_spec h buf) ?_ fun _ _ h => h
      rintro _ s' ⟨hstaged, hnode, hinput⟩
      refine ⟨hstaged, ?_, hinput⟩
      change s'.files temp = _
      rw [hnode, hfile]
      rfl

theorem body_spec {symlink : Bool} (h : Staged s temp s₁)
    (hcollected : Collected symlink temp [] [] s₁) :
    wp (body env temp symlink [])
      (fun result s' => ∃ chunks rest, Sent s₁.input chunks result.2 rest ∧
        Staged s temp s' ∧ Collected symlink temp chunks.flatten result.1 s')
      (fun _ s' => Staged s temp s') s₁ := by
  refine @wp_body env temp symlink [] s₁ (fun linked s₂ => ∃ chunks : List Bytes,
    (∀ c ∈ chunks, c.length ≤ MAX) ∧
      s₁.input = chunks.flatMap (fun c => (Frame.data c).bytes) ++ s₂.input ∧
      Staged s temp s₂ ∧ Collected symlink temp chunks.flatten linked s₂) _ _ ?_
    ⟨[], (fun c hc => by cases hc), rfl, h, hcollected⟩
  rintro linked s₂ ⟨chunks, hfits, hinput, hstaged, hkept⟩
  refine wp_mono frame_spec ?_ ?_
  · rintro f s₃ ⟨rest, hfit, hframe, rfl⟩
    constructor
    · rintro mtime rfl
      refine ⟨chunks, rest, ⟨hfits, ?_⟩, hstaged.read rest, hkept⟩
      rw [hinput, hframe, List.append_assoc]
    · rintro buf rfl
      refine wp_mono (keep_spec (hstaged.read rest) hkept buf) ?_ fun _ _ h => h
      rintro linked' s₄ ⟨hstaged', hkept', hrest⟩
      refine ⟨chunks ++ [buf], fun c hc => ?_, ?_, hstaged', ?_⟩
      · obtain hold | hnew := List.mem_append.mp hc
        · exact hfits c hold
        · exact List.mem_singleton.mp hnew ▸ hfit
      · rw [hrest, hinput, hframe, List.flatMap_append, List.flatMap_singleton,
          List.append_assoc]
      · rwa [List.flatten_append, List.flatten_singleton]
  · rintro _ s₃ ⟨rest, rfl⟩
    exact hstaged.read rest

theorem finish_spec {content linked : Bytes} (h : Staged s temp s₁)
    (hcollected : Collected (isLink mode) temp content linked s₁) :
    wp (finish env temp mode (isLink mode) linked)
      (fun _ s' => Staged s temp s' ∧ s'.files temp = some (unstamped mode content))
      (fun _ s' => Staged s temp s') s₁ := by
  unfold unstamped
  cases hlink : isLink mode with
  | true =>
      rw [hlink] at hcollected
      obtain rfl : linked = content := hcollected
      simp only [finish, if_true, wp_bind, wp_ensure]
      refine ⟨fun _ => ?_, fun _ => h⟩
      exact wp_mono (make_spec h _ _) (fun _ _ h => ⟨h.1, h.2.1⟩) fun _ _ h => h
  | false =>
      rw [hlink] at hcollected
      have hfile : s₁.files temp = some (.file content 0o600 none) := hcollected
      simp only [finish, Bool.false_eq_true, if_false, wp_bind]
      refine wp_inject _ (fun _ => ?_) fun _ _ => h
      simp only [wp_bind]
      refine wp_mono (update_spec h _) ?_ fun _ _ h => h.elim
      rintro _ s₂ ⟨hstaged, hnode, -⟩
      refine wp_inject _ (fun _ => ⟨hstaged, ?_⟩) fun _ _ => hstaged
      rw [hnode, hfile]
      rfl

theorem stamp_spec {content : Bytes} (h : Staged s temp s₁)
    (hnode : s₁.files temp = some (unstamped mode content)) (mtime : UInt32) :
    wp (stamp env temp mtime)
      (fun _ s' => Staged s temp s' ∧ s'.files temp = some (pushed mode content mtime))
      (fun _ s' => Staged s temp s') s₁ := by
  simp only [stamp, wp_bind, wp_ensure]
  refine ⟨fun _ => ?_, fun _ => h⟩
  refine wp_mono (update_spec h _) ?_ fun _ _ h => h.elim
  rintro _ s₂ ⟨hstaged, hstamped, -⟩
  refine ⟨hstaged, ?_⟩
  rw [hstamped, hnode, Option.map_some, setTime_unstamped]

/-! ## The replacement -/

/-- The target is the whole file, or the link, that the stream contained. -/
def Replaced (s : State) (target : Place) (mode : UInt32) (files : Files) : Prop :=
  ∃ chunks mtime rest, Sent s.input chunks mtime rest ∧
    files target = some (pushed mode chunks.flatten mtime)

/-- A push from `s` that has replaced its target. -/
structure Finished (s : State) (temp target : Place) (mode : UInt32) (s' : State) : Prop where
  gone : s'.files temp = none
  others : ∀ p ≠ temp, p ≠ target → s'.files p = s.files p
  replaced : Replaced s target mode s'.files
  seen : ∀ m ∈ s'.seen, m ∈ s.seen ∨ Untouched s temp m ∨ Replaced s target mode m.1

theorem rename_spec (h : Staged s temp s₁) {chunks : List Bytes} {mtime : UInt32}
    {rest : Bytes} (hsent : Sent s.input chunks mtime rest)
    (hnode : s₁.files temp = some (pushed mode chunks.flatten mtime)) (hne : temp ≠ target) :
    wp (rename env.rename temp target)
      (fun _ s' => Finished s temp target mode s' ∧ s'.output = s.output)
      (fun _ s' => Staged s temp s') s₁ := by
  unfold rename
  rw [wp_bind]
  refine wp_inject _ (fun _ => ?_) fun _ _ => h
  simp only [wp_bind, wp_get, hnode, wp_ite, wp_modify]
  refine ⟨fun _ => ?_, fun heq => absurd hne heq⟩
  have htarget : ((s₁.files.set target (some (pushed mode chunks.flatten mtime))).set temp
      none) target = some (pushed mode chunks.flatten mtime) := by
    rw [Files.set, Function.update_of_ne hne.symm, Files.set, Function.update_self]
  refine ⟨⟨Function.update_self _ _ _, fun p hp hp' => ?_, ⟨chunks, mtime, rest, hsent,
    htarget⟩, fun m hm => ?_⟩, h.now.2⟩
  · change ((s₁.files.set target _).set temp none) p = _
    rw [Files.set, Function.update_of_ne hp, Files.set, Function.update_of_ne hp']
    exact h.now.1 p hp
  · obtain hold | hnew := List.mem_append.mp hm
    · obtain hold | huntouched := h.seen m hold
      · exact .inl hold
      · exact .inr (.inl huntouched)
    · obtain rfl := List.mem_singleton.mp hnew
      exact .inr (.inr ⟨chunks, mtime, rest, hsent, htarget⟩)

theorem Finished.put (h : Finished s temp target mode s₁) (bytes : Bytes) :
    Finished s temp target mode (s₁.put bytes) where
  gone := h.gone
  others := h.others
  replaced := h.replaced
  seen := by
    intro m hm
    obtain hold | hnew := List.mem_append.mp hm
    · exact h.seen m hold
    · obtain rfl := List.mem_singleton.mp hnew
      exact .inr (.inr h.replaced)

/-- Writing `bytes` behind the output of `s` failed after a part of them. -/
structure Unsent (env : Env) (s : State) (bytes : Bytes) (error : Failure) (s' : State) :
    Prop where
  part : ∃ sent, sent <+: bytes ∧ s'.output = s.output ++ sent
  fault : ∃ length n, s.output.length ≤ length ∧ env.sent length = some (n, error)

theorem reply_spec (h : Finished s temp target mode s₁) {written : Bytes}
    (houtput : s₁.output = s.output ++ written) (words : List UInt32) :
    wp (u32s env words)
      (fun _ s' => Finished s temp target mode s' ∧
        s'.output = s.output ++ (written ++ words.flatMap leBytes))
      (fun error s' => Finished s temp target mode s' ∧
        Unsent env s (written ++ words.flatMap leBytes) error s') s₁ := by
  induction words generalizing s₁ written with
  | nil => exact ⟨h, by rw [List.flatMap_nil, List.append_nil, houtput]⟩
  | cons word words ih =>
      change wp (writeAll env (leBytes word) >>= fun _ => u32s env words) _ _ s₁
      simp only [wp_bind, List.flatMap_cons, ← List.append_assoc]
      have hwrite : wp (writeAll env (leBytes word))
          (fun _ s' => s' = s₁.put (leBytes word))
          (fun error s' => Finished s temp target mode s' ∧
            Unsent env s (written ++ leBytes word ++ words.flatMap leBytes) error s') s₁ := by
        simp only [writeAll, wp_bind, wp_get]
        cases hfault : env.sent s₁.output.length with
        | none => rfl
        | some fault =>
            refine ⟨h.put _, ⟨written ++ (leBytes word).take fault.1, ?_, ?_⟩,
              s₁.output.length, fault.1, ?_, hfault⟩
            · rw [List.append_assoc, List.prefix_append_right_inj]
              exact (List.take_prefix _ _).trans (List.prefix_append _ _)
            · change s₁.output ++ _ = _
              rw [houtput, List.append_assoc]
            · rw [houtput, List.length_append]
              exact Nat.le_add_right _ _
      refine wp_mono hwrite ?_ fun _ _ h => h
      rintro _ s₂ rfl
      have hnext : (s₁.put (leBytes word)).output = s.output ++ (written ++ leBytes word) := by
        change s₁.output ++ leBytes word = _
        rw [houtput, List.append_assoc]
      have hrest := ih (h.put _) hnext
      simpa only [List.append_assoc] using hrest

/-- The closure leaves the target alone, or replaces it and answers. -/
theorem push_spec (hne : temp ≠ target) :
    wp (push env temp target mode)
      (fun _ s' => Finished s temp target mode s' ∧ s'.output = s.output ++ OKAY)
      (fun error s' => Staged s temp s' ∨
        Finished s temp target mode s' ∧ Unsent env s OKAY error s') s := by
  have hstart := Staged.refl s temp
  simp only [push, wp_bind, wp_ensure]
  refine ⟨fun _ => ?_, fun _ => .inl hstart⟩
  have hopen : wp (openTemp env temp (isLink mode))
      (fun _ s' => Staged s temp s' ∧ Collected (isLink mode) temp [] [] s' ∧
        s'.input = s.input)
      (fun _ s' => Staged s temp s') s := by
    cases isLink mode with
    | true => exact ⟨hstart, rfl, rfl⟩
    | false => exact make_spec hstart _ _
  refine wp_mono hopen ?_ fun _ _ h => .inl h
  rintro _ s₁ ⟨h₁, hcollected, hinput⟩
  simp only [wp_bind]
  refine wp_mono (body_spec h₁ hcollected) ?_ fun _ _ h => .inl h
  rintro ⟨linked, mtime⟩ s₂ ⟨chunks, rest, hsent, h₂, hcollected⟩
  rw [hinput] at hsent
  simp only [wp_bind]
  refine wp_mono (finish_spec h₂ hcollected) ?_ fun _ _ h => .inl h
  rintro _ s₃ ⟨h₃, hnode⟩
  simp only [wp_bind]
  refine wp_mono (stamp_spec h₃ hnode mtime) ?_ fun _ _ h => .inl h
  rintro _ s₄ ⟨h₄, hnode⟩
  simp only [wp_bind]
  refine wp_mono (rename_spec h₄ hsent hnode hne) ?_ fun _ _ h => .inl h
  rintro _ s₅ ⟨h₅, houtput⟩
  have hanswer := @reply_spec env s s₅ temp target mode h₅ [] (by
    rw [houtput, List.append_nil]) [Altdb.OKAY, 0]
  exact wp_mono hanswer (fun _ _ h => h) fun _ _ h => .inr h

/-! ## The whole push -/

/-- How `send_file` ends that was started in `s`. -/
structure Outcome (env : Env) (s : State) (temp target : Place) (mode : UInt32)
    (result : EStateM.Result Failure State Unit) : Prop where
  gone : env.remove = none → (final result).files temp = none
  others : ∀ p ≠ temp, p ≠ target → (final result).files p = s.files p
  ok : ∀ s', result = .ok () s' →
    Replaced s target mode s'.files ∧ s'.output = s.output ++ OKAY
  /-- After a failure with the target replaced the answer could not be written. -/
  error : ∀ error s', result = .error error s' →
    s'.files target = s.files target ∧ s'.output = s.output ∨
      Replaced s target mode s'.files ∧ Unsent env s OKAY error s'
  /-- At each moment nothing is written and the target is untouched, or it is
  replaced. -/
  moments : ∀ m ∈ (final result).seen, m ∈ s.seen ∨
    m.1 target = s.files target ∧ m.2 = s.output ∨ Replaced s target mode m.1

theorem Untouched.at_target {m : Files × Bytes} (h : Untouched s temp m)
    (hne : temp ≠ target) : m.1 target = s.files target ∧ m.2 = s.output :=
  ⟨h.1 target hne.symm, h.2⟩

theorem Finished.moments (h : Finished s temp target mode s') (hne : temp ≠ target) :
    ∀ m ∈ s'.seen, m ∈ s.seen ∨ m.1 target = s.files target ∧ m.2 = s.output ∨
      Replaced s target mode m.1 := by
  intro m hm
  obtain hold | huntouched | hreplaced := h.seen m hm
  · exact .inl hold
  · exact .inr (.inl (Untouched.at_target huntouched hne))
  · exact .inr (.inr hreplaced)

theorem Outcome.finished (h : Finished s temp target mode s') (hne : temp ≠ target)
    (houtput : s'.output = s.output ++ OKAY) :
    Outcome env s temp target mode (.ok () s') where
  gone := fun _ => h.gone
  others := h.others
  ok := by
    intro s₁ heq
    obtain ⟨-, rfl⟩ := EStateM.Result.ok.inj heq
    exact ⟨h.replaced, houtput⟩
  error := fun error s₁ heq => by cases heq
  moments := h.moments hne

theorem Outcome.unsent {error : Failure} (h : Finished s temp target mode s')
    (hne : temp ≠ target) (hunsent : Unsent env s OKAY error s') :
    Outcome env s temp target mode (.error error s') where
  gone := fun _ => h.gone
  others := h.others
  ok := fun s₁ heq => by cases heq
  error := by
    intro error' s₁ heq
    obtain ⟨rfl, rfl⟩ := EStateM.Result.error.inj heq
    exact .inr ⟨h.replaced, hunsent⟩
  moments := h.moments hne

theorem Outcome.staged {error : Failure} (h : Staged s temp s') (hne : temp ≠ target)
    (hgone : env.remove = none → s'.files temp = none) :
    Outcome env s temp target mode (.error error s') where
  gone := hgone
  others := fun p hp _ => h.now.1 p hp
  ok := fun s₁ heq => by cases heq
  error := by
    intro error' s₁ heq
    obtain ⟨-, rfl⟩ := EStateM.Result.error.inj heq
    exact .inl (Untouched.at_target h.now hne)
  moments := by
    intro m hm
    obtain hold | huntouched := h.seen m hm
    · exact .inl hold
    · exact .inr (.inl (Untouched.at_target huntouched hne))

theorem removeFile_spec (fault : Option Failure) (place : Place) :
    wp (removeFile fault place)
      (fun _ s' => s.files place ≠ none ∧ s' = s.change (s.files.set place none))
      (fun _ s' => s' = s ∧ (fault = none → s.files place = none)) s := by
  unfold removeFile
  rw [wp_bind]
  refine wp_inject fault (fun _ => ?_) fun error hfault => ⟨rfl, fun h => ?_⟩
  · simp only [wp_bind, wp_get, wp_ite, wp_throw, wp_modify]
    refine ⟨fun h => ⟨trivial, fun _ => Option.isNone_iff_eq_none.mp h⟩, fun h => ⟨?_, trivial⟩⟩
    rwa [Option.isNone_iff_eq_none] at h
  · cases hfault.symm.trans h

/-- The cleanup of a failed push. -/
theorem cleanup_spec {error : Failure} (hne : temp ≠ target)
    (h : Staged s temp s₁ ∨
      Finished s temp target mode s₁ ∧ Unsent env s OKAY error s₁) :
    Outcome env s temp target mode
      (EStateM.bind (attempt (removeFile env.remove temp)) (fun _ => throw error) s₁) := by
  have hremove := @removeFile_spec s₁ env.remove temp
  unfold wp at hremove
  unfold EStateM.bind attempt
  cases hrun : removeFile env.remove temp s₁ with
  | ok value s₂ =>
      rw [hrun] at hremove
      obtain ⟨hsome, rfl⟩ := hremove
      obtain hstaged | ⟨hfinished, -⟩ := h
      · exact .staged (hstaged.set none) hne fun _ => change_files _ _ _
      · exact absurd hfinished.gone hsome
  | error error' s₂ =>
      rw [hrun] at hremove
      obtain ⟨rfl, hnone⟩ := hremove
      obtain hstaged | ⟨hfinished, hunsent⟩ := h
      · exact .staged hstaged hne hnone
      · exact .unsent hfinished hne hunsent

/-- The temporary file of a push gets a name. -/
structure Started (env : Env) (path : Bytes) (temp target : Place) : Prop where
  place_eq : place path = some target
  directory : env.createDirAll = none
  name_eq : ∃ random, env.random = .ok random ∧
    temp = { target with name := tempName random }

theorem sendFile_started {path : Bytes} (h : Started env path temp target)
    (hne : temp ≠ target) : Outcome env s temp target mode (sendFile env path mode s) := by
  obtain ⟨hplace, hdirectory, random, hrandom, rfl⟩ := h
  have hpush := @push_spec env s { target with name := tempName random } target mode hne
  unfold sendFile
  rw [hplace, hdirectory, hrandom]
  change Outcome env s _ target mode (EStateM.bind (attempt (push env _ target mode)) _ s)
  unfold EStateM.bind attempt
  cases hrun : push env { target with name := tempName random } target mode s with
  | ok value s' =>
      have hfinished := wp_of_ok hpush hrun
      exact .finished hfinished.1 hne hfinished.2
  | error error s' =>
      have hfailed := wp_of_error hpush hrun
      exact cleanup_spec hne hfailed

theorem sendFile_refused {path : Bytes} (h : ¬ ∃ temp target, Started env path temp target) :
    ∃ error, sendFile env path mode s = .error error s := by
  unfold sendFile
  cases hplace : place path with
  | none => exact ⟨_, rfl⟩
  | some target =>
      cases hdirectory : env.createDirAll with
      | some error => exact ⟨error, rfl⟩
      | none =>
          cases hrandom : env.random with
          | error error => exact ⟨error, rfl⟩
          | ok random => exact absurd ⟨_, target, hplace, hdirectory, random, hrandom, rfl⟩ h

/-- Where a request finds the path and the mode of its push. -/
structure Setup (kind : UInt32) (raw input path : Bytes) (mode : UInt32) (rest : Bytes) :
    Prop where
  single : kind = SEND → splitMode raw = .ok (path, mode) ∧ input = rest
  double : kind = SND2 →
    path = raw ∧ input = leBytes SND2 ++ leBytes mode ++ leBytes 0 ++ rest

theorem number_cases (s : State) :
    (∃ error rest, number s = .error error { s with input := rest }) ∨
      ∃ n rest, s.input = leBytes n ++ rest ∧ number s = .ok n { s with input := rest } := by
  have hspec := @number_spec s
  unfold wp at hspec
  cases hrun : number s with
  | error error s' =>
      rw [hrun] at hspec
      obtain ⟨rest, rfl⟩ := hspec
      exact .inl ⟨error, rest, rfl⟩
  | ok n s' =>
      rw [hrun] at hspec
      obtain ⟨rest, hinput, rfl⟩ := hspec
      exact .inr ⟨n, rest, hinput, rfl⟩

theorem send_single (env : Env) (raw : Bytes) :
    (∃ error, send env SEND raw s = .error error s) ∨
      ∃ path mode, splitMode raw = .ok (path, mode) ∧
        send env SEND raw s = sendFile env path mode s := by
  simp only [send, if_true]
  cases hsplit : splitMode raw with
  | error error => exact .inl ⟨error, rfl⟩
  | ok target => exact .inr ⟨target.1, target.2, rfl, rfl⟩

theorem send_double (env : Env) (raw : Bytes) :
    (∃ error rest, send env SND2 raw s = .error error { s with input := rest }) ∨
      ∃ mode rest, s.input = leBytes SND2 ++ leBytes mode ++ leBytes 0 ++ rest ∧
        send env SND2 raw s = sendFile env raw mode { s with input := rest } := by
  have hkind : SND2 ≠ SEND := by decide
  simp only [send, if_neg hkind]
  obtain ⟨error, rest, hread⟩ | ⟨again, rest₁, hagain, hread⟩ := number_cases s
  · exact .inl ⟨error, rest, bind_error hread⟩
  rw [bind_ok hread]
  obtain ⟨-, hsetup⟩ | ⟨hsame, hsetup⟩ :=
    ensure_cases (again = SND2) (Failure.other "invalid SEND setup") { s with input := rest₁ }
  · exact .inl ⟨_, rest₁, bind_error hsetup⟩
  rw [bind_ok hsetup]
  obtain ⟨error, rest, hread⟩ | ⟨mode, rest₂, hmode, hread⟩ :=
    number_cases { s with input := rest₁ }
  · exact .inl ⟨error, rest, bind_error hread⟩
  rw [bind_ok hread]
  obtain ⟨error, rest, hread⟩ | ⟨flags, rest₃, hflags, hread⟩ :=
    number_cases { s with input := rest₂ }
  · exact .inl ⟨error, rest, bind_error hread⟩
  rw [bind_ok hread]
  obtain ⟨-, hsupported⟩ | ⟨hzero, hsupported⟩ :=
    ensure_cases (flags = 0) (Failure.other "unsupported send flags") { s with input := rest₃ }
  · exact .inl ⟨_, rest₃, bind_error hsupported⟩
  rw [bind_ok hsupported]
  refine .inr ⟨mode, rest₃, ?_, rfl⟩
  change rest₁ = _ at hmode
  change rest₂ = _ at hflags
  rw [hagain, hmode, hflags, hsame, hzero]
  simp only [List.append_assoc]

theorem handle_send (env : Env) (raw : Bytes) {kind : UInt32}
    (hkind : kind = SEND ∨ kind = SND2) : handle env kind raw s = send env kind raw s := by
  obtain rfl | rfl := hkind
  · rfl
  · rfl

/-- A push replaces its target by the whole file, or leaves it alone. -/
theorem pushes_whole (env : Env) (s : State) :
    (∀ path mode temp target, Started env path temp target → temp ≠ target →
      Outcome env s temp target mode (sendFile env path mode s)) ∧
    (∀ path mode, (¬ ∃ temp target, Started env path temp target) →
      ∃ error, sendFile env path mode s = .error error s) ∧
    ∀ kind raw, kind = SEND ∨ kind = SND2 →
      (∃ error rest, handle env kind raw s = .error error { s with input := rest }) ∨
        ∃ path mode rest, Setup kind raw s.input path mode rest ∧
          handle env kind raw s = sendFile env path mode { s with input := rest } := by
  have hne : SND2 ≠ SEND := by decide
  refine ⟨fun _ _ _ _ => sendFile_started, fun _ _ => sendFile_refused, ?_⟩
  rintro kind raw (rfl | rfl)
  · rw [handle_send env raw (.inl rfl)]
    obtain ⟨error, hrun⟩ | ⟨path, mode, hsplit, hrun⟩ := @send_single s env raw
    · exact .inl ⟨error, s.input, hrun⟩
    · exact .inr ⟨path, mode, s.input, ⟨fun _ => ⟨hsplit, rfl⟩,
        fun heq => absurd heq.symm hne⟩, hrun⟩
  · rw [handle_send env raw (.inr rfl)]
    obtain ⟨error, rest, hrun⟩ | ⟨mode, rest, hinput, hrun⟩ := @send_double s env raw
    · exact .inl ⟨error, rest, hrun⟩
    · exact .inr ⟨raw, mode, rest, ⟨fun heq => absurd heq hne, fun _ => ⟨rfl, hinput⟩⟩, hrun⟩

/-- A body of two frames. -/
def twoFrames : State where
  input := (Frame.data [104]).bytes ++ (Frame.data [105]).bytes ++ (Frame.done 7).bytes
  output := []
  files := fun _ => none
  seen := []

theorem pushes_whole_two :
    Outcome quiet twoFrames ⟨true, [], tempName (List.replicate 8 0)⟩ ⟨true, [], [97]⟩ 0o644
        (sendFile quiet [47, 97] 0o644 twoFrames) ∧
      (final (sendFile quiet [47, 97] 0o644 twoFrames)).files ⟨true, [], [97]⟩ =
        some (.file [104, 105] 0o644 (some 7)) ∧
      (∃ error, sendFile quiet [] 0o644 twoFrames = .error error twoFrames) ∧
      ((∃ error rest, handle quiet SEND [97] twoFrames =
          .error error { twoFrames with input := rest }) ∨
        ∃ path mode rest, Setup SEND [97] twoFrames.input path mode rest ∧
          handle quiet SEND [97] twoFrames =
            sendFile quiet path mode { twoFrames with input := rest }) := by
  have h := pushes_whole quiet twoFrames
  refine ⟨h.1 _ _ _ _ ⟨by decide +kernel, rfl, _, rfl, rfl⟩ (by decide +kernel),
    by decide +kernel, h.2.1 _ _ ?_, h.2.2 SEND [97] (.inl rfl)⟩
  rintro ⟨temp, target, hstarted⟩
  have hplace : place [] = none := by decide +kernel
  cases hplace.symm.trans hstarted.place_eq

end Sync

end Altdb
