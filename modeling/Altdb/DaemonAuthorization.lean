import Altdb.DaemonEffects

/-!
# Authorization of connections and services

The supervisor keeps three tables: the paired hosts of the store, the
connections by transport id and the service processes.  In every reachable
state each connection belongs to a paired host and each running service to a
connection of the host for which it was started.  A revocation therefore
leaves no running service of the host, and a request is granted only while the
host of its connection is paired.
-/

namespace Altdb

open Fallible Relation

namespace Daemon

/-- The tie between hosts, connections and services. -/
structure Authorization (d : Daemon) : Prop where
  paired : ∀ (t : ℕ) (fp : String), d.transports[t]? = some fp → d.store.trusts fp
  bounded : d.transports.size ≤ maxTransports
  attached : ∀ s ∈ d.services, s.stopped = false →
    d.transports[s.transport]? = some s.child.owner

variable {part : Section} {env : Env} {d d' : Daemon}

/-! ## Operations on the tables -/

/-- Only the three tables matter. -/
theorem Authorization.congr (h : d.Authorization)
    (htransports : d'.transports = d.transports)
    (hservices : d'.services = d.services)
    (htrusts : ∀ fp, d.store.trusts fp → d'.store.trusts fp) :
    d'.Authorization where
  paired t fp ht := htrusts fp (h.paired t fp (htransports ▸ ht))
  bounded := htransports ▸ h.bounded
  attached s hs hrun := htransports ▸ h.attached s (hservices ▸ hs) hrun

/-- A supervisor without connections and services. -/
theorem Authorization.of_empty (htransports : d.transports = ∅)
    (hservices : d.services = []) : d.Authorization where
  paired t fp ht := by simp [htransports] at ht
  bounded := by simp [htransports]
  attached s hs := by simp [hservices] at hs

theorem Authorization.stop (h : d.Authorization) (state reason : String) :
    (d.stop env state reason).Authorization := by
  obtain ⟨logs, retryAt, failures, heq⟩ := @stop_eq env d state reason
  rw [heq]
  split
  · exact .of_empty rfl rfl
  · exact h.congr rfl rfl fun _ ht => ht

theorem Authorization.disconnect (h : d.Authorization) (t : ℕ) :
    (d.disconnect env t).Authorization where
  paired u fp hu := by
    simp only [Daemon.disconnect, Std.TreeMap.getElem?_erase] at hu
    split at hu
    · cases hu
    · exact h.paired u fp hu
  bounded := Std.TreeMap.size_erase_le.trans h.bounded
  attached s hs hrun := by
    simp only [Daemon.disconnect, List.mem_map] at hs ⊢
    obtain ⟨old, hold, rfl⟩ := hs
    split at hrun <;> rename_i hne
    · simp at hrun
    · rw [if_neg hne, Std.TreeMap.getElem?_erase]
      have hother : compare t old.transport ≠ .eq := fun heq =>
        hne (compare_eq_iff_eq.mp heq).symm
      rw [if_neg hother]
      exact h.attached old hold hrun

/-- A host table that lost `fp` is safe once no connection of `fp` is left. -/
theorem Authorization.forget {fp : String} {hosts : List Host}
    (h : d.Authorization)
    (hgone : ∀ t : ℕ, d.transports[t]? ≠ some fp)
    (htrusts : ∀ other, d.store.trusts other → other ≠ fp →
      (d.store.withHosts hosts).trusts other) :
    { d with store := d.store.withHosts hosts }.Authorization where
  paired t other ht :=
    htrusts other (h.paired t other ht) fun heq => hgone t (heq ▸ ht)
  bounded := h.bounded
  attached := h.attached

/-! ## Revocation -/

theorem foldl_disconnect_authorization (h : d.Authorization) (ids : List ℕ) :
    (ids.foldl (fun d id => d.disconnect env id) d).Authorization := by
  induction ids generalizing d with
  | nil => exact h
  | cons id rest ih => exact ih (h.disconnect id)

theorem foldl_disconnect_transports (ids : List ℕ) (t : ℕ) :
    (ids.foldl (fun d id => d.disconnect env id) d).transports[t]? =
      if t ∈ ids then none else d.transports[t]? := by
  induction ids generalizing d with
  | nil => rfl
  | cons id rest ih =>
      rw [List.foldl_cons, ih]
      simp only [disconnect, Std.TreeMap.getElem?_erase, List.mem_cons]
      by_cases hmem : t ∈ rest
      · simp [hmem]
      · by_cases heq : t = id
        · simp [heq]
        · have hne : compare id t ≠ .eq := fun h =>
            heq (compare_eq_iff_eq.mp h).symm
          simp only [hmem, heq, hne, or_self, if_false]

theorem mem_transportsOf (fp : String) (t : ℕ) :
    t ∈ d.transportsOf fp ↔ d.transports[t]? = some fp := by
  simp only [transportsOf, List.mem_map, List.mem_filter, decide_eq_true_eq]
  constructor
  · rintro ⟨⟨id, other⟩, ⟨hmem, rfl⟩, rfl⟩
    exact Std.TreeMap.mem_toList_iff_getElem?_eq_some.mp hmem
  · intro h
    exact ⟨(t, fp), ⟨Std.TreeMap.mem_toList_iff_getElem?_eq_some.mpr h, rfl⟩,
      rfl⟩

/-- Dropping the connections of a host and forgetting the host commute. -/
theorem revoked_eq (fp : String) :
    d.revoked env fp =
      { (d.transportsOf fp).foldl (fun d id => d.disconnect env id) d with
        store := d.store.withHosts (d.store.without fp) } := by
  have hcommute (ids : List ℕ) (d : Daemon) (store : Store) :
      ids.foldl (fun d id => d.disconnect env id) { d with store := store } =
        { ids.foldl (fun d id => d.disconnect env id) d with
          store := store } := by
    induction ids generalizing d with
    | nil => rfl
    | cons id rest ih => exact ih (d.disconnect env id)
  exact hcommute _ d _

theorem Authorization.revoked (h : d.Authorization) (fp : String) :
    (d.revoked env fp).Authorization := by
  have hdropped := @foldl_disconnect_authorization env d h (d.transportsOf fp)
  have hstore := @foldl_disconnect_store env d (d.transportsOf fp)
  rw [revoked_eq, ← hstore]
  refine @Authorization.forget _ fp _ hdropped ?_ ?_
  · intro t ht
    rw [foldl_disconnect_transports] at ht
    split at ht
    · cases ht
    · next hmem => exact hmem ((mem_transportsOf fp t).mpr ht)
  · intro other htrust hne
    exact (Store.withHosts_without_trusts _ fp other).mpr ⟨htrust, hne⟩

theorem Authorization.revokeDone (h : d.Authorization) {fp : String}
    (hdone : d.RevokeDone env fp d') : d'.Authorization := by
  cases hdone with
  | idle | untold => exact h.revoked fp
  | told => exact (h.revoked fp).congr rfl rfl fun _ ht => ht

/-! ## The invariant -/

theorem Authorization.spawn (h : d.Authorization) {t : ℕ} {s : Service}
    (hspawned : d.Spawned t s) :
    { d with services := d.services ++ [s] }.Authorization where
  paired := h.paired
  bounded := h.bounded
  attached s' hs' hrun := by
    rcases List.mem_append.mp hs' with hold | hnew
    · exact h.attached s' hold hrun
    · obtain rfl := List.mem_singleton.mp hnew
      obtain ⟨hauth, -, rfl, howner, -⟩ := hspawned
      dsimp only
      obtain ⟨fp, hfp⟩ := Option.isSome_iff_exists.mp
        (Std.TreeMap.isSome_getElem?_iff_mem.mpr hauth)
      rw [howner, Std.TreeMap.getD_eq_getD_getElem?, hfp, Option.getD_some]

theorem Authorization.mark (h : d.Authorization) {f : Service → Service}
    (hf : ∀ s, f s = s ∨ f s = s.stop env ∨
      ∃ time, f s = { s with closeAt := time }) :
    { d with services := d.services.map f }.Authorization where
  paired := h.paired
  bounded := h.bounded
  attached s hs hrun := by
    obtain ⟨old, hold, rfl⟩ := List.mem_map.mp hs
    rcases hf old with heq | heq | ⟨time, heq⟩
    · rw [heq] at hrun ⊢
      exact h.attached old hold hrun
    · simp [heq] at hrun
    · rw [heq] at hrun ⊢
      exact h.attached old hold hrun

theorem Authorization.reap (h : d.Authorization) (keep : Service → Bool) :
    { d with services := d.services.filter keep }.Authorization where
  paired := h.paired
  bounded := h.bounded
  attached s hs := h.attached s (List.mem_filter.mp hs).1

theorem Authorization.connect (h : d.Authorization) {t : ℕ} {fp : String}
    {hosts : List Host} (hsize : d.transports.size < maxTransports)
    (hfresh : t ∉ d.transports) (htrust : d.store.trusts fp)
    (htrusts : ∀ other, d.store.trusts other →
      (d.store.withHosts hosts).trusts other) :
    { d with
      store := d.store.withHosts hosts
      transports := d.transports.insert t fp }.Authorization where
  paired u other hu := by
    rw [Std.TreeMap.getElem?_insert] at hu
    split at hu
    · obtain rfl := Option.some_inj.mp hu
      exact htrusts _ htrust
    · exact htrusts _ (h.paired u other hu)
  bounded := Std.TreeMap.size_insert_le.trans hsize
  attached s hs hrun := by
    have hold := h.attached s hs hrun
    rw [Std.TreeMap.getElem?_insert, if_neg]
    · exact hold
    · intro heq
      rw [Std.LawfulEqCmp.eq_of_compare heq] at hfresh
      simp [← Std.TreeMap.isSome_getElem?_iff_mem, hold] at hfresh

theorem Authorization.step (h : d.Authorization)
    (heffect : Effect part env d d') : d'.Authorization := by
  cases heffect with
  | note | deliver | ready | root | closeWindow | skipEpoch | openWindow
  | countFailure => exact h.congr rfl rfl fun _ ht => ht
  | stop => exact h.stop _ _
  | launch => exact h.congr rfl rfl fun _ ht => ht
  | rotate | regrant | regrantRestart => exact .of_empty rfl rfl
  | rotateFailed => exact (Authorization.of_empty rfl rfl).stop _ _
  | configure => exact h.congr rfl rfl fun _ ht => ht
  | reconfigure config =>
      have hsaved : { d with store := d.store.withConfig config }.Authorization :=
        h.congr rfl rfl fun _ ht => ht
      exact hsaved.stop _ _
  | connect t fp _ _ hsize hfresh htrust =>
      refine h.connect hsize hfresh htrust fun other => ?_
      exact (Store.withHosts_markConnected_trusts _ _ _ _).mpr
  | disconnect => exact h.disconnect _
  | revoke d' fp _ hdone => exact h.revokeDone hdone
  | spawn t s hspawned => exact h.spawn hspawned
  | mark f hf => exact h.mark hf
  | reap keep => exact h.reap keep
  | pair window hosts key _ _ _ _ hhosts =>
      exact h.congr rfl rfl fun _ ht => hhosts.trusts ht

/-! ## Guarded requests -/

/-- The requests that act for the connection `t` with its authorization. -/
def Guarded (t : ℕ) : Request → Prop
  | .spawn u _ | .bindReverse u _ | .root u _ => u = t
  | _ => False

theorem request_refused {codec : KeyCodec} {t : ℕ} {r : Request}
    (hguarded : Guarded t r) (habsent : t ∉ d.transports) :
    request codec env r d = .error "host is no longer authorized" d := by
  cases r with
  | spawn u name | bindReverse u name =>
      obtain rfl := hguarded
      exact eq_error_of_wp (by simp [request, spawnService, habsent])
  | root u enable =>
      obtain rfl := hguarded
      exact eq_error_of_wp (by simp [request, requestRoot, habsent])
  | authenticated | disconnected | closeService | closeReverse | pairResult =>
      exact hguarded.elim

/-- An unregistered connection id stays unregistered until it is
authenticated. -/
theorem Effect.absent {t : ℕ} (heffect : Effect part env d d')
    (hpart : ∀ fp, ¬Requests part (.authenticated t fp))
    (habsent : t ∉ d.transports) : t ∉ d'.transports := by
  have hstop (d : Daemon) (state reason : String) (h : t ∉ d.transports) :
      t ∉ (d.stop env state reason).transports := by
    obtain ⟨logs, retryAt, failures, heq⟩ := @stop_eq env d state reason
    rw [heq]
    dsimp only
    split
    · exact Std.TreeMap.not_mem_emptyc
    · exact h
  cases heffect with
  | note | deliver | ready | launch | configure | spawn | mark | reap | root
  | closeWindow | skipEpoch | openWindow | countFailure | pair => exact habsent
  | stop => exact hstop _ _ _ habsent
  | reconfigure => exact hstop _ _ _ habsent
  | rotate | regrant | regrantRestart =>
      exact Std.TreeMap.not_mem_emptyc
  | rotateFailed => exact hstop _ _ _ Std.TreeMap.not_mem_emptyc
  | connect u fp hrequest =>
      have hne : u ≠ t := fun heq => hpart fp (heq ▸ hrequest)
      simpa [hne] using habsent
  | disconnect u =>
      intro hmem
      exact habsent (Std.TreeMap.mem_of_mem_erase hmem)
  | revoke d' fp _ hdone =>
      rw [← Std.TreeMap.isSome_getElem?_iff_mem] at habsent ⊢
      have hrevoked : (d.revoked env fp).transports[t]?.isSome →
          d.transports[t]?.isSome := by
        rw [revoked_eq, foldl_disconnect_transports]
        split <;> simp
      cases hdone <;> exact fun h => habsent (hrevoked h)

end Daemon

namespace MainLoop

open Daemon

theorem Reachable.authorization {codec : KeyCodec} {l : MainLoop}
    (h : Reachable codec l) : l.daemon.Authorization :=
  h.invariant_of_effects (fun _ _ _ => .of_empty rfl rfl)
    (fun _ _ _ _ h heffect => h.step heffect) fun _ _ _ => .of_empty rfl rfl

/-- A step that does not serve an authentication of the connection `t`. -/
def StepWithout (codec : KeyCodec) (t : ℕ) (l l' : MainLoop) : Prop :=
  ∃ env part, (∀ fp, ¬Requests part (.authenticated t fp)) ∧
    l.clock ≤ env.now ∧ l' = l.step codec env part

theorem run_absent {codec : KeyCodec} {t : ℕ} {l l' : MainLoop}
    (hrun : ReflTransGen (StepWithout codec t) l l')
    (habsent : t ∉ l.daemon.transports) : t ∉ l'.daemon.transports := by
  refine @Transition.stable _ _ (fun l => t ∉ l.daemon.transports) ?_ l l' habsent
    hrun
  rintro l l' habsent ⟨env, part, hpart, -, rfl⟩
  exact (step_effects codec env part l).stable
    (fun _ _ h heffect => heffect.absent hpart h)
    (fun _ _ => Std.TreeMap.not_mem_emptyc) habsent

/-- What a revocation with a completed save leaves of the host. -/
theorem revoke_step {codec : KeyCodec} {env : Env} {fp : String} {l : MainLoop}
    (hauth : l.daemon.Authorization) (hquit : l.daemon.quit = false)
    (hsaved : env.saved = .ok ()) :
    let l' := l.step codec env (.control (.revoke fp))
    l'.daemon.Authorization ∧ ¬l'.daemon.store.trusts fp ∧
      ∀ t : ℕ, l.daemon.transports[t]? = some fp → t ∉ l'.daemon.transports := by
  have hdone : wp (Daemon.control env (.revoke fp))
      (fun _ d' => ∃ d₁, l.daemon.RevokeDone env fp d₁ ∧
        d'.store = d₁.store ∧ d'.services = d₁.services ∧
          d'.transports = d₁.transports)
      (fun _ d' => l.daemon.RevokeDone env fp d') l.daemon := by
    simp only [Daemon.control, wp_bind]
    refine wp_mono (controlRevoke_spec fp) ?_ ?_
    · rintro _ d' ⟨-, d₁, hdone, rfl⟩
      simp only [wp_bind, wp_get, wp_pure]
      exact ⟨d₁, hdone, log_store _, log_services _, log_transports _⟩
    · rintro _ d' (⟨hunsaved, -⟩ | ⟨-, hdone⟩)
      · exact absurd hsaved hunsaved
      · exact hdone
  obtain ⟨d₁, hdone, hstore, hservices, htransports⟩ :
      ∃ d₁, l.daemon.RevokeDone env fp d₁ ∧
        (final (Daemon.control env (.revoke fp) l.daemon)).store = d₁.store ∧
        (final (Daemon.control env (.revoke fp) l.daemon)).services = d₁.services ∧
        (final (Daemon.control env (.revoke fp) l.daemon)).transports =
          d₁.transports := by
    refine wp_final (wp_mono hdone (fun _ _ h => h) ?_)
    exact fun _ d' h => ⟨d', h, rfl, rfl, rfl⟩
  have hd₁ : d₁.store = (l.daemon.revoked env fp).store ∧
      d₁.transports = (l.daemon.revoked env fp).transports := by
    cases hdone <;> exact ⟨rfl, rfl⟩
  simp only [step, hquit, Bool.false_eq_true, if_false]
  refine ⟨(hauth.revokeDone hdone).congr htransports hservices ?_, ?_, ?_⟩
  · exact fun _ h => hstore ▸ h
  · rw [hstore, hd₁.1, revoked_store, Store.withHosts_without_trusts]
    exact fun h => h.2 rfl
  · intro t ht
    rw [htransports, hd₁.2, ← Std.TreeMap.isSome_getElem?_iff_mem, revoked_eq,
      foldl_disconnect_transports, if_pos ((mem_transportsOf fp t).mpr ht)]
    simp

/-- In every reachable state connections and running services belong to paired
hosts, and a guarded request is granted only for such a connection.  A saved
revocation leaves the host no running service, and its connections are refused
until they are authenticated again. -/
theorem supervisor_authorization {codec : KeyCodec} {l : MainLoop}
    (h : Reachable codec l) :
    l.daemon.Authorization ∧
      (∀ env r t reply d', Guarded t r →
        request codec env r l.daemon = .ok reply d' →
        ∃ fp, l.daemon.transports[t]? = some fp ∧ l.daemon.store.trusts fp) ∧
      ∀ env fp, l.daemon.quit = false → env.saved = .ok () →
        let l' := l.step codec env (.control (.revoke fp))
        (∀ s ∈ l'.daemon.services, s.child.owner = fp ∨
          l.daemon.transports[s.transport]? = some fp → s.stopped = true) ∧
        ∀ (t : ℕ) (l'' : MainLoop), l.daemon.transports[t]? = some fp →
          ReflTransGen (StepWithout codec t) l' l'' →
          ∀ env r, Guarded t r → request codec env r l''.daemon =
            .error "host is no longer authorized" l''.daemon := by
  have hauth := h.authorization
  refine ⟨hauth, ?_, ?_⟩
  · intro env r t reply d' hguarded hgranted
    have hmem : t ∈ l.daemon.transports := by
      by_contra habsent
      rw [request_refused hguarded habsent] at hgranted
      cases hgranted
    obtain ⟨fp, hfp⟩ := Option.isSome_iff_exists.mp
      (Std.TreeMap.isSome_getElem?_iff_mem.mpr hmem)
    exact ⟨fp, hfp, hauth.paired t fp hfp⟩
  · intro env fp hquit hsaved
    obtain ⟨hauth', htrust, hdropped⟩ :=
      @revoke_step codec env fp l hauth hquit hsaved
    refine ⟨fun s hs howner => ?_, fun t l'' ht hrun env r hguarded => ?_⟩
    · by_contra hstopped
      have hattached := hauth'.attached s hs (by simpa using hstopped)
      rcases howner with rfl | ht
      · exact htrust (hauth'.paired _ _ hattached)
      · apply hdropped s.transport ht
        rw [← Std.TreeMap.isSome_getElem?_iff_mem, hattached]
        rfl
    · exact request_refused hguarded (run_absent hrun (hdropped t ht))

theorem supervisor_authorization_serving :
    let l := afterSections (secs 100) servingSections
    l.daemon.transports[7]? = some "aa" ∧ l.daemon.Authorization ∧
      ∀ s ∈ (l.step constantCodec (cooperative (secs 101))
        (.control (.revoke "aa"))).daemon.services,
        s.child.owner = "aa" → s.stopped = true := by
  intro l
  obtain ⟨hauth, -, hrevoke⟩ :=
    supervisor_authorization (afterSections_reachable _ servingSections)
  refine ⟨by decide +kernel, hauth, fun s hs howner => ?_⟩
  exact (hrevoke (cooperative (secs 101)) "aa" (by decide +kernel) rfl).1 s hs
    (.inl howner)

end MainLoop

end Altdb
