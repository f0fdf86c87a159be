import Altdb.PairingWindow
import Altdb.Revocation

/-!
# Trust before acknowledgement

A pairing attempt tells the computer that it succeeded after its commit
returned.  The commit is a call to the supervisor, which saves the host list
before it replies.  So every success answer has its save before it in the
history of the run, and an attempt whose commit failed never answers.
-/

namespace Altdb

open Fallible Relation

/-! ## The save behind a granted commit -/

/-- The store holds the host of the key, in memory and in the file that was
saved last. -/
structure Store.Durable (codec : KeyCodec) (key fp : String) (store : Store) :
    Prop where
  accepted : ∃ name, hostKey codec key = .ok (fp, name)
  trusts : store.trusts fp
  saved : store.journal.getLast? = some (.hosts store.hosts)

theorem Store.pair_durable {codec : KeyCodec} {saved : Except String Unit}
    {now : ℕ} {key fp : String} {store store' : Store}
    (h : Store.pair codec saved now key store = .ok fp store') :
    store'.Durable codec key fp := by
  obtain ⟨-, hosts, -, rfl, htrusts⟩ := wp_of_ok (pair_spec codec now key) h
  refine ⟨?_, htrusts, by simp [withHosts]⟩
  have hkey : wp (Store.pair codec saved now key)
      (fun fp _ => ∃ name, hostKey codec key = .ok (fp, name))
      (fun _ _ => True) store := by
    simp only [Store.pair, atomic]
    simp
    grind
  exact wp_of_ok hkey h

namespace Daemon

variable {codec : KeyCodec} {env : Env} {d : Daemon}

/-- A commit that is granted has paired the key. -/
theorem pairResult_paired (id epoch : ℕ) (key : String) :
    wp (request codec env (.pairResult epoch (some key)))
      (fun _ _ => ∃ w fp store, w.epoch = epoch ∧ store.Durable codec key fp ∧
        d.pairedIn codec env
          (.worker (.message (.request id (.pairResult epoch (some key))) [])) =
            some (.paired w key fp store))
      (fun _ _ => True) d := by
  simp only [request, requestPairResult, wp_bind, wp_get]
  cases hwindow : d.window with
  | none => trivial
  | some w =>
      simp only [wp_bind, wp_ensure]
      refine ⟨fun hopen => ?_, fun _ => trivial⟩
      rw [wp_onStore]
      refine wp_intro (fun fp store hpair => ?_) (fun _ _ _ => trivial)
      refine wp_intro (fun _ _ _ => ?_) (fun _ _ _ => trivial)
      refine ⟨w, fp, store, hopen.1, Store.pair_durable hpair, ?_⟩
      simp [pairedIn, hwindow, hopen, hpair]

/-- The store that the save returned stays the supervisor's store. -/
theorem requestPairResult_saved {w : Window} {key fp : String} {store : Store}
    (hadmitted : d.Admitted env w.epoch w)
    (hpair : Store.pair codec env.saved env.unixTime key d.store = .ok fp store) :
    wp (requestPairResult codec env w.epoch (some key))
      (fun _ d' => d'.store = store) (fun _ d' => d'.store = store) d := by
  have hopen : True ∧ env.now < w.expires ∧ w.failures < maxPairFailures :=
    ⟨trivial, hadmitted.time, hadmitted.failures⟩
  simp only [requestPairResult, wp_bind, wp_get, hadmitted.window_eq, wp_ensure]
  constructor
  · intro _
    rw [wp_onStore]
    apply wp_intro
    · intro fp' store' hsaved
      rw [hpair] at hsaved
      cases hsaved
      simp only [wp_modify, wp_bind]
      apply wp_mono (send_spec _ _)
      · rintro _ d₁ ⟨w₁, -, -, rfl⟩
        simp only [wp_get, wp_bind]
        apply wp_mono (send_spec _ _)
        · rintro _ d₂ ⟨w₂, -, -, rfl⟩
          exact log_store _
        · rintro _ d₂ ⟨rfl, -⟩
          rfl
      · rintro _ d₁ ⟨rfl, -⟩
        rfl
    · intro error store' hfailed
      rw [hpair] at hfailed
      cases hfailed
  · intro hclosed
    exact absurd hopen hclosed

/-- What is recorded of a section is a save in the open window. -/
theorem pairedIn_eq {part : Section} {w : Window} {key fp : String} {store : Store}
    (h : d.pairedIn codec env part = some (.paired w key fp store)) :
    d.Admitted env w.epoch w ∧
      Store.pair codec env.saved env.unixTime key d.store = .ok fp store ∧
      ∃ id, part =
        .worker (.message (.request id (.pairResult w.epoch (some key))) []) := by
  unfold pairedIn at h
  split at h
  · next id epoch key' w' hwindow =>
    split at h
    · next hopen =>
      obtain ⟨rfl, htime, hfailures⟩ := hopen
      split at h
      · next hpair =>
        cases h
        exact ⟨⟨hwindow, rfl, htime, hfailures⟩, hpair, id, rfl⟩
      · cases h
    · cases h
  · cases h

end Daemon

/-- The store of a recorded save is the supervisor's store after the section. -/
theorem MainLoop.step_saved {codec : KeyCodec} {env : Env} {part : Section}
    {l : MainLoop} {w : Window} {key fp : String} {store : Store}
    (hinv : l.daemon.WindowInvariant) (hquit : l.daemon.quit = false)
    (h : l.daemon.pairedIn codec env part = some (.paired w key fp store)) :
    (l.step codec env part).daemon.store = store := by
  obtain ⟨hadmitted, hpair, id, rfl⟩ := Daemon.pairedIn_eq h
  have hserved : l.daemon.worker.isSome := by
    apply hinv.served
    rw [hadmitted.window_eq]
    rfl
  obtain ⟨worker, hworker⟩ := Option.isSome_iff_exists.mp hserved
  rw [step_request hquit hworker]
  have hsend (d : Daemon) (message : Message) (fds : List Fd)
      (hstore : d.store = store) :
      (final (Daemon.send env message fds d)).store = store := by
    have hkept : wp (Daemon.send env message fds)
        (fun _ d' => d'.store = store) (fun _ d' => d'.store = store) d := by
      apply wp_mono (Daemon.send_spec message fds)
      · rintro _ d₁ ⟨w₁, -, -, rfl⟩
        exact hstore
      · rintro _ d₁ ⟨rfl, -⟩
        exact hstore
    exact wp_final hkept
  have hrequest : wp (Daemon.request codec env (.pairResult w.epoch (some key)))
      (fun _ d' => d'.store = store) (fun _ d' => d'.store = store) l.daemon := by
    simp only [Daemon.request, wp_bind]
    exact Daemon.requestPairResult_saved hadmitted hpair
  unfold Daemon.serve
  unfold wp at hrequest
  split
  all_goals
    next hrun =>
      rw [hrun] at hrequest
      exact hsend _ _ _ hrequest

/-! ## Commits and answers -/

/-- The key was paired in the window before. -/
def PairedBefore (codec : KeyCodec) (events : List Event) (epoch : ℕ)
    (key : String) : Prop :=
  ∃ (k : ℕ) (w : Window) (fp : String) (store : Store),
    events[k]? = some (Event.paired w key fp store) ∧ w.epoch = epoch ∧
      store.Durable codec key fp

theorem PairedBefore.mono {codec : KeyCodec} {events : List Event} {epoch : ℕ}
    {key : String} (h : PairedBefore codec events epoch key)
    (more : List Event) : PairedBefore codec (events ++ more) epoch key := by
  obtain ⟨k, w, fp, store, hk, hepoch, hdurable⟩ := h
  exact ⟨k, w, fp, store, getElem?_extend hk _, hepoch, hdurable⟩

/-- A commit that is granted, and all the more an answer, has its save. -/
def PairingStage.Committed (codec : KeyCodec)
    (inbox : List (Message × List Fd)) (b : Broker) (events : List Event)
    (epoch : ℕ) : PairingStage → Prop
  | .committing key c =>
      (∃ progress, b.stateOf c = some (.pairResult epoch (some key), progress)) ∧
        (System.Granted inbox c → PairedBefore codec events epoch key)
  | .acknowledging key => PairedBefore codec events epoch key
  | .exchanging | .failed | .reporting _ | .ended => True

theorem PairingStage.Committed.mono {codec : KeyCodec}
    {inbox inbox' : List (Message × List Fd)} {b b' : Broker}
    {events : List Event} {epoch : ℕ} {stage : PairingStage}
    (h : stage.Committed codec inbox b events epoch) (more : List Event)
    (hgranted : ∀ key c, stage = .committing key c → System.Granted inbox' c →
      System.Granted inbox c ∨ PairedBefore codec (events ++ more) epoch key)
    (hstate : ∀ c r progress, b.stateOf c = some (r, progress) →
      ∃ progress', b'.stateOf c = some (r, progress')) :
    stage.Committed codec inbox' b' (events ++ more) epoch := by
  cases stage with
  | committing key c =>
      obtain ⟨⟨progress, hc⟩, hpaired⟩ := h
      refine ⟨hstate c _ progress hc, fun hg => ?_⟩
      rcases hgranted key c rfl hg with hbefore | hnew
      · exact (hpaired hbefore).mono more
      · exact hnew
  | acknowledging key => exact PairedBefore.mono h more
  | _ => trivial

namespace Process

/-- The commits of the pairing threads. -/
def Committed (codec : KeyCodec) (inbox : List (Message × List Fd))
    (events : List Event) (p : Process) : Prop :=
  ∀ (j : ℕ) (thread : PairingThread), p.pairings[j]? = some thread →
    thread.stage.Committed codec inbox p.broker events thread.epoch

variable {codec : KeyCodec} {inbox : List (Message × List Fd)}
  {events : List Event} {p p' : Process}

/-- The main loop may add a pairing thread. -/
theorem main_pairings {item : Option (Message × List Fd)}
    (hdone : p.MainDone item p') :
    (∀ c, p'.broker.stateOf c = p.broker.stateOf c) ∧
      (p'.pairings = p.pairings ∨
        ∃ epoch, p'.pairings = p.pairings ++ [⟨epoch, .exchanging⟩]) := by
  cases hdone with
  | reply => exact ⟨Broker.stateOf_deliver _ _ _, .inl rfl⟩
  | acceptPairing w => exact ⟨fun _ => rfl, .inr ⟨w.epoch, rfl⟩⟩
  | _ => exact ⟨fun _ => rfl, .inl rfl⟩

theorem pairings_extend {pairings : List PairingThread} {epoch j : ℕ}
    {thread : PairingThread}
    (h : (pairings ++ [⟨epoch, .exchanging⟩])[j]? = some thread) :
    pairings[j]? = some thread ∨ thread.stage = .exchanging := by
  rw [List.getElem?_append] at h
  split at h
  · exact .inl h
  · rw [List.getElem?_singleton] at h
    split at h
    · cases h
      exact .inr rfl
    · cases h

/-- Steps other than those of pairing threads make no answer. -/
theorem Committed.still (h : p.Committed codec inbox events)
    (hstate : ∀ c r progress, p.broker.stateOf c = some (r, progress) →
      ∃ progress', p'.broker.stateOf c = some (r, progress'))
    (hpairings : ∀ (j : ℕ) (thread : PairingThread),
      p'.pairings[j]? = some thread →
        p.pairings[j]? = some thread ∨ thread.stage = .exchanging) :
    p'.Committed codec inbox events := by
  intro j thread hj
  rcases hpairings j thread hj with hold | hstage
  · have hkept := (h j thread hold).mono [] (fun _ _ _ hg => .inl hg) hstate
    rwa [List.append_nil] at hkept
  · rw [hstage]
    trivial

theorem Committed.main (h : p.Committed codec inbox events)
    {item : Option (Message × List Fd)} (hdone : p.MainDone item p') :
    p'.Committed codec inbox events := by
  obtain ⟨hstate, hpairings⟩ := main_pairings hdone
  refine h.still (fun c r progress hc => ⟨progress, (hstate c).trans hc⟩) ?_
  intro j thread hj
  rcases hpairings with heq | ⟨epoch, heq⟩
  · rw [heq] at hj
    exact .inl hj
  · rw [heq] at hj
    exact pairings_extend hj

theorem stateOf_advance {part : CallStep} {c : ℕ} {b b' : Broker}
    (hadvance : b.advance c part = some b') (i : ℕ) (r : Request)
    (progress : Progress) (hi : b.stateOf i = some (r, progress)) :
    ∃ progress', b'.stateOf i = some (r, progress') := by
  obtain ⟨call, hc, hstep⟩ := Broker.advance_cases hadvance
  obtain ⟨call', hcalls, -, hrequest, -⟩ := hstep.moved hc
  by_cases heq : i = c
  · subst heq
    simp only [Broker.stateOf, hc, Option.map_some, Option.some_inj,
      Prod.mk.injEq] at hi
    exact ⟨call'.progress, by simp [Broker.stateOf, hcalls, hrequest, hi.1]⟩
  · refine ⟨progress, ?_⟩
    rw [← hi]
    simp [Broker.stateOf, hcalls, heq]

theorem Committed.advance (h : p.Committed codec inbox events) {part : CallStep}
    {c : ℕ} {b : Broker} (hadvance : p.broker.advance c part = some b) :
    { p with broker := b }.Committed codec inbox events :=
  h.still (stateOf_advance hadvance) fun _ _ hj => .inl hj

theorem Committed.calls (h : p.Committed codec inbox events) {r : Request}
    {b : Broker} (hcall : p.broker.call r = some b) :
    { p with broker := b }.Committed codec inbox events :=
  h.still (fun _ _ progress hc => ⟨progress, Broker.stateOf_kept hcall _ _ hc⟩)
    fun _ _ hj => .inl hj

theorem Committed.transport (h : p.Committed codec inbox events) {i : ℕ}
    {stage : TransportStage} (hdone : p.TransportDone i stage p') :
    p'.Committed codec inbox events := by
  have hset {q : Process} (hq : q.Committed codec inbox events)
      (stage : TransportStage) : (q.setStage i stage).Committed codec inbox events :=
    hq
  cases hdone with
  | authenticate _ b _ hcall | ask _ _ b _ _ hcall | leave _ b _ hcall =>
      exact hset (h.calls hcall) _
  | fail | granted | refused | answered | left => exact hset h _

/-- An attempt answers only after its commit was granted. -/
theorem Committed.pairing (h : p.Committed codec inbox events)
    (hinv : (System.exchange inbox p).Invariant) {j : ℕ}
    {thread : PairingThread} {part : PairingPart}
    (hj : p.pairings[j]? = some thread)
    (hdone : p.PairingDone codec j thread part p') :
    p'.Committed codec inbox events := by
  have hset {q : Process} (hq : q.Committed codec inbox events)
      (hpairings : q.pairings = p.pairings) (stage : PairingStage)
      (hstage : stage.Committed codec inbox q.broker events thread.epoch) :
      (q.setPairing j stage).Committed codec inbox events := by
    intro i other hi
    rw [setPairing_pairings (hpairings ▸ hj)] at hi
    split at hi
    · cases hi
      exact hstage
    · exact hq i other hi
  cases hdone with
  | commit key fp name b hstage hkey hcall =>
      refine hset (h.calls hcall) rfl _ ⟨⟨.identified, ?_⟩, fun hgranted => ?_⟩
      · rw [Broker.stateOf_call hcall, if_pos rfl]
      · obtain ⟨call, hc, -⟩ := hgranted.posted hinv
        simp at hc
  | report b hstage hcall => exact hset (h.calls hcall) rfl _ trivial
  | acknowledge key sent hstage =>
      refine hset h rfl _ ?_
      split <;> trivial
  | granted key c value hstage hreturned =>
      have hcommitted := h j thread hj
      rw [hstage] at hcommitted
      exact hset h rfl _
        (hcommitted.2 (System.granted_of_returned hinv hreturned))
  | fail | refused | reported => exact hset h rfl _ trivial

end Process

namespace System

variable {codec : KeyCodec} {allowed : System → Action → Prop}
  {s s' : System} {action : Action}

/-- Every answer in the history has its save before it. -/
def Ordered (codec : KeyCodec) (events : List Event) : Prop :=
  ∀ (k worker j epoch : ℕ) (key : String),
    events[k]? = some (Event.acknowledged worker j epoch key) →
      PairedBefore codec (events.take k) epoch key

/-- The state of the commits and the history of answers. -/
structure Commits (codec : KeyCodec) (s : System) : Prop where
  ordered : Ordered codec s.events
  committed : ∀ p, s.worker = some p → p.Committed codec s.inbox s.events

theorem Ordered.append {events more : List Event} (h : Ordered codec events)
    (hmore : ∀ worker j epoch key, Event.acknowledged worker j epoch key ∈ more →
      PairedBefore codec events epoch key) : Ordered codec (events ++ more) := by
  intro k worker j epoch key hk
  rw [List.getElem?_append] at hk
  split at hk
  · next hlt =>
    rw [List.take_append_of_le_length hlt.le]
    exact h k worker j epoch key hk
  · next hge =>
    rw [List.take_append, List.take_of_length_le (by omega)]
    exact (hmore worker j epoch key (List.mem_of_getElem? hk)).mono _

/-- What a section records is no answer. -/
theorem pairedIn_quiet {env : Env} {part : Section} {d : Daemon}
    {worker j epoch : ℕ} {key : String} :
    Event.acknowledged worker j epoch key ∉ (d.pairedIn codec env part).toList := by
  unfold Daemon.pairedIn
  intro hmem
  split at hmem
  · split at hmem
    · split at hmem <;> simp at hmem
    · simp at hmem
  · simp at hmem

/-- The new reply goes to the invocation that made the request. -/
theorem Replied.addressed {env : Env} {id : ℕ} {r : Request}
    {p : Process} {w : Worker} {outcome : Except String (String × List Fd)}
    {d : Daemon} {messages replies : List (Message × List Fd)} {c : ℕ}
    (h : Replied codec env id r p s s' w outcome d messages replies)
    (hgranted : Granted replies c) : c = id - 1 := by
  obtain ⟨reply, hreply, rfl, -⟩ := hgranted
  rcases h.replies_eq with heq | ⟨-, heq⟩
  · rw [heq, filterMap_replyOf_reply, List.mem_singleton] at hreply
    rw [hreply]
  · simp [heq] at hreply

/-- A commit is granted by a section that pairs its key. -/
theorem Replied.paired {env : Env} {id epoch : ℕ} {key : String}
    {p : Process} {w : Worker} {outcome : Except String (String × List Fd)}
    {d : Daemon} {messages replies : List (Message × List Fd)} {c : ℕ}
    (h : Replied codec env id (.pairResult epoch (some key)) p s s' w outcome d
      messages replies) (hgranted : Granted replies c) (events : List Event) :
    PairedBefore codec (events ++ (s.loop.daemon.pairedIn codec env
      (.worker (.message (.request id (.pairResult epoch (some key))) []))).toList)
        epoch key := by
  obtain ⟨reply, hreply, rfl, hok⟩ := hgranted
  rcases h.replies_eq with heq | ⟨-, heq⟩
  · rw [heq, filterMap_replyOf_reply, List.mem_singleton] at hreply
    subst hreply
    have houtcome := h.handled.outcome_eq
    have hpaired := @Daemon.pairResult_paired codec env s.loop.daemon id epoch key
    unfold wp at hpaired
    split at hpaired
    · obtain ⟨w, fp, store, hepoch, hdurable, hevent⟩ := hpaired
      refine ⟨events.length, w, fp, store, ?_, hepoch, hdurable⟩
      simp [hevent]
    · next hrun =>
      rw [hrun, outcome_error] at houtcome
      rw [← houtcome] at hok
      cases hok
  · simp [heq] at hreply

/-- An answer comes from a thread whose commit returned. -/
theorem answers_of_mem {p : Process} {j n worker i epoch : ℕ} {key : String}
    {part : PairingPart}
    (h : Event.acknowledged worker i epoch key ∈
      ((p.acknowledged j part).map fun sent =>
        Event.acknowledged n j sent.1 sent.2).toList) :
    worker = n ∧ i = j ∧ p.pairings[j]? = some ⟨epoch, .acknowledging key⟩ := by
  unfold Process.acknowledged at h
  split at h
  · next hthread =>
    simp only [Option.map_some, Option.toList_some, List.mem_singleton,
      Event.acknowledged.injEq] at h
    obtain ⟨rfl, rfl, rfl, rfl⟩ := h
    exact ⟨rfl, rfl, hthread⟩
  · simp at h

theorem Done.commits (hlinked : Linked codec s) (h : Commits codec s)
    (hdone : Done codec s action s') : Commits codec s' := by
  cases hdone with
  | idle env part process htime hidle hprocess =>
      refine ⟨h.ordered.append fun _ _ _ _ hmem => absurd hmem pairedIn_quiet, ?_⟩
      intro p hp
      cases @Linked.followed codec s hlinked env part hidle process
          hprocess.isSome with
      | kept q w messages hq hw hkeeps _ heq hinbox =>
          obtain rfl := Option.some_inj.mp (heq.symm.trans hp)
          have hsame : ∃ p₀, s.worker = some p₀ ∧ q.pairings = p₀.pairings ∧
              ∀ c, q.broker.stateOf c = p₀.broker.stateOf c := by
            rcases hprocess with hprocess | ⟨p₀, posted, rest, hp₀, -, -, hprocess⟩
            · exact ⟨q, hprocess ▸ hq, rfl, fun _ => rfl⟩
            · rw [hq, Option.some_inj] at hprocess
              exact ⟨p₀, hp₀, by rw [hprocess], fun c => by rw [hprocess]; rfl⟩
          obtain ⟨p₀, hp₀, hpairings, hstate⟩ := hsame
          rw [hinbox]
          intro j thread hj
          rw [hpairings] at hj
          refine (h.committed p₀ hp₀ j thread hj).mono _ ?_ ?_
          · intro key c _ hgranted
            exact .inl ((granted_append.mp hgranted).resolve_right
              (not_granted_of_quiet hkeeps.quiet))
          · exact fun c r progress hc => ⟨progress, (hstate c).trans hc⟩
      | replaced hfresh _ _ heq =>
          rw [heq, Option.map_eq_some_iff] at hp
          obtain ⟨w, -, rfl⟩ := hp
          intro j thread hj
          simp [Process.initial] at hj
  | request env id r q caller rest htime hquit hworker houtbox =>
      refine ⟨h.ordered.append fun _ _ _ _ hmem => absurd hmem pairedIn_quiet, ?_⟩
      intro p hp
      obtain ⟨w, outcome, d, messages, replies, hreplied⟩ :=
        @Linked.replied codec s hlinked env id r
          q { q with broker := { q.broker with outbox := rest } } hworker hquit
      obtain rfl := Option.some_inj.mp (hreplied.process_eq.symm.trans hp)
      have hinv := hlinked.invariant hworker
      obtain ⟨hcaller, -⟩ := hreplied.steps hinv (hlinked.linked q hworker).1
        houtbox rfl
      intro j thread hj
      have hcommitted := h.committed q hworker j thread hj
      refine hcommitted.mono _ ?_ fun c r progress hc => ⟨progress, hc⟩
      intro key c hstage hgranted
      rw [hreplied.inbox_eq] at hgranted
      rcases granted_append.mp hgranted with hbefore | hreply
      · exact .inl ((granted_append.mp hbefore).resolve_right
          (not_granted_of_quiet hreplied.handled.keeps.quiet))
      · right
        -- The reply is for this very commit.
        have hid := hreplied.addressed hreply
        obtain ⟨call, hc, hmessage⟩ := hinv.asked ⟨.request id r, caller⟩
          (by simp [exchange, houtbox]) (id - 1) hcaller
        rw [hstage] at hcommitted
        obtain ⟨⟨progress, hstate⟩, -⟩ := hcommitted
        obtain ⟨call', hc', heq⟩ := Option.map_eq_some_iff.mp hstate
        rw [hid] at hc'
        obtain rfl := Option.some_inj.mp (hc.symm.trans hc')
        obtain rfl : r = .pairResult thread.epoch (some key) :=
          (Message.request.inj hmessage).2.trans (Prod.mk.inj heq).1
        exact hreplied.paired hreply s.events
  | main part q q' hworker hdone =>
      refine ⟨h.ordered, fun p hp => ?_⟩
      cases hp
      exact (h.committed q hworker).main hdone
  | call c part q b hworker hadvance =>
      refine ⟨h.ordered, fun p hp => ?_⟩
      cases hp
      exact (h.committed q hworker).advance hadvance
  | transport i part q q' thread hworker hthread hdone =>
      refine ⟨h.ordered, fun p hp => ?_⟩
      cases hp
      exact (h.committed q hworker).transport hdone
  | pairing j part q q' thread events hworker hthread hdone hevents =>
      have hcommitted := h.committed q hworker
      constructor
      · refine h.ordered.append ?_
        intro worker i epoch key hmem
        obtain ⟨-, -, hanswers⟩ := answers_of_mem (hevents ▸ hmem)
        have hpaired := hcommitted j _ hanswers
        exact hpaired
      · intro p hp
        cases hp
        intro i other hi
        exact (hcommitted.pairing (hlinked.invariant hworker) hthread hdone i other
          hi).mono events (fun _ _ _ hg => .inl hg)
            fun c r progress hc => ⟨progress, hc⟩

theorem Reachable.commits (h : Reachable codec allowed s) : Commits codec s := by
  refine @Transition.Reachable.invariant _ _ _ (Commits codec) ?_ ?_ s h
  · intro s hinit
    constructor
    · intro k worker j epoch key hk
      simp [hinit.2.2] at hk
    · intro p hp
      rw [hinit.2.1] at hp
      cases hp
  · rintro s s' hreachable hcommits ⟨action, -, hact⟩
    exact (act_done hact).commits (Reachable.linked hreachable) hcommits

/-! ## Attempts that fail -/

/-- Attempt `j` of worker `n` is in such a stage, or its worker is gone. -/
def Placed (stages : Broker → PairingStage → Prop) (n j : ℕ) (s : System) :
    Prop :=
  n < s.loop.daemon.stops ∨ n = s.loop.daemon.stops ∧ ∃ p thread,
    s.worker = some p ∧ p.pairings[j]? = some thread ∧
      stages p.broker thread.stage

/-- Neither calls nor the attempt itself leave the stages. -/
structure Lasting (codec : KeyCodec) (stages : Broker → PairingStage → Prop) :
    Prop where
  extended : ∀ (b b' : Broker) (stage : PairingStage),
    (∀ c state, b.stateOf c = some state → b'.stateOf c = some state) →
      stages b stage → stages b' stage
  advanced : ∀ (b b' : Broker) (c : ℕ) (part : CallStep) (stage : PairingStage),
    b.advance c part = some b' → stages b stage → stages b' stage
  moved : ∀ (p p' : Process) (j : ℕ) (thread : PairingThread)
    (part : PairingPart), p.pairings[j]? = some thread →
      p.PairingDone codec j thread part p' → stages p.broker thread.stage →
        ∃ thread', p'.pairings[j]? = some thread' ∧
          stages p'.broker thread'.stage

theorem pairing_stateOf {p p' : Process} {j : ℕ} {thread : PairingThread}
    {part : PairingPart} (hdone : p.PairingDone codec j thread part p') (c : ℕ)
    (state : Request × Progress) (hc : p.broker.stateOf c = some state) :
    p'.broker.stateOf c = some state := by
  cases hdone with
  | commit _ _ _ b _ _ hcall | report b _ hcall =>
      exact Broker.stateOf_kept hcall c state hc
  | acknowledge | fail | granted | refused | reported => exact hc

theorem pairing_other {p p' : Process} {i j : ℕ} {thread other : PairingThread}
    {part : PairingPart} (hi : p.pairings[i]? = some other) (hne : i ≠ j)
    (hj : p.pairings[j]? = some thread)
    (hdone : p.PairingDone codec j thread part p') :
    p'.pairings[i]? = some other := by
  have hset {q : Process} (hpairings : q.pairings = p.pairings)
      (stage : PairingStage) : (q.setPairing j stage).pairings[i]? = some other := by
    rw [Process.setPairing_pairings (hpairings ▸ hj), if_neg hne, hpairings, hi]
  cases hdone <;> exact hset rfl _

theorem transport_pairings {p p' : Process} {i : ℕ} {stage : TransportStage}
    (hdone : p.TransportDone i stage p') : p'.pairings = p.pairings ∧
      ∀ c state, p.broker.stateOf c = some state →
        p'.broker.stateOf c = some state := by
  cases hdone with
  | authenticate _ b _ hcall | ask _ _ b _ _ hcall | leave _ b _ hcall =>
      exact ⟨rfl, Broker.stateOf_kept hcall⟩
  | fail | granted | refused | answered | left => exact ⟨rfl, fun _ _ hc => hc⟩

theorem Placed.step {stages : Broker → PairingStage → Prop} {n j : ℕ}
    (hlasting : Lasting codec stages) (hlinked : Linked codec s)
    (h : Placed stages n j s) (hdone : Done codec s action s') :
    Placed stages n j s' := by
  rcases h with hgone | ⟨rfl, p, thread, hp, hj, hstage⟩
  · left
    cases hdone with
    | idle env part process htime hidle hprocess =>
        cases @Linked.followed codec s hlinked env part hidle process
            hprocess.isSome with
        | kept q w messages hq hw hkeeps => exact hkeeps.stops_eq ▸ hgone
        | replaced hfresh hstops => exact hgone.trans_le hstops
    | request env id r q caller rest htime hquit hworker houtbox =>
        obtain ⟨w, outcome, d, messages, replies, hreplied⟩ :=
          @Linked.replied codec s hlinked env id r
            q { q with broker := { q.broker with outbox := rest } } hworker hquit
        exact hreplied.stops_eq ▸ hgone
    | main | call | transport | pairing => exact hgone
  · cases hdone with
    | idle env part process htime hidle hprocess =>
        cases @Linked.followed codec s hlinked env part hidle process
            hprocess.isSome with
        | kept q w messages hq hw hkeeps _ heq hinbox =>
            refine .inr ⟨hkeeps.stops_eq.symm, q, ?_⟩
            rcases hprocess with hprocess | ⟨p₀, posted, rest, hp₀, -, -, hprocess⟩
            · obtain rfl := Option.some_inj.mp (hq.symm.trans (hprocess.trans hp))
              exact ⟨thread, heq, hj, hstage⟩
            · obtain rfl := Option.some_inj.mp (hp₀.symm.trans hp)
              obtain rfl := Option.some_inj.mp (hq.symm.trans hprocess)
              exact ⟨thread, heq, hj, hlasting.extended p₀.broker _ _
                (fun _ _ hc => hc) hstage⟩
        | replaced hfresh _ hstops =>
            exact .inl (hstops (by rw [hprocess.isSome, hp]; rfl))
    | request env id r q caller rest htime hquit hworker houtbox =>
        obtain ⟨w, outcome, d, messages, replies, hreplied⟩ :=
          @Linked.replied codec s hlinked env id r
            q { q with broker := { q.broker with outbox := rest } } hworker hquit
        obtain rfl := Option.some_inj.mp (hworker.symm.trans hp)
        exact .inr ⟨hreplied.stops_eq.symm, _, thread, hreplied.process_eq, hj,
          hlasting.extended q.broker _ _ (fun _ _ hc => hc) hstage⟩
    | main part q q' hworker hdone =>
        obtain rfl := Option.some_inj.mp (hworker.symm.trans hp)
        obtain ⟨hstate, hpairings⟩ := Process.main_pairings hdone
        refine .inr ⟨rfl, q', thread, rfl, ?_, hlasting.extended q.broker _ _
          (fun c state hc => (hstate c).trans hc) hstage⟩
        rcases hpairings with heq | ⟨epoch, heq⟩
        · exact heq ▸ hj
        · exact heq ▸ getElem?_extend hj _
    | call c part q b hworker hadvance =>
        obtain rfl := Option.some_inj.mp (hworker.symm.trans hp)
        exact .inr ⟨rfl, _, thread, rfl, hj,
          hlasting.advanced q.broker b c part _ hadvance hstage⟩
    | transport i part q q' other hworker hthread hdone =>
        obtain rfl := Option.some_inj.mp (hworker.symm.trans hp)
        obtain ⟨hpairings, hstate⟩ := transport_pairings hdone
        exact .inr ⟨rfl, q', thread, rfl, hpairings ▸ hj,
          hlasting.extended q.broker _ _ hstate hstage⟩
    | pairing i part q q' other events hworker hother hdone =>
        obtain rfl := Option.some_inj.mp (hworker.symm.trans hp)
        by_cases heq : j = i
        · subst heq
          obtain rfl := Option.some_inj.mp (hother.symm.trans hj)
          obtain ⟨thread', hj', hstage'⟩ :=
            hlasting.moved q q' j other part hj hdone hstage
          exact .inr ⟨rfl, q', thread', rfl, hj', hstage'⟩
        · exact .inr ⟨rfl, q', thread, rfl, pairing_other hj heq hother hdone,
            hlasting.extended q.broker _ _ (pairing_stateOf hdone) hstage⟩

/-- The attempt is over or failing. -/
def Over (_ : Broker) : PairingStage → Prop
  | .failed | .reporting _ | .ended => True
  | .exchanging | .committing _ _ | .acknowledging _ => False

/-- The attempt will not answer: it is over, or its commit has failed. -/
def Lost (b : Broker) : PairingStage → Prop
  | .committing _ c => ∃ r progress error, b.stateOf c = some (r, progress) ∧
      progress.result? = some (.error error)
  | .failed | .reporting _ | .ended => True
  | .exchanging | .acknowledging _ => False

/-- An attempt only goes on from the exchange, or when its commit was granted. -/
theorem pairing_stage {p p' : Process} {j : ℕ} {thread : PairingThread}
    {part : PairingPart} (hj : p.pairings[j]? = some thread)
    (hdone : p.PairingDone codec j thread part p') :
    ∃ stage, p'.pairings[j]? = some { thread with stage := stage } ∧
      ((∀ b, Over b stage) ∨ thread.stage = .exchanging ∨
        ∃ key c value, thread.stage = .committing key c ∧
          p.broker.returned c = some (.ok value)) := by
  have hset {q : Process} (hpairings : q.pairings = p.pairings)
      (stage : PairingStage) : (q.setPairing j stage).pairings[j]? =
        some { thread with stage := stage } := by
    rw [Process.setPairing_pairings (hpairings ▸ hj), if_pos rfl]
  cases hdone with
  | commit _ _ _ b hstage => exact ⟨_, hset rfl _, .inr (.inl hstage)⟩
  | acknowledge key sent =>
      refine ⟨_, hset rfl _, .inl fun b => ?_⟩
      split <;> trivial
  | granted key c value hstage hreturned =>
      exact ⟨_, hset rfl _, .inr (.inr ⟨key, c, value, hstage, hreturned⟩)⟩
  | report b => exact ⟨_, hset rfl _, .inl fun _ => trivial⟩
  | fail | refused | reported => exact ⟨_, hset rfl _, .inl fun _ => trivial⟩

theorem over_lasting : Lasting codec Over where
  extended _ _ _ _ h := h
  advanced _ _ _ _ _ _ h := h
  moved p p' j thread part hj hdone h := by
    obtain ⟨stage, hj', hstage⟩ := pairing_stage hj hdone
    refine ⟨_, hj', ?_⟩
    rcases hstage with hover | heq | ⟨key, c, value, heq, -⟩
    · exact hover _
    · rw [heq] at h
      exact h.elim
    · rw [heq] at h
      exact h.elim

/-- A call that has failed stays so. -/
theorem failed_advance {b b' : Broker} {c i : ℕ} {part : CallStep} {r : Request}
    {progress : Progress} {error : String} (hadvance : b.advance c part = some b')
    (hi : b.stateOf i = some (r, progress))
    (hresult : progress.result? = some (.error error)) :
    ∃ progress', b'.stateOf i = some (r, progress') ∧
      progress'.result? = some (.error error) := by
  obtain ⟨call, hc, hstep⟩ := Broker.advance_cases hadvance
  by_cases heq : i = c
  · subst heq
    simp only [Broker.stateOf, hc, Option.map_some, Option.some_inj,
      Prod.mk.injEq] at hi
    obtain ⟨rfl, rfl⟩ := hi
    have hput (call' : Call) :=
      (@Broker.stateOf_put b i call hc call' i).trans (if_pos rfl)
    cases hstep with
    | announce hp | enroll hp | send hp | sendFailed _ hp | receive _ _ hp
    | giveUp _ hp => simp [hp, Progress.result?] at hresult
    | withdraw result hp | finish result hp =>
        refine ⟨_, hput _, ?_⟩
        rw [hp] at hresult
        exact hresult
  · obtain ⟨call', hcalls, -⟩ := hstep.moved hc
    refine ⟨progress, ?_, hresult⟩
    rw [← hi]
    simp [Broker.stateOf, hcalls, heq]

theorem lost_lasting : Lasting codec Lost where
  extended b b' stage hold h := by
    cases stage with
    | committing key c =>
        obtain ⟨r, progress, error, hc, hresult⟩ := h
        exact ⟨r, progress, error, hold _ _ hc, hresult⟩
    | _ => exact h
  advanced b b' c part stage hadvance h := by
    cases stage with
    | committing key c' =>
        obtain ⟨r, progress, error, hc, hresult⟩ := h
        obtain ⟨progress', hc', hresult'⟩ := failed_advance hadvance hc hresult
        exact ⟨r, progress', error, hc', hresult'⟩
    | _ => exact h
  moved p p' j thread part hj hdone h := by
    obtain ⟨stage, hj', hstage⟩ := pairing_stage hj hdone
    refine ⟨_, hj', ?_⟩
    rcases hstage with hover | heq | ⟨key, c, value, heq, hreturned⟩
    · have hover' := hover p'.broker
      cases stage <;> first | exact hover'.elim | trivial
    · rw [heq] at h
      exact h.elim
    · rw [heq] at h
      obtain ⟨r, progress, error, hc, hresult⟩ := h
      obtain ⟨r', hc'⟩ := Broker.returned_eq.mp hreturned
      rw [hc', Option.some_inj] at hc
      obtain ⟨-, rfl⟩ := Prod.mk.inj hc
      cases hresult

/-- The loop of a system runs as on its own. -/
theorem Reachable.loop (h : Reachable codec allowed s) :
    MainLoop.Reachable codec s.loop := by
  apply @Transition.Reachable.invariant _ _ _
    (fun s : System => MainLoop.Reachable codec s.loop) _ _ s h
  · intro s hinit
    exact .start hinit.1
  · rintro s s' - hloop ⟨action, -, hact⟩
    cases act_done hact with
    | idle env part process htime => exact hloop.next ⟨env, part, htime, rfl⟩
    | request env id r p caller rest htime =>
        exact hloop.next ⟨env, .worker (.message (.request id r) []), htime, rfl⟩
    | main | call | transport | pairing => exact hloop

/-- The state in which a save was recorded as event `k` is one of the run, and
the store of the save is the supervisor's store there. -/
def SavedAt (codec : KeyCodec) (allowed : System → Action → Prop) (k : ℕ)
    (store : Store) (s : System) : Prop :=
  ∃ saved : System, Reachable codec allowed saved ∧
    ReflTransGen (Step codec allowed) saved s ∧ saved.events.length = k + 1 ∧
      saved.loop.daemon.store = store

/-- A section that records a save leaves its store to the supervisor. -/
theorem proceed_saved {env : Env} {part : Section} {process : Option Process}
    {k : ℕ} {w : Window} {key fp : String} {store : Store}
    (hinv : s.loop.daemon.WindowInvariant)
    (hquit : ¬part.Idle → s.loop.daemon.quit = false)
    (hk : (s.proceed codec env part process).events[k]? =
      some (Event.paired w key fp store)) :
    s.events[k]? = some (Event.paired w key fp store) ∨
      (s.proceed codec env part process).events.length = k + 1 ∧
        (s.proceed codec env part process).loop.daemon.store = store := by
  have hevents : (s.proceed codec env part process).events =
      s.events ++ (s.loop.daemon.pairedIn codec env part).toList := rfl
  rw [hevents] at hk ⊢
  by_cases hlt : k < s.events.length
  · left
    rwa [List.getElem?_append_left hlt] at hk
  · right
    rw [List.getElem?_append_right (by omega)] at hk
    cases hpaired : s.loop.daemon.pairedIn codec env part with
    | none => simp [hpaired] at hk
    | some e =>
        rw [hpaired, Option.toList_some, List.getElem?_singleton] at hk
        split at hk
        · next hlast =>
          cases hk
          obtain ⟨-, -, id, hpart⟩ := Daemon.pairedIn_eq hpaired
          have hrunning : s.loop.daemon.quit = false :=
            hquit fun hidle => hidle _ ⟨id, hpart⟩
          constructor
          · simp only [Option.toList_some, List.length_append, List.length_singleton]
            omega
          · exact MainLoop.step_saved hinv hrunning hpaired
        · cases hk

/-- Every save in the history has left its store to the supervisor. -/
theorem Reachable.saved (h : Reachable codec allowed s) :
    ∀ (k : ℕ) (w : Window) (key fp : String) (store : Store),
      s.events[k]? = some (Event.paired w key fp store) →
        SavedAt codec allowed k store s := by
  apply @Transition.Reachable.invariant _ _ _ (fun s : System =>
    ∀ (k : ℕ) (w : Window) (key fp : String) (store : Store),
      s.events[k]? = some (Event.paired w key fp store) →
        SavedAt codec allowed k store s) _ _ s h
  · intro s hinit k w key fp store hk
    simp [hinit.2.2] at hk
  · intro s s' hreach hsaved hstep k w key fp store hk
    have hold (hk : s.events[k]? = some (Event.paired w key fp store)) :
        SavedAt codec allowed k store s' := by
      obtain ⟨saved, hbefore, hrun, hlength, hstore⟩ := hsaved k w key fp store hk
      exact ⟨saved, hbefore, hrun.tail hstep, hlength, hstore⟩
    have hnew (hlast : s'.events.length = k + 1 ∧ s'.loop.daemon.store = store) :
        SavedAt codec allowed k store s' :=
      ⟨s', hreach.next hstep, .refl, hlast⟩
    have hinv := (Reachable.loop hreach).windowInvariant
    obtain ⟨action, -, hact⟩ := hstep
    cases act_done hact with
    | idle env part process htime hidle =>
        exact (proceed_saved hinv (absurd hidle) hk).elim hold hnew
    | request env id r p caller rest htime hquit =>
        exact (proceed_saved hinv (fun _ => hquit) hk).elim hold hnew
    | main | call | transport => exact hold hk
    | pairing j part p p' thread events hworker hthread hdone hevents =>
        apply hold
        by_cases hlt : k < s.events.length
        · rwa [List.getElem?_append_left hlt] at hk
        · rw [List.getElem?_append_right (by omega)] at hk
          have hmem := List.mem_of_getElem? hk
          rw [hevents, Option.mem_toList, Option.map_eq_some_iff] at hmem
          obtain ⟨sent, -, hsent⟩ := hmem
          cases hsent

/-- The events of a step. -/
theorem Done.events (hdone : Done codec s action s') {e : Event}
    (he : e ∈ s'.events) : e ∈ s.events ∨ (∀ worker j epoch key,
      e ≠ .acknowledged worker j epoch key) ∨ ∃ p j epoch key, s.worker = some p ∧
        p.pairings[j]? = some ⟨epoch, .acknowledging key⟩ ∧
          e = .acknowledged s.loop.daemon.stops j epoch key ∧
            Placed Over s.loop.daemon.stops j s' := by
  have hsection {env : Env} {part : Section} {process : Option Process}
      (he : e ∈ (s.proceed codec env part process).events) : e ∈ s.events ∨
        ∀ worker j epoch key, e ≠ .acknowledged worker j epoch key := by
    rcases List.mem_append.mp he with hold | hnew
    · exact .inl hold
    · right
      rintro worker j epoch key rfl
      exact pairedIn_quiet hnew
  cases hdone with
  | idle => exact (hsection he).imp_right .inl
  | request => exact (hsection he).imp_right .inl
  | main | call | transport => exact .inl he
  | pairing j part q q' thread events hworker hthread hdone hevents =>
      rcases List.mem_append.mp he with hold | hnew
      · exact .inl hold
      · right
        by_cases hother : ∀ worker j epoch key,
            e ≠ .acknowledged worker j epoch key
        · exact .inl hother
        · simp only [not_forall, not_not] at hother
          obtain ⟨worker, i, epoch, key, rfl⟩ := hother
          obtain ⟨rfl, rfl, hanswers⟩ := answers_of_mem (hevents ▸ hnew)
          refine .inr ⟨q, i, epoch, key, hworker, hanswers, rfl, .inr ⟨rfl, ?_⟩⟩
          obtain rfl := Option.some_inj.mp (hthread.symm.trans hanswers)
          obtain ⟨stage, hj, hstage⟩ := pairing_stage hthread hdone
          rcases hstage with hover | hother | ⟨_, _, _, hother, -⟩
          · exact ⟨q', _, rfl, hj, hover _⟩
          · cases hother
          · cases hother

/-- An attempt that has answered is over. -/
def Answered (s : System) : Prop :=
  ∀ worker j epoch key, Event.acknowledged worker j epoch key ∈ s.events →
    Placed Over worker j s

theorem Done.answered (hlinked : Linked codec s) (h : Answered s)
    (hdone : Done codec s action s') : Answered s' := by
  intro worker j epoch key he
  rcases hdone.events he with hold | hnone | ⟨p, i, _, _, -, -, heq, hplaced⟩
  · exact (h worker j epoch key hold).step over_lasting hlinked hdone
  · exact absurd rfl (hnone worker j epoch key)
  · obtain ⟨rfl, rfl, -, -⟩ := Event.acknowledged.inj heq
    exact hplaced

/-- An attempt that is lost and has not answered. -/
def Silent (n j : ℕ) (s : System) : Prop :=
  (∀ epoch key, Event.acknowledged n j epoch key ∉ s.events) ∧ Placed Lost n j s

theorem Done.silent {n j : ℕ} (hlinked : Linked codec s) (h : Silent n j s)
    (hdone : Done codec s action s') : Silent n j s' := by
  refine ⟨fun epoch key he => ?_, h.2.step lost_lasting hlinked hdone⟩
  rcases hdone.events he with hold | hnone | ⟨p, i, _, _, hp, hi, heq, -⟩
  · exact h.1 epoch key hold
  · exact absurd rfl (hnone n j epoch key)
  · obtain ⟨rfl, rfl, -, -⟩ := Event.acknowledged.inj heq
    rcases h.2 with hgone | ⟨-, q, thread, hq, hj, hlost⟩
    · exact absurd hgone (lt_irrefl _)
    · obtain rfl := Option.some_inj.mp (hq.symm.trans hp)
      obtain rfl := Option.some_inj.mp (hj.symm.trans hi)
      exact hlost

theorem Reachable.answered (h : Reachable codec allowed s) : Answered s := by
  refine @Transition.Reachable.invariant _ _ _ Answered ?_ ?_ s h
  · intro s hinit worker j epoch key he
    simp [hinit.2.2] at he
  · rintro s s' hreachable hanswered ⟨action, -, hact⟩
    exact (act_done hact).answered (Reachable.linked hreachable) hanswered

/-! ## Main result -/

/-- A success answer for a key has the completed save of its host before it,
made in the window of the attempt, with the store that the supervisor held after
it, and an attempt whose commit has failed never gives one. -/
theorem acknowledged_after_save (h : Reachable codec Unrestricted s) :
    (∀ (k worker j epoch : ℕ) (key : String),
      s.events[k]? = some (Event.acknowledged worker j epoch key) →
      ∃ k' < k, ∃ (w : Window) (fp name : String) (store : Store),
        s.events[k']? = some (Event.paired w key fp store) ∧ w.epoch = epoch ∧
          hostKey codec key = .ok (fp, name) ∧ store.trusts fp ∧
            store.journal.getLast? = some (.hosts store.hosts) ∧
              SavedAt codec Unrestricted k' store s) ∧
    (∀ (p : Process) (j c : ℕ) (thread : PairingThread) (key error : String)
      (call : Call), s.worker = some p → p.pairings[j]? = some thread →
      thread.stage = .committing key c → p.broker.calls[c]? = some call →
      call.progress.result? = some (.error error) →
      ∀ later, ReflTransGen (Step codec Unrestricted) s later → ∀ epoch key',
        Event.acknowledged s.loop.daemon.stops j epoch key' ∉ later.events) := by
  constructor
  · intro k worker j epoch key hk
    obtain ⟨k', w, fp, store, hk', hepoch, hdurable⟩ :=
      (Reachable.commits h).ordered k worker j epoch key hk
    obtain ⟨name, hkey⟩ := hdurable.accepted
    rw [List.getElem?_take] at hk'
    split at hk'
    · next hlt =>
      exact ⟨k', hlt, w, fp, name, store, hk', hepoch, hkey, hdurable.trusts,
        hdurable.saved, Reachable.saved h k' w key fp store hk'⟩
    · cases hk'
  · intro p j c thread key error call hp hj hstage hc hresult later hrun epoch key'
    have hlost : Lost p.broker thread.stage := by
      rw [hstage]
      exact ⟨call.request, call.progress, error, by simp [Broker.stateOf, hc],
        hresult⟩
    have hsilent : Silent s.loop.daemon.stops j s := by
      refine ⟨fun epoch key he => ?_, .inr ⟨rfl, p, thread, hp, hj, hlost⟩⟩
      rcases Reachable.answered h _ _ _ _ he with hgone | ⟨-, q, other, hq, hi, hover⟩
      · exact absurd hgone (lt_irrefl _)
      · obtain rfl := Option.some_inj.mp (hq.symm.trans hp)
        obtain rfl := Option.some_inj.mp (hi.symm.trans hj)
        rw [hstage] at hover
        exact hover
    have hrun' : Reachable codec Unrestricted later ∧
        Silent s.loop.daemon.stops j later := by
      induction hrun with
      | refl => exact ⟨h, hsilent⟩
      | tail _ hlast ih =>
          obtain ⟨action, hallowed, hact⟩ := hlast
          exact ⟨Transition.Reachable.next ih.1 ⟨action, hallowed, hact⟩,
            (act_done hact).silent (Reachable.linked ih.1) ih.2⟩
    exact hrun'.2.1 epoch key'

/-- A computer has sent its key in an open window. -/
def committing : List Action :=
  connecting ++
    [.supervisor sound (.control .pairStart), .main .receive, .main .receive,
      .main .acceptPairing, .pairing 0 (.commit "QUFB host"), .call 1 .announce,
      .call 1 .enroll, .call 1 (.send (.ok ())),
      .supervisor sound (.worker (.message (.request 1 (.authenticated 1 "aa")) []))]

/-- The key is saved and the computer learns of it. -/
def acknowledging : List Action :=
  [.supervisor sound
      (.worker (.message (.request 2 (.pairResult 1 (some "QUFB host"))) [])),
    .main .receive, .main .receive, .main .receive, .main .receive,
    .call 1 .receive, .call 1 .withdraw, .call 1 .finish, .pairing 0 .resume,
    .pairing 0 (.acknowledge true)]

theorem unrestricted_reachable {actions : List Action}
    (hrun : paired.perform MainLoop.constantCodec actions = some s) :
    Reachable MainLoop.constantCodec Unrestricted s :=
  perform_reachable (fun _ _ _ => trivial) paired_reachable hrun

/-- A success answer after its save, and a commit that timed out. -/
theorem acknowledged_after_save_runs :
    (∃ s, paired.perform MainLoop.constantCodec (committing ++ acknowledging) =
        some s ∧ ∃ (k' : ℕ) (w : Window) (fp : String) (store : Store), k' < 1 ∧
          s.events[k']? = some (Event.paired w "QUFB host" fp store) ∧
            store.trusts fp) ∧
    (∃ s, paired.perform MainLoop.constantCodec
        (committing ++ [.call 1 (.giveUp "timed out")]) = some s ∧
      ∀ later, ReflTransGen (Step MainLoop.constantCodec Unrestricted) s later →
        ∀ epoch key, Event.acknowledged 0 0 epoch key ∉ later.events) := by
  constructor
  · have hrun : ((paired.perform MainLoop.constantCodec
        (committing ++ acknowledging)).map fun s => s.events[1]?) =
        some (some (.acknowledged 0 0 1 "QUFB host")) := by decide +kernel
    obtain ⟨s, hs, hevent⟩ := Option.map_eq_some_iff.mp hrun
    obtain ⟨hsaved, -⟩ := acknowledged_after_save (unrestricted_reachable hs)
    obtain ⟨k', hlt, w, fp, name, store, hk', -, -, htrusts, -⟩ :=
      hsaved 1 0 0 1 "QUFB host" hevent
    exact ⟨s, hs, k', w, fp, store, hlt, hk', htrusts⟩
  · have hrun : ((paired.perform MainLoop.constantCodec
        (committing ++ [.call 1 (.giveUp "timed out")])).bind fun s =>
          s.worker.map fun p => (p.pairings, p.broker.calls[1]?,
            s.loop.daemon.stops)) =
        some ([⟨1, .committing "QUFB host" 1⟩], some ⟨2,
          .pairResult 1 (some "QUFB host"), .settled (.error "timed out"), none,
          none⟩, 0) := by rfl
    obtain ⟨s, hs, hmap⟩ := Option.bind_eq_some_iff.mp hrun
    obtain ⟨p, hp, heq⟩ := Option.map_eq_some_iff.mp hmap
    simp only [Prod.mk.injEq] at heq
    obtain ⟨hpairings, hcall, hstops⟩ := heq
    obtain ⟨-, hnever⟩ := acknowledged_after_save (unrestricted_reachable hs)
    refine ⟨s, hs, fun later hlater epoch key => ?_⟩
    have hnone := hnever p 0 1 _ "QUFB host" "timed out" _ hp
      (by rw [hpairings]; rfl) rfl hcall rfl later hlater epoch key
    rwa [hstops] at hnone

end System

end Altdb
