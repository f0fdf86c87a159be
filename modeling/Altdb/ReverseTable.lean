import Altdb.StreamSteps

/-!
# The reverse table after a failed command

A `reverse:` command is answered with `OKAY`, a list or `FAIL`.  A failed
command leaves the table as it was, unless an entry had been removed when the
supervisor refused the rest: a rebind removes the old listener before it binds
the new one, and a listener is removed before its binder is closed.
-/

namespace Altdb.Connection

open Fallible

variable {io : Io} {c c' : Connection}

/-! ## What can go wrong after a removal -/

/-- The supervisor does not close the binder of the listener. -/
def CloseFails (io : Io) (transport : ℕ) (spec : String) : Prop :=
  ∃ error, io.broker (.closeReverse transport spec) = .error error

/-- The supervisor does not answer with one listener that can be used. -/
def BindFails (io : Io) (transport : ℕ) (spec : String) : Prop :=
  match io.broker (.bindReverse transport spec) with
  | .error _ => True
  | .ok (_, [fd]) => ∃ error, io.nonblocking fd = .error error
  | .ok (_, _) => True

/-- The rebind removes the entry and then fails.  With `norebind:` an entry
that exists is never removed. -/
def HalfRebound (io : Io) (command : String) (c : Connection) : Prop :=
  stripPrefix "norebind:" command = none ∧
  ∃ localSpec remoteSpec,
    splitOnce ';' command = some (localSpec, remoteSpec) ∧
    validateEndpoint localSpec true = .ok () ∧
    validateEndpoint remoteSpec false = .ok () ∧
    localSpec ∈ c.reverse ∧
    (CloseFails io c.transport localSpec ∨
      16 ≤ (c.reverse.erase localSpec).size ∨ BindFails io c.transport localSpec)

/-- The command removes an entry and then fails. -/
def HalfDone (io : Io) (command : String) (c : Connection) : Prop :=
  if command = "list-forward" then False
  else if command = "killforward-all" then
    ∃ spec ∈ c.reverse.keys, CloseFails io c.transport spec
  else
    match stripPrefix "killforward:" command with
    | some spec => spec ∈ c.reverse ∧ CloseFails io c.transport spec
    | none =>
        match stripPrefix "forward:" command with
        | none => False
        | some command => HalfRebound io command c

/-! ## Listeners -/

/-- A listener is gone from the table, whether its binder was closed or not. -/
theorem removeReverse_spec (spec : String) :
    wp (removeReverse io spec)
      (fun _ c' => spec ∈ c.reverse ∧ ¬CloseFails io c.transport spec ∧
        c'.reverse = c.reverse.erase spec ∧ c'.transport = c.transport)
      (fun _ c' => spec ∉ c.reverse ∧ c'.reverse = c.reverse ∨
        spec ∈ c.reverse ∧ CloseFails io c.transport spec ∧ spec ∉ c'.reverse)
      c := by
  simp only [removeReverse, wp_bind, wp_get, wp_ensure, wp_modify]
  refine ⟨fun hspec => wp_mono (call_spec _) ?_ ?_, fun hspec => .inl ⟨hspec, trivial⟩⟩
  · rintro value _ ⟨hclosed, rfl⟩
    refine ⟨hspec, ?_, rfl, rfl⟩
    rintro ⟨error, herror⟩
    cases hclosed.symm.trans herror
  · rintro error _ ⟨hfailed, rfl⟩
    exact .inr ⟨hspec, ⟨error, hfailed⟩, by simp⟩

theorem reverseBind_spec (localSpec remoteSpec : String) :
    wp (reverseBind io localSpec remoteSpec)
      (fun _ _ => ¬(16 ≤ c.reverse.size ∨ BindFails io c.transport localSpec))
      (fun _ c' => (16 ≤ c.reverse.size ∨ BindFails io c.transport localSpec) ∧
        c'.reverse = c.reverse) c := by
  simp only [reverseBind, wp_bind, wp_get, wp_ensure]
  refine ⟨fun hsize => wp_mono (call_spec _) ?_ ?_,
    fun hsize => ⟨.inl (not_lt.mp hsize), trivial⟩⟩
  · rintro ⟨actual, fds⟩ _ ⟨hbound, rfl⟩
    dsimp only
    split
    · next fd =>
      simp only [wp_bind, wp_lift, wp_modify]
      have hfails : BindFails io c.transport localSpec ↔
          ∃ error, io.nonblocking fd = .error error := by
        rw [BindFails, hbound]
      refine ⟨fun value hvalue => ?_, fun error herror => ?_⟩
      · have hnot : ¬(16 ≤ c.reverse.size ∨ BindFails io c.transport localSpec) := by
          rw [hfails]
          rintro (hfull | ⟨error, herror⟩)
          · omega
          · cases hvalue.symm.trans herror
        split <;> exact hnot
      · exact ⟨.inr (hfails.mpr ⟨error, herror⟩), trivial⟩
    · next hfds =>
      refine ⟨.inr ?_, rfl⟩
      rw [BindFails, hbound]
      split
      · next heq => cases heq
      · next fd heq => exact (hfds fd (Prod.mk.inj (Except.ok.inj heq)).2).elim
      · trivial
  · rintro error _ ⟨hfailed, rfl⟩
    refine ⟨.inr ?_, rfl⟩
    rw [BindFails, hfailed]
    trivial

/-! ## Commands -/

/-- What a command does to the table: it returns only when it is not half
done, and when it fails the table tells whether it is. -/
def Settles (halfDone : Prop) (c : Connection)
    (method : EStateM String Connection Bytes) : Prop :=
  wp method (fun _ _ => ¬halfDone)
    (fun _ c' => halfDone ∧ c'.reverse ≠ c.reverse ∨
      ¬halfDone ∧ c'.reverse = c.reverse) c

theorem Settles.throw {halfDone : Prop} (h : ¬halfDone) (error : String) :
    Settles halfDone c (throw error) := .inr ⟨h, rfl⟩

theorem Settles.of_iff {halfDone halfDone' : Prop} {method : EStateM String Connection Bytes}
    (h : Settles halfDone c method) (hiff : halfDone' ↔ halfDone) :
    Settles halfDone' c method := by
  rw [propext hiff]
  exact h

theorem ne_of_mem {spec : String} (hspec : spec ∈ c.reverse)
    (hgone : spec ∉ c'.reverse) : c'.reverse ≠ c.reverse := by
  intro hsame
  rw [hsame] at hgone
  exact hgone hspec

theorem killForward_settles (spec : String) (body : Bytes) :
    Settles (spec ∈ c.reverse ∧ CloseFails io c.transport spec) c (do
      removeReverse io spec
      return body) := by
  simp only [Settles, wp_bind]
  refine wp_mono (removeReverse_spec spec) ?_ ?_
  · rintro _ _ ⟨-, hclosed, -, -⟩ ⟨-, hfailed⟩
    exact hclosed hfailed
  · rintro error c' (⟨hspec, hsame⟩ | ⟨hspec, hfailed, hgone⟩)
    · exact .inr ⟨fun h => hspec h.1, hsame⟩
    · exact .inl ⟨⟨hspec, hfailed⟩, ne_of_mem hspec hgone⟩

/-- The listeners that are still to be removed are there, and the binders of
the others are closed. -/
structure Clearing (io : Io) (c : Connection) (rest : List String)
    (c' : Connection) : Prop where
  transport : c'.transport = c.transport
  present : ∀ spec ∈ rest, spec ∈ c'.reverse
  distinct : rest.Nodup
  closed : ∀ spec ∈ c.reverse.keys, spec ∉ rest → ¬CloseFails io c.transport spec

theorem killForwardAll_settles (body : Bytes) :
    Settles (∃ spec ∈ c.reverse.keys, CloseFails io c.transport spec) c (do
      c.reverse.keys.forM (removeReverse io)
      return body) := by
  simp only [Settles, wp_bind]
  have hloop := @wp_forM _ _ _ (removeReverse io)
    (fun rest c' => Clearing io c rest c' ∧ rest ⊆ c.reverse.keys)
    (fun _ c' => ∃ spec ∈ c.reverse.keys, CloseFails io c.transport spec ∧
      spec ∉ c'.reverse) ?_ c.reverse.keys c ⟨?_, List.Subset.refl _⟩
  · refine wp_mono hloop ?_ ?_
    · rintro _ c' ⟨hcleared, -⟩ ⟨spec, hspec, hfailed⟩
      exact hcleared.closed spec hspec List.not_mem_nil hfailed
    · rintro error c' ⟨spec, hspec, hfailed, hgone⟩
      exact .inl ⟨⟨spec, hspec, hfailed⟩,
        ne_of_mem (Std.TreeMap.mem_keys.mp hspec) hgone⟩
  · rintro spec rest c₁ ⟨h, hsub⟩
    obtain ⟨hnew, hdistinct⟩ := List.nodup_cons.mp h.distinct
    have hpresent := h.present spec List.mem_cons_self
    refine wp_mono (removeReverse_spec spec) ?_ ?_
    · rintro _ c₂ ⟨-, hclosed, hreverse, htransport⟩
      rw [h.transport] at hclosed
      refine ⟨⟨htransport.trans h.transport, fun other hother => ?_, hdistinct,
        fun other hother hdone => ?_⟩, fun other hother => hsub (List.mem_cons_of_mem _ hother)⟩
      · rw [hreverse, Std.TreeMap.mem_erase]
        refine ⟨fun heq => hnew ?_, h.present other (List.mem_cons_of_mem _ hother)⟩
        rwa [Std.LawfulEqCmp.eq_of_compare heq]
      · by_cases hsame : other = spec
        · exact hsame ▸ hclosed
        · exact h.closed other hother fun hmem =>
            (List.mem_cons.mp hmem).elim hsame hdone
    · rintro error c₂ (⟨habsent, -⟩ | ⟨-, hfailed, hgone⟩)
      · exact absurd hpresent habsent
      · exact ⟨spec, hsub List.mem_cons_self, h.transport ▸ hfailed, hgone⟩
  · refine ⟨rfl, fun spec hspec => Std.TreeMap.mem_keys.mp hspec, ?_,
      fun spec hspec hdone => absurd hspec hdone⟩
    exact Std.TreeMap.nodup_keys

/-- A rebind fails after the removal when the binder is not closed or the new
listener is not bound. -/
theorem rebind_settles {localSpec : String} (remoteSpec : String)
    (hspec : localSpec ∈ c.reverse) :
    Settles (CloseFails io c.transport localSpec ∨
      16 ≤ (c.reverse.erase localSpec).size ∨ BindFails io c.transport localSpec) c (do
      removeReverse io localSpec
      reverseBind io localSpec remoteSpec) := by
  simp only [Settles, wp_bind]
  refine wp_mono (removeReverse_spec localSpec) ?_ ?_
  · rintro _ c₁ ⟨-, hclosed, hreverse, htransport⟩
    have hgone : c.reverse.erase localSpec ≠ c.reverse := by
      intro hsame
      rw [← hsame] at hspec
      simp at hspec
    have hbind := @reverseBind_spec io c₁ localSpec remoteSpec
    rw [hreverse, htransport] at hbind
    refine wp_mono hbind ?_ ?_
    · rintro _ _ hbound (hfailed | hfailed)
      · exact hclosed hfailed
      · exact hbound hfailed
    · rintro error c₂ ⟨hfailed, hsame⟩
      exact .inl ⟨.inr hfailed, hsame ▸ hgone⟩
  · rintro error c₁ (⟨habsent, -⟩ | ⟨-, hfailed, hgone⟩)
    · exact absurd hspec habsent
    · exact .inl ⟨.inl hfailed, ne_of_mem hspec hgone⟩

/-- A listener that was not there is bound or not, and nothing is removed. -/
theorem bind_settles {halfDone : Prop} (h : ¬halfDone) (localSpec remoteSpec : String) :
    Settles halfDone c (reverseBind io localSpec remoteSpec) :=
  wp_mono (reverseBind_spec localSpec remoteSpec) (fun _ _ _ => h)
    fun _ _ hfailed => .inr ⟨h, hfailed.2⟩

theorem reverseForward_settles (command : String) :
    Settles (HalfRebound io command c) c (reverseForward io command) := by
  unfold reverseForward
  cases hstrip : stripPrefix "norebind:" command with
  | some rest =>
      have hnot : ¬HalfRebound io command c := fun h => by
        cases hstrip.symm.trans h.1
      dsimp only
      split
      · exact .throw hnot _
      · next localSpec remoteSpec _ =>
        simp only [Settles, wp_bind, wp_lift, wp_get, wp_ite, wp_ensure]
        refine ⟨fun _ _ => ⟨fun _ _ => ⟨fun _ => ⟨fun hrebind => (by cases hrebind),
          fun _ => .inr ⟨hnot, trivial⟩⟩, fun _ => bind_settles hnot _ _⟩,
          fun _ _ => .inr ⟨hnot, trivial⟩⟩, fun _ _ => .inr ⟨hnot, trivial⟩⟩
  | none =>
      dsimp only
      split
      · next hsplit =>
        refine .throw ?_ _
        rintro ⟨-, localSpec, remoteSpec, hsome, -⟩
        cases hsplit.symm.trans hsome
      · next localSpec remoteSpec hsplit =>
        -- The command names the two endpoints.
        have hhalf : HalfRebound io command c ↔
            validateEndpoint localSpec true = .ok () ∧
            validateEndpoint remoteSpec false = .ok () ∧ localSpec ∈ c.reverse ∧
            (CloseFails io c.transport localSpec ∨
              16 ≤ (c.reverse.erase localSpec).size ∨
              BindFails io c.transport localSpec) := by
          refine ⟨?_, fun h => ⟨hstrip, localSpec, remoteSpec, hsplit, h⟩⟩
          rintro ⟨-, localSpec', remoteSpec', hsplit', h⟩
          obtain ⟨rfl, rfl⟩ := Prod.mk.inj (Option.some_inj.mp (hsplit.symm.trans hsplit'))
          exact h
        refine .of_iff ?_ hhalf
        simp only [Settles, wp_bind, wp_lift, wp_get, wp_ite, wp_ensure]
        refine ⟨fun _ hlocal => ⟨fun _ hremote => ⟨fun hspec => ⟨fun _ => ?_,
          fun hrebind => (hrebind trivial).elim⟩, fun hspec => ?_⟩, fun error herror => ?_⟩,
          fun error herror => ?_⟩
        · have hrebound := @rebind_settles io c localSpec remoteSpec hspec
          have hsettled := hrebound.of_iff (hhalf.trans
            ⟨fun h => h.2.2.2, fun h => ⟨hlocal, hremote, hspec, h⟩⟩)
          rw [propext hhalf] at hsettled
          simpa only [Settles, wp_bind] using hsettled
        · exact bind_settles (fun h => hspec h.2.2.1) _ _
        · exact .inr ⟨fun h => (by cases herror.symm.trans h.2.1), trivial⟩
        · exact .inr ⟨fun h => (by cases herror.symm.trans h.1), trivial⟩

theorem reverseCommand_settles (command : String) :
    Settles (HalfDone io command c) c (reverseCommand io command) := by
  unfold reverseCommand HalfDone
  split
  · exact fun h => h
  · split
    · exact killForwardAll_settles _
    · cases stripPrefix "killforward:" command with
      | some spec => exact killForward_settles spec _
      | none =>
          cases stripPrefix "forward:" command with
          | some command => exact reverseForward_settles command
          | none => exact .throw (fun h => h) _

/-! ## The reply -/

/-- The reply to a command that failed. -/
def failReply : Bytes :=
  let m := "reverse operation rejected"
  utf8 ("FAIL" ++ hex4 m.utf8ByteSize ++ m)

/-- The payload of an `OPEN` that carries a service name. -/
structure Names (data : Bytes) (name : String) : Prop where
  form : data ≠ [] ∧ data.length ≤ 4096 ∧ data.getLast? = some 0
  text : String.fromUTF8? ⟨data.dropLast.toArray⟩ = some name
  nul : '\x00' ∉ name.toList

/-- The source for a `reverse:` name is the reply to its command. -/
theorem openService_reverse {data : Bytes} {name command : String}
    (h : Names data name) (hcommand : stripPrefix "reverse:" name = some command) :
    openService io data c =
      match reverseCommand io command c with
      | .ok body c' => .ok (.bytes body) c'
      | .error _ c' => .ok (.bytes failReply) c' := by
  have hroot : ¬(name = "root:" ∨ name = "unroot:") := by
    rintro (rfl | rfl)
    · cases (show stripPrefix "reverse:" "root:" = none by decide +kernel).symm.trans hcommand
    · cases (show stripPrefix "reverse:" "unroot:" = none by decide +kernel).symm.trans hcommand
  have hopen (post : Source → Connection → Prop) (fail : String → Connection → Prop) :
      wp (openService io data) post fail c ↔ wp (reverseCommand io command)
        (fun body c' => post (.bytes body) c') (fun _ c' => post (.bytes failReply) c') c := by
    simp only [openService, h.text, if_neg hroot, hcommand, wp_bind, wp_ensure, wp_attempt]
    exact ⟨fun hwp => (hwp.1 h.form).1 h.nul, fun hwp => ⟨fun _ => ⟨fun _ => hwp,
      fun hnul => absurd h.nul hnul⟩, fun hform => absurd h.form hform⟩⟩
  cases hrun : reverseCommand io command c with
  | ok body c' =>
      refine eq_ok_of_wp ((hopen _ _).mpr ?_)
      rw [wp, hrun]
      exact ⟨rfl, rfl⟩
  | error error c' =>
      refine eq_ok_of_wp ((hopen _ _).mpr ?_)
      rw [wp, hrun]
      exact ⟨rfl, rfl⟩

theorem utf8_injective : Function.Injective utf8 := by
  intro s t h
  exact String.toByteArray_inj.mp (ByteArray.ext (Array.toList_inj.mp h))

theorem ne_failReply {s : String} (h : s.toList.head? ≠ some 'F') : utf8 s ≠ failReply := by
  intro heq
  rw [utf8_injective heq] at h
  exact h (by decide +kernel)

theorem digitChar_ne {d : ℕ} (h : d < 16) : d.digitChar ≠ 'F' := by
  interval_cases d <;> decide

theorem not_mem_toDigits (n : ℕ) : 'F' ∉ Nat.toDigits 16 n := by
  induction n using Nat.strong_induction_on with
  | _ n ih =>
      rw [Nat.toDigits_eq_if (by decide)]
      split
      · next hn => exact fun hmem => digitChar_ne hn (List.mem_singleton.mp hmem).symm
      · intro hmem
        rcases List.mem_append.mp hmem with hmem | hmem
        · exact ih (n / 16) (by omega) hmem
        · exact digitChar_ne (n.mod_lt (by decide)) (List.mem_singleton.mp hmem).symm

/-- A length is written with lower-case digits. -/
theorem hex4_head (n : ℕ) (rest : String) : (hex4 n ++ rest).toList.head? ≠ some 'F' := by
  have hdigits : 'F' ∉ (hex4 n).toList := by
    rw [hex4, String.toList_ofList, List.leftpad]
    intro hmem
    rcases List.mem_append.mp hmem with hmem | hmem
    · cases List.eq_of_mem_replicate hmem
    · exact not_mem_toDigits n hmem
  have hsome : (hex4 n).toList ≠ [] := by
    rw [hex4, String.toList_ofList, List.leftpad]
    simp [Nat.toDigits_ne_nil]
  obtain ⟨digit, digits, hdigit⟩ := List.exists_cons_of_ne_nil hsome
  rw [String.toList_append, hdigit]
  rintro ⟨⟩
  exact hdigits (hdigit ▸ List.mem_cons_self)

/-- The reply to a command that succeeds.  The port is the one that the supervisor
names. -/
inductive Answer (io : Io) (c : Connection) (command : String) : Bytes → Prop
  | list (hcommand : command = "list-forward") :
      Answer io c command (utf8 (hex4 (String.join (c.reverse.toList.map fun entry =>
        "altdb " ++ entry.1 ++ " " ++ entry.2.target ++ "\n")).utf8ByteSize ++
        String.join (c.reverse.toList.map fun entry =>
          "altdb " ++ entry.1 ++ " " ++ entry.2.target ++ "\n")))
  | okay (hcommand : command ≠ "list-forward") : Answer io c command (utf8 "OKAY")
  | port (hcommand : command ≠ "list-forward") (transport : ℕ)
      (localSpec actual port : String) (fds : List Fd)
      (hlocal : validateEndpoint localSpec true = .ok ())
      (hbound : io.broker (.bindReverse transport localSpec) = .ok (actual, fds))
      (hport : stripPrefix "tcp:" actual = some port) :
      Answer io c command (utf8 ("OKAY" ++ hex4 port.utf8ByteSize ++ port))

theorem reverseBind_answer {command localSpec : String} (hcommand : command ≠ "list-forward")
    (hlocal : validateEndpoint localSpec true = .ok ()) (remoteSpec : String)
    (c₀ : Connection) :
    wp (reverseBind io localSpec remoteSpec) (fun body _ => Answer io c₀ command body)
      (fun _ _ => True) c := by
  simp only [reverseBind, wp_bind, wp_get, wp_ensure]
  refine ⟨fun _ => wp_mono (call_spec _) ?_ fun _ _ _ => trivial, fun _ => trivial⟩
  rintro ⟨actual, fds⟩ c₁ ⟨hbound, -⟩
  dsimp only
  split
  · simp only [wp_bind, wp_lift, wp_modify]
    refine ⟨fun _ _ => ?_, fun _ _ => trivial⟩
    split
    · next port hport => exact .port hcommand _ _ _ _ _ hlocal hbound hport
    · exact .okay hcommand
  · trivial

theorem reverseForward_answer {command : String} (hcommand : command ≠ "list-forward")
    (rest : String) :
    wp (reverseForward io rest) (fun body _ => Answer io c command body)
      (fun _ _ => True) c := by
  unfold reverseForward
  dsimp only
  split
  · trivial
  · next localSpec remoteSpec _ =>
    simp only [wp_bind, wp_lift, wp_get, wp_ite, wp_ensure]
    refine ⟨fun _ hlocal => ⟨fun _ _ => ⟨fun _ => ⟨fun _ => ?_, fun _ => trivial⟩,
      fun _ => reverseBind_answer hcommand hlocal _ _⟩, fun _ _ => trivial⟩, fun _ _ => trivial⟩
    exact wp_intro (fun _ _ _ => reverseBind_answer hcommand hlocal _ _) fun _ _ _ => trivial

theorem reverseCommand_answer (command : String) :
    wp (reverseCommand io command) (fun body _ => Answer io c command body)
      (fun _ _ => True) c := by
  unfold reverseCommand
  split
  · next hlist => exact .list hlist
  · next hlist =>
    split
    · simp only [wp_bind, wp_get]
      exact wp_intro (fun _ _ _ => .okay hlist) fun _ _ _ => trivial
    · cases stripPrefix "killforward:" command with
      | some spec =>
          simp only [wp_bind]
          exact wp_intro (fun _ _ _ => .okay hlist) fun _ _ _ => trivial
      | none =>
          cases stripPrefix "forward:" command with
          | none => trivial
          | some rest => exact reverseForward_answer hlist rest

/-- A command that succeeds is not answered with the failure. -/
theorem Answer.ne_failReply {command : String} {body : Bytes} (h : Answer io c command body) :
    body ≠ failReply := by
  cases h with
  | list => exact Connection.ne_failReply (hex4_head _ _)
  | okay => exact Connection.ne_failReply (by decide)
  | port =>
      apply Connection.ne_failReply
      have hhead : "OKAY".toList = ['O', 'K', 'A', 'Y'] := by decide
      rw [String.append_assoc, String.toList_append, hhead]
      rintro ⟨⟩

/-- A command that is answered with `FAIL` leaves the table as it was, exactly
when it is not half done. -/
theorem fail_keeps_table (io : Io) (c : Connection) (data : Bytes) (name command : String)
    (hname : Names data name) (hcommand : stripPrefix "reverse:" name = some command) :
    (∀ c', openService io data c = .ok (.bytes failReply) c' → c'.reverse = c.reverse) ↔
      ¬HalfDone io command c := by
  rw [openService_reverse hname hcommand]
  have hsettles := @reverseCommand_settles io c command
  have hanswer := @reverseCommand_answer io c command
  cases hrun : reverseCommand io command c with
  | ok body c' =>
      have hdone := wp_of_ok hsettles hrun
      refine ⟨fun _ => hdone, fun _ c₁ hreply => ?_⟩
      obtain ⟨hsource, -⟩ := EStateM.Result.ok.inj hreply
      exact absurd (Source.bytes.inj hsource) (wp_of_ok hanswer hrun).ne_failReply
  | error error c' =>
      rcases wp_of_error hsettles hrun with ⟨hhalf, hchanged⟩ | ⟨hhalf, hsame⟩
      · exact ⟨fun h => absurd (h c' rfl) hchanged, fun h => absurd hhalf h⟩
      · refine ⟨fun _ => hhalf, fun _ c₁ hreply => ?_⟩
        obtain ⟨-, rfl⟩ := EStateM.Result.ok.inj hreply
        exact hsame

/-! ## A rebind that fails -/

/-- A supervisor that closes binders and starts none. -/
def refusing : Io :=
  { Turn.answers ⟨3, .flush, [], .wouldBlock, none⟩ with
    broker := fun request =>
      if request = .bindReverse 5 "tcp:6000" then .error "service process limit reached"
      else .ok ("", []) }

/-- A connection that forwards one port. -/
def forwarding : Connection :=
  { fresh with reverse := (∅ : Std.TreeMap String Reverse).insert "tcp:6000" ⟨7, "tcp:80"⟩ }

/-- The payload for a `reverse:` command. -/
def reversePayload (command : String) : Bytes :=
  utf8 ("reverse:" ++ command ++ "\x00")

theorem fail_keeps_table_fails :
    ∃ c', openService refusing (reversePayload "forward:tcp:6000;tcp:81") forwarding =
      .ok (.bytes failReply) c' ∧ c'.reverse ≠ forwarding.reverse ∧
      "tcp:6000" ∈ forwarding.reverse ∧ "tcp:6000" ∉ c'.reverse := by
  have hrun : (match openService refusing (reversePayload "forward:tcp:6000;tcp:81") forwarding with
      | .ok source c' => decide (source = .bytes failReply ∧ "tcp:6000" ∉ c'.reverse)
      | .error _ _ => false) = true := by
    decide +kernel
  have hbefore : "tcp:6000" ∈ forwarding.reverse := by decide +kernel
  split at hrun
  · next source c' heq =>
    obtain ⟨rfl, hgone⟩ := of_decide_eq_true hrun
    exact ⟨c', heq, ne_of_mem hbefore hgone, hbefore, hgone⟩
  · cases hrun

/-- The old listener stays when the host asked for `norebind:`. -/
theorem fail_keeps_table_norebind :
    ¬HalfDone refusing "forward:norebind:tcp:6000;tcp:81" forwarding ∧
      ∀ c', openService refusing (reversePayload "forward:norebind:tcp:6000;tcp:81") forwarding =
        .ok (.bytes failReply) c' → c'.reverse = forwarding.reverse := by
  have hname : Names (reversePayload "forward:norebind:tcp:6000;tcp:81")
      "reverse:forward:norebind:tcp:6000;tcp:81" :=
    ⟨by decide +kernel, by decide +kernel, by decide +kernel⟩
  have hkill : stripPrefix "killforward:" "forward:norebind:tcp:6000;tcp:81" = none := by
    decide +kernel
  have hforward : stripPrefix "forward:" "forward:norebind:tcp:6000;tcp:81" =
      some "norebind:tcp:6000;tcp:81" := by
    decide +kernel
  have hrebind : stripPrefix "norebind:" "norebind:tcp:6000;tcp:81" ≠ none := by
    decide +kernel
  have hwhole : ¬HalfDone refusing "forward:norebind:tcp:6000;tcp:81" forwarding := by
    rw [HalfDone, if_neg (by decide), if_neg (by decide), hkill, hforward]
    exact fun h => hrebind h.1
  exact ⟨hwhole, (fail_keeps_table refusing forwarding _ _ "forward:norebind:tcp:6000;tcp:81"
    hname (by decide +kernel)).mpr hwhole⟩

end Altdb.Connection
