import Altdb.JsonText
import Altdb.SyncClient

/-!
# Answers of the file synchronisation

What the service writes for a sequence of requests is read back by the client:
one answer for each request, up to the first that fails.
-/

namespace Altdb

namespace Sync

open Fallible Client

/-! ## Writes -/

/-- The stream takes everything that is written. -/
def Steady (env : Env) : Prop := ∀ n, env.sent n = none

/-- The output has grown, and nothing was read. -/
structure Wrote (s : State) (bytes : Bytes) (s' : State) : Prop where
  input : s'.input = s.input
  output : s'.output = s.output ++ bytes

variable {env : Env} {s s₁ s₂ : State} {a b : Bytes}

theorem Wrote.refl (s : State) : Wrote s [] s := ⟨rfl, (List.append_nil _).symm⟩

theorem Wrote.trans (h : Wrote s a s₁) (h' : Wrote s₁ b s₂) : Wrote s (a ++ b) s₂ where
  input := h'.input.trans h.input
  output := by rw [h'.output, h.output, List.append_assoc]

/-- The method does nothing but write the bytes. -/
def Writes (method : Method Unit) (bytes : Bytes) : Prop :=
  ∀ s, wp method (fun _ s' => Wrote s bytes s') (fun _ _ => False) s

theorem Writes.bind {method next : Method Unit} (h : Writes method a) (hnext : Writes next b) :
    Writes (method >>= fun _ => next) (a ++ b) := by
  intro s
  rw [wp_bind]
  refine wp_mono (h s) (fun _ s₁ h₁ => ?_) fun _ _ h => h
  exact wp_mono (hnext s₁) (fun _ _ h₂ => h₁.trans h₂) fun _ _ h => h

theorem writeAll_writes (h : Steady env) (bytes : Bytes) : Writes (writeAll env bytes) bytes := by
  intro s
  simp only [writeAll, wp_bind, wp_get, h s.output.length, wp_modify]
  exact ⟨rfl, rfl⟩

theorem forM_writes {item : Type} {body : item → Method Unit} {bytes : item → Bytes}
    (h : ∀ x, Writes (body x) (bytes x)) (items : List item) :
    Writes (items.forM body) (items.flatMap bytes) := by
  induction items with
  | nil => exact fun s => Wrote.refl s
  | cons x items ih => exact (h x).bind ih

theorem u32s_writes (h : Steady env) (words : List UInt32) :
    Writes (u32s env words) (words.flatMap leBytes) :=
  forM_writes (fun _ => writeAll_writes h _) words

theorem u64s_writes (h : Steady env) (words : List UInt64) :
    Writes (u64s env words) ((words.flatMap halves).flatMap leBytes) := by
  have hwrites : Writes (u64s env words) (words.flatMap leBytes64) :=
    forM_writes (fun _ => writeAll_writes h _) words
  rw [List.flatMap_assoc]
  simpa only [← leBytes64_eq] using hwrites

theorem fail_writes (h : Steady env) {message : Bytes} (hlength : message.length ≤ 256) :
    Writes (fail env message) (failBytes message) := by
  unfold fail
  rw [List.take_of_length_le hlength]
  have hwrites := (u32s_writes h [FAIL, UInt32.ofNat message.length]).bind
    (writeAll_writes h message)
  rw [List.flatMap_cons, List.flatMap_singleton, List.append_assoc] at hwrites
  exact hwrites

/-! ## Records -/

/-- What a record tells about a file. -/
def info (v2 : Bool) (result : Except Failure Metadata) : Info :=
  match v2, result with
  | false, .ok m => .v1 m.mode m.size.toUInt32 m.mtime.toUInt64.toUInt32
  | false, .error _ => .v1 0 0 0
  | true, .ok m => .v2 0 m.dev m.ino m.mode m.nlink.toUInt32 m.uid m.gid m.size m.atime
      m.mtime m.ctime
  | true, .error error => .v2 error.code 0 0 0 0 0 0 0 0 0 0

theorem isV2_info (v2 : Bool) (result : Except Failure Metadata) : (info v2 result).isV2 = v2 := by
  cases v2 with
  | false =>
      cases result with
      | ok => rfl
      | error => rfl
  | true =>
      cases result with
      | ok => rfl
      | error => rfl

/-- The name of a record on the stream. -/
def nameBytes : Option Bytes → Bytes
  | some name => leBytes (UInt32.ofNat name.length) ++ name
  | none => []

theorem entryName_writes (h : Steady env) (name : Option Bytes) :
    Writes (entryName env name) (nameBytes name) := by
  cases name with
  | none => exact fun s => Wrote.refl s
  | some name =>
      have hwrites := (u32s_writes h [UInt32.ofNat name.length]).bind (writeAll_writes h name)
      rw [List.flatMap_singleton] at hwrites
      exact hwrites

theorem stat_writes (h : Steady env) (kind : UInt32) (result : Except Failure Metadata)
    (name : Option Bytes) (v2 : Bool) :
    Writes (stat env kind result name v2) ((info v2 result).bytes kind ++ nameBytes name) := by
  have hname := entryName_writes h name
  cases v2 with
  | false =>
      cases result with
      | ok m => exact (u32s_writes h _).bind hname
      | error error => exact (u32s_writes h _).bind hname
  | true =>
      have hwrites (error mode nlink uid gid : UInt32) (dev ino size atime mtime ctime : UInt64) :=
        (u32s_writes h [kind, error]).bind ((u64s_writes h [dev, ino]).bind
          ((u32s_writes h [mode, nlink, uid, gid]).bind
            ((u64s_writes h [size, atime, mtime, ctime]).bind hname)))
      cases result with
      | ok m =>
          exact hwrites 0 m.mode m.nlink.toUInt32 m.uid m.gid m.dev m.ino m.size
            m.atime.toUInt64 m.mtime.toUInt64 m.ctime.toUInt64
      | error error => exact hwrites error.code 0 0 0 0 0 0 0 0 0 0

/-! ## Listings -/

abbrev DirEntry := Except Failure (FileName × Except Failure Metadata)

/-- The entries of a directory in their order, if all of them can be read. -/
def listing (v2 : Bool) : List DirEntry → Except Failure (List (Bytes × Info))
  | [] => .ok []
  | .ok entry :: rest =>
      (listing v2 rest).map fun found => (entry.1.val, info v2 entry.2) :: found
  | .error error :: _ => .error error

/-- The entries can be told from their records. -/
def Readable (v2 : Bool) (entries : List (Bytes × Info)) : Prop :=
  ∀ e ∈ entries, e.1.length < 2 ^ 32 ∧ e.2.isV2 = v2

theorem readable_cons {v2 : Bool} {entries : List (Bytes × Info)} (h : Readable v2 entries)
    (name : FileName) (result : Except Failure Metadata) :
    Readable v2 ((name.val, info v2 result) :: entries) := by
  intro e he
  cases he with
  | head => exact ⟨name.property, isV2_info v2 result⟩
  | tail _ he => exact h e he

/-- The loop over the entries of a directory. -/
def entries (env : Env) (v2 : Bool) (found : List DirEntry) : Method Unit :=
  found.forM fun entry => do
    let (name, result) ← lift entry
    stat env (if v2 then DNT2 else DENT) result (some name.val) v2

theorem entries_spec (h : Steady env) (v2 : Bool) (found : List DirEntry) :
    wp (entries env v2 found)
      (fun _ s' => ∃ es, listing v2 found = .ok es ∧ Readable v2 es ∧
        Wrote s (es.flatMap (entryBytes (entryId v2))) s')
      (fun error s' => ∃ es, listing v2 found = .error error ∧ Readable v2 es ∧
        Wrote s (es.flatMap (entryBytes (entryId v2))) s') s := by
  induction found generalizing s with
  | nil => exact ⟨[], rfl, (fun e he => by cases he), Wrote.refl s⟩
  | cons entry rest ih =>
      change wp (_ >>= fun _ => entries env v2 rest) _ _ s
      cases entry with
      | error error => exact ⟨[], rfl, (fun e he => by cases he), Wrote.refl s⟩
      | ok entry =>
          rw [wp_bind]
          have hwrites : Writes (stat env (entryId v2) entry.2 (some entry.1.val) v2)
              (entryBytes (entryId v2) (entry.1.val, info v2 entry.2)) :=
            stat_writes h _ _ _ _
          refine wp_mono (hwrites s) (fun _ s₁ h₁ => ?_) fun _ _ h => h.elim
          refine wp_mono (@ih s₁) ?_ ?_
          · rintro _ s' ⟨es, hlisting, hreadable, h₂⟩
            refine ⟨_ :: es, ?_, readable_cons hreadable entry.1 entry.2, h₁.trans h₂⟩
            rw [listing, hlisting]
            rfl
          · rintro error s' ⟨es, hlisting, hreadable, h₂⟩
            refine ⟨_ :: es, ?_, readable_cons hreadable entry.1 entry.2, h₁.trans h₂⟩
            rw [listing, hlisting]
            rfl

/-! ## Contents -/

/-- Whether all reads of a file succeed while that many bytes are left. -/
def File.reads (file : File) (left : ℕ) : Except Failure Unit :=
  match file.next left with
  | .error error => .error error
  | .ok n => if 0 < n ∧ 0 < left then file.reads (left - n) else .ok ()
termination_by left

/-- The frames that a client accepts. -/
def Framed (frames : List Bytes) : Prop := ∀ f ∈ frames, 0 < f.length ∧ f.length ≤ MAX

theorem next_bounds {file : File} {left n : ℕ} (h : file.next left = .ok n) :
    n ≤ left ∧ n ≤ MAX ∧ (0 < left → 0 < n) := by
  have hmax : MAX = 65536 := rfl
  cases hread : file.read left with
  | error error =>
      rw [File.next, hread] at h
      cases h
  | ok k =>
      rw [File.next, hread] at h
      have hn : min (max 1 (min k MAX)) left = n := Except.ok.inj h
      omega

theorem copy_spec (h : Steady env) (file : File) (content : Bytes) :
    wp (copy env file content)
      (fun _ s' => file.reads content.length = .ok () ∧
        ∃ frames, frames.flatten = content ∧ Framed frames ∧
          Wrote s (frames.flatMap (fun f => (Frame.data f).bytes) ++ (Frame.done 0).bytes) s')
      (fun error s' => file.reads content.length = .error error ∧
        ∃ frames, Framed frames ∧
          Wrote s (frames.flatMap fun f => (Frame.data f).bytes) s') s := by
  induction hlength : content.length using Nat.strong_induction_on generalizing content s with
  | _ length ih =>
      subst hlength
      rw [copy, File.reads]
      cases hnext : file.next content.length with
      | error error =>
          exact ⟨rfl, [], (fun f hf => by cases hf), Wrote.refl s⟩
      | ok n =>
          obtain ⟨hle, hmax, hpos⟩ := next_bounds hnext
          dsimp only
          split
          · next hmore =>
            have htaken : (content.take n).length = n := List.length_take_of_le hle
            have hdropped : (content.drop n).length = content.length - n := List.length_drop
            have hframe : Writes (do
                u32s env [DATA, UInt32.ofNat n]
                writeAll env (content.take n)) (Frame.data (content.take n)).bytes := by
              rw [Frame.bytes, htaken]
              have hwrites := (u32s_writes h [DATA, UInt32.ofNat n]).bind
                (writeAll_writes h (content.take n))
              rw [List.flatMap_cons, List.flatMap_singleton] at hwrites
              exact hwrites
            have hfits : 0 < (content.take n).length ∧ (content.take n).length ≤ MAX := by
              rw [htaken]
              exact ⟨hmore.1, hmax⟩
            have hframed {frames : List Bytes} (hframes : Framed frames) :
                Framed (content.take n :: frames) := by
              intro f hf
              cases hf with
              | head => exact hfits
              | tail _ hf => exact hframes f hf
            have hrun := hframe s
            rw [wp_bind] at hrun ⊢
            refine wp_mono hrun (fun _ s₁ h₁ => ?_) fun _ _ h => ?_
            · rw [wp_bind]
              refine wp_mono h₁ (fun _ s₂ h₂ => ?_) fun _ _ h => h.elim
              have hrest := @ih (content.drop n).length (by omega) s₂ (content.drop n) rfl
              rw [hdropped] at hrest
              refine wp_mono hrest ?_ ?_
              · rintro _ s' ⟨hreads, frames, hflatten, hframes, h₃⟩
                refine ⟨hreads, content.take n :: frames, ?_, hframed hframes, ?_⟩
                · rw [List.flatten_cons, hflatten, List.take_append_drop]
                · rw [List.flatMap_cons, List.append_assoc]
                  exact h₂.trans h₃
              · rintro error s' ⟨hreads, frames, hframes, h₃⟩
                exact ⟨hreads, content.take n :: frames, hframed hframes, h₂.trans h₃⟩
            · exact h.elim
          · next hend =>
            have hempty : content = [] := by
              apply List.length_eq_zero_iff.mp
              by_contra hne
              exact hend ⟨hpos (Nat.pos_of_ne_zero hne), Nat.pos_of_ne_zero hne⟩
            refine wp_mono (u32s_writes h [DONE, 0] s) (fun _ s' h' => ?_) fun _ _ h => h.elim
            exact ⟨rfl, [], hempty.symm, (fun f hf => by cases hf), h'⟩

/-! ## Failures -/

theorem length_text (s : String) : (text s).length = s.utf8ByteSize := by
  rw [← String.size_toByteArray]
  exact Array.length_toList

theorem length_message_os (code : UInt32) :
    (text ("filesystem error: " ++ toString code.toNat)).length ≤ 256 := by
  have hsize := @JsonText.size_le_of_forall (toString code.toNat).toList 4
    fun c _ => c.utf8Size_le_four
  have hdigits := Nat.repr_length code.toNat 10 (by decide)
    (code.toNat_lt.trans (by decide))
  rw [JsonText.size_toList, String.length_toList] at hsize
  change (toString code.toNat).length ≤ 10 at hdigits
  have hhead : "filesystem error: ".utf8ByteSize = 18 := by decide +kernel
  rw [length_text, String.utf8ByteSize_append, hhead]
  omega

/-- The message of a failure is sent whole. -/
theorem length_message (error : Failure) : error.message.length ≤ 256 := by
  cases error with
  | os code => exact length_message_os code
  | io message => exact length_message_os EIO
  | other message =>
      change (text "unsupported or malformed SYNC request").length ≤ 256
      decide +kernel

/-! ## Requests -/

/-- A request that asks for an answer. -/
structure Request where
  kind : UInt32
  path : Bytes
  /-- The flags of `RCV2`. -/
  flags : UInt32
  known : kind ∈ [STAT, STA2, LST2, LIST, LIS2, RECV, RCV2]
  path_ne : path ≠ []
  path_le : path.length ≤ 1024
  path_clean : 0 ∉ path

def Request.setup (r : Request) : Bytes :=
  if r.kind = RCV2 then leBytes RCV2 ++ leBytes r.flags else []

def Request.bytes (r : Request) : Bytes :=
  leBytes r.kind ++ (leBytes (UInt32.ofNat r.path.length) ++ (r.path ++ r.setup))

def listAnswer (env : Env) (path : Bytes) (v2 : Bool) : Except Failure Answer :=
  match env.readDir path with
  | .ok found => (listing v2 found).map .entries
  | .error _ => .ok (.entries [])

def fileAnswer (env : Env) (path : Bytes) : Except Failure Answer :=
  (env.openFile path).bind fun file =>
    (file.reads file.content.length).map fun _ => .content file.content

/-- What a request is answered, or why it fails. -/
def Request.answer (env : Env) (r : Request) : Except Failure Answer :=
  if r.kind = STAT then .ok (.info (info false (env.metadata r.path false)))
  else if r.kind = STA2 ∨ r.kind = LST2 then
    .ok (.info (info true (env.metadata r.path (r.kind = STA2))))
  else if r.kind = LIST ∨ r.kind = LIS2 then listAnswer env r.path (r.kind = LIS2)
  else if r.kind = RCV2 ∧ r.flags ≠ 0 then .error (.other "unsupported receive flags")
  else fileAnswer env r.path

/-- A method reads the setup of a request and writes the reply to it. -/
def Handles (kind : UInt32) (rest : Bytes) (answer : Except Failure Answer)
    (method : Method Unit) (s : State) : Prop :=
  wp method
    (fun _ s' => ∃ bytes found, answer = .ok found ∧ Replies kind bytes (.ok found) ∧
      s'.input = rest ∧ s'.output = s.output ++ bytes)
    (fun error s' => ∃ bytes, answer = .error error ∧
      Replies kind (bytes ++ failBytes error.message) (.error error.message) ∧
      s'.output = s.output ++ bytes) s

theorem message_fits (error : Failure) : error.message.length < 2 ^ 32 :=
  (length_message error).trans_lt (by decide)

theorem stat_handles (h : Steady env) {kind : UInt32}
    (hkind : kind = STAT ∨ kind = STA2 ∨ kind = LST2) (result : Except Failure Metadata) :
    Handles kind s.input (.ok (.info (info (kind ≠ STAT) result)))
      (stat env kind result none (kind ≠ STAT)) s := by
  refine wp_mono (stat_writes h kind result none (kind ≠ STAT) s) ?_ fun _ _ h => h.elim
  rintro _ s' ⟨hinput, houtput⟩
  refine ⟨_, _, rfl, replies_info hkind (isV2_info _ result), hinput, ?_⟩
  rw [houtput, nameBytes, List.append_nil]

/-- The end of a listing. -/
theorem done_writes (h : Steady env) (v2 : Bool) :
    Writes (stat env DONE (.error (.os 0)) (some []) v2)
      (entryBytes DONE ([], info v2 (.error (.os 0)))) :=
  stat_writes h _ _ _ _

theorem list_handles (h : Steady env) {kind : UInt32} (hkind : kind = LIST ∨ kind = LIS2)
    (path : Bytes) :
    Handles kind s.input (listAnswer env path (kind = LIS2))
      (list env path (kind = LIS2)) s := by
  have hdone := done_writes h (kind = LIS2)
  have hinfo := isV2_info (kind = LIS2) (.error (.os 0))
  unfold Handles list listAnswer
  cases env.readDir path with
  | error error =>
      have hnone : Readable (kind = LIS2) [] := fun e he => by cases he
      have hreplies := replies_entries hkind rfl hnone hinfo
      rw [List.flatMap_nil, List.nil_append] at hreplies
      refine wp_mono (hdone s) (fun _ s' h' => ?_) fun _ _ h => h.elim
      exact ⟨_, _, rfl, hreplies, h'.input, h'.output⟩
  | ok found =>
      change wp (entries env (kind = LIS2) found >>= fun _ =>
        stat env DONE (.error (.os 0)) (some []) (kind = LIS2)) _ _ s
      rw [wp_bind]
      refine wp_mono (entries_spec h (kind = LIS2) found) ?_ ?_
      · rintro _ s₁ ⟨es, hlisting, hreadable, h₁⟩
        refine wp_mono (hdone s₁) (fun _ s' h' => ?_) fun _ _ h => h.elim
        have hwrote := h₁.trans h'
        refine ⟨_, .entries es, ?_, replies_entries hkind rfl hreadable hinfo, hwrote.input,
          hwrote.output⟩
        change (listing _ found).map Answer.entries = _
        rw [hlisting]
        rfl
      · rintro error s' ⟨es, hlisting, hreadable, h₁⟩
        refine ⟨_, ?_, replies_unlisted hkind rfl hreadable (message_fits error), h₁.output⟩
        change (listing _ found).map Answer.entries = _
        rw [hlisting]
        rfl

theorem copy_handles (h : Steady env) {kind : UInt32} (hkind : kind = RECV ∨ kind = RCV2)
    (path : Bytes) :
    Handles kind s.input (fileAnswer env path)
      (do
        let file ← lift (env.openFile path)
        copy env file file.content) s := by
  unfold Handles fileAnswer
  cases env.openFile path with
  | error error =>
      exact ⟨[], rfl, @replies_unread kind hkind [] (fun f hf => by cases hf) _
        (message_fits error), (List.append_nil _).symm⟩
  | ok file =>
      change wp (copy env file file.content) _ _ s
      refine wp_mono (copy_spec h file file.content) ?_ ?_
      · rintro _ s' ⟨hreads, frames, hflatten, hframes, h'⟩
        have hreplies := replies_content hkind hframes
        rw [hflatten] at hreplies
        refine ⟨_, _, ?_, hreplies, h'.input, h'.output⟩
        change (file.reads _).map _ = _
        rw [hreads]
        rfl
      · rintro error s' ⟨hreads, frames, hframes, h'⟩
        refine ⟨_, ?_, replies_unread hkind hframes (message_fits error), h'.output⟩
        change (file.reads _).map _ = _
        rw [hreads]
        rfl

/-! ### Reading a request -/

theorem readExact_eq {bytes rest : Bytes} (h : s.input = bytes ++ rest) :
    readExact bytes.length s = .ok bytes { s with input := rest } := by
  apply eq_ok_of_wp
  have hle : bytes.length ≤ s.input.length := by
    rw [h, List.length_append]
    exact Nat.le_add_right _ _
  simp only [readExact, wp_bind, wp_get, wp_ite, wp_modify, wp_pure]
  refine ⟨fun _ => ?_, fun hnot => absurd hle hnot⟩
  rw [h, List.take_left, List.drop_left]
  exact ⟨rfl, rfl⟩

theorem number_eq {n : UInt32} {rest : Bytes} (h : s.input = leBytes n ++ rest) :
    number s = .ok n { s with input := rest } := by
  have hread : readExact 4 s = .ok (leBytes n) { s with input := rest } := readExact_eq h
  rw [number, bind_ok hread]
  change EStateM.Result.ok (fromLeBytes _ _ _ _) _ = _
  rw [fromLeBytes_leBytes]

theorem handles_congr {kind : UInt32} {rest : Bytes} {answer : Except Failure Answer}
    {method method' : Method Unit} (h : Handles kind rest answer method s₁)
    (hrun : method' s = method s₁) (houtput : s₁.output = s.output) :
    Handles kind rest answer method' s := by
  unfold Handles wp at h ⊢
  rw [hrun, ← houtput]
  exact h

theorem receive_v1 (h : Steady env) {r : Request} (hkind : r.kind = RECV) :
    Handles r.kind s.input (fileAnswer env r.path) (receive env r.kind r.path) s := by
  have hne : RECV ≠ RCV2 := by decide
  have hcopy := @copy_handles env s h r.kind (.inl hkind) r.path
  refine handles_congr hcopy ?_ rfl
  unfold receive
  rw [hkind, if_neg hne]

theorem receive_v2 (h : Steady env) {r : Request} (hkind : r.kind = RCV2) {rest : Bytes}
    (hinput : s.input = r.setup ++ rest) :
    Handles r.kind rest
      (if r.flags ≠ 0 then .error (.other "unsupported receive flags") else fileAnswer env r.path)
      (receive env r.kind r.path) s := by
  rw [Request.setup, if_pos hkind, List.append_assoc] at hinput
  have hagain := number_eq hinput
  have hflags := @number_eq { s with input := leBytes r.flags ++ rest } r.flags rest rfl
  unfold receive
  rw [if_pos hkind]
  obtain ⟨hne, -⟩ | ⟨-, hsame⟩ := ensure_cases (RCV2 = r.kind)
    (Failure.other "unsupported receive flags") { s with input := leBytes r.flags ++ rest }
  · exact absurd hkind.symm hne
  obtain ⟨hflag, hrun⟩ | ⟨hzero, hrun⟩ := ensure_cases (r.flags = 0)
    (Failure.other "unsupported receive flags") { s with input := rest }
  · have hfailed := @replies_unread r.kind (.inr hkind) [] (fun f hf => by cases hf) _
      (message_fits (.other "unsupported receive flags"))
    unfold Handles wp
    rw [if_pos hflag, bind_ok hagain, bind_ok hsame, bind_ok hflags, bind_error hrun]
    exact ⟨[], rfl, hfailed, (List.append_nil _).symm⟩
  · rw [if_neg (not_not.mpr hzero)]
    refine handles_congr (@copy_handles env { s with input := rest } h r.kind (.inr hkind)
      r.path) ?_ rfl
    rw [bind_ok hagain, bind_ok hsame, bind_ok hflags, bind_ok hrun]

/-- Each request is handled as it is answered. -/
theorem handle_handles (h : Steady env) (r : Request) {rest : Bytes}
    (hinput : s.input = r.setup ++ rest) :
    Handles r.kind rest (r.answer env) (handle env r.kind r.path) s := by
  have hplain (hne : r.kind ≠ RCV2) : s.input = rest := by
    rwa [Request.setup, if_neg hne] at hinput
  unfold Request.answer handle
  by_cases hstat : r.kind = STAT
  · have hv2 : decide (r.kind ≠ STAT) = false := decide_eq_false (not_not.mpr hstat)
    have hhandles := @stat_handles env s h r.kind (.inl hstat) (env.metadata r.path false)
    rw [hv2] at hhandles
    rw [if_pos hstat, if_pos hstat, ← hplain fun heq => by cases hstat.symm.trans heq]
    exact hhandles
  rw [if_neg hstat, if_neg hstat]
  by_cases hstat2 : r.kind = STA2 ∨ r.kind = LST2
  · have hv2 : decide (r.kind ≠ STAT) = true := decide_eq_true hstat
    have hhandles := @stat_handles env s h r.kind (.inr hstat2)
      (env.metadata r.path (r.kind = STA2))
    rw [hv2] at hhandles
    have hne : r.kind ≠ RCV2 := by
      rcases hstat2 with heq | heq
      · exact heq ▸ by decide
      · exact heq ▸ by decide
    rw [if_pos hstat2, if_pos hstat2, ← hplain hne]
    exact hhandles
  rw [if_neg hstat2, if_neg hstat2]
  by_cases hlist : r.kind = LIST ∨ r.kind = LIS2
  · have hne : r.kind ≠ RCV2 := by
      rcases hlist with heq | heq
      · exact heq ▸ by decide
      · exact heq ▸ by decide
    rw [if_pos hlist, if_pos hlist, ← hplain hne]
    exact list_handles h hlist r.path
  rw [if_neg hlist, if_neg hlist]
  have hknown := r.known
  simp only [List.mem_cons, List.not_mem_nil, or_false] at hknown
  have hrecv : r.kind = RECV ∨ r.kind = RCV2 := by tauto
  rw [if_pos hrecv]
  by_cases hv2 : r.kind = RCV2
  · have hhandles := receive_v2 h hv2 hinput
    simp only [hv2, true_and] at hhandles ⊢
    exact hhandles
  · rw [if_neg fun hflags => hv2 hflags.1, ← hplain hv2]
    exact receive_v1 h (hrecv.resolve_right hv2)

/-! ## Whole runs -/

/-- The answers to the requests from the `i`-th on, and the message of the
first that fails. -/
def answers (env : ℕ → Env) : ℕ → List Request → List Answer × Option Bytes
  | _, [] => ([], none)
  | i, r :: rest =>
      match r.answer (env i) with
      | .ok answer => (answer :: (answers env (i + 1) rest).1, (answers env (i + 1) rest).2)
      | .error error => ([], some error.message)

theorem request_eq (env : Env) (r : Request) {rest : Bytes} (h : s.input = r.bytes ++ rest) :
    request env s = .ok (some (r.kind, r.path)) { s with input := r.setup ++ rest } := by
  rw [Request.bytes] at h
  simp only [List.append_assoc] at h
  have hkind := number_eq h
  have hlen := @number_eq { s with input := _ } (UInt32.ofNat r.path.length)
    (r.path ++ (r.setup ++ rest)) rfl
  have hpath := @readExact_eq { s with input := _ } r.path (r.setup ++ rest) rfl
  have hfits : r.path.length < 2 ^ 32 := r.path_le.trans_lt (by decide)
  have hlength : (UInt32.ofNat r.path.length).toNat = r.path.length :=
    UInt32.toNat_ofNat_of_lt' hfits
  have hquit : r.kind ≠ QUIT := fun heq => by
    have hknown := r.known
    rw [heq] at hknown
    revert hknown
    decide
  have hvalid : ¬ (UInt32.ofNat r.path.length = 0 ∨ 1024 < (UInt32.ofNat r.path.length).toNat) := by
    rintro (hzero | hlarge)
    · rw [hzero] at hlength
      exact r.path_ne (List.length_eq_zero_iff.mp hlength.symm)
    · rw [hlength] at hlarge
      exact absurd r.path_le (not_le_of_gt hlarge)
  rw [← hlength] at hpath
  rw [request, bind_ok hkind, bind_ok hlen, if_neg hquit, if_neg hvalid]
  refine (bind_ok hpath).trans ?_
  exact congrFun (if_neg r.path_clean) _

section Serve

variable {env : ℕ → Env} {i : ℕ} {s s' s'' : State} {kind : UInt32} {path : Bytes}
  {error : Failure}

theorem serve_closed (h : request (env i) s = .ok none s') : serve env i s = .ok () s' := by
  rw [serve]
  split
  · next heq => cases heq.symm.trans h
  · next heq =>
    cases heq.symm.trans h
    rfl
  · next heq => cases heq.symm.trans h

theorem serve_cut (h : request (env i) s = .error error s') :
    serve env i s = .error error s' := by
  rw [serve]
  split
  · next heq =>
    cases heq.symm.trans h
    rfl
  · next heq => cases heq.symm.trans h
  · next heq => cases heq.symm.trans h

theorem serve_handled (h : request (env i) s = .ok (some (kind, path)) s') :
    serve env i s =
      match handle (env i) kind path s' with
      | .ok () s'' => serve env (i + 1) s''
      | .error error s'' => .error error (final (fail (env i) error.message s'')) := by
  rw [serve]
  split
  · next heq => cases heq.symm.trans h
  · next heq => cases heq.symm.trans h
  · next heq =>
    cases heq.symm.trans h
    split
    · next hrun => rw [hrun]
    · next hrun => rw [hrun]

theorem serve_next (h : request (env i) s = .ok (some (kind, path)) s')
    (hhandle : handle (env i) kind path s' = .ok () s'') :
    serve env i s = serve env (i + 1) s'' := by
  rw [serve_handled h, hhandle]

theorem serve_failed (h : request (env i) s = .ok (some (kind, path)) s')
    (hhandle : handle (env i) kind path s' = .error error s'') :
    serve env i s = .error error (final (fail (env i) error.message s'')) := by
  rw [serve_handled h, hhandle]

end Serve

/-- What may follow the last request. -/
def Ending (bytes : Bytes) : Prop := bytes = [] ∨ bytes = leBytes QUIT ++ leBytes 0

/-- Without a further request nothing is written. -/
theorem serve_ending {env : ℕ → Env} {i : ℕ} (h : Ending s.input) :
    (final (serve env i s)).output = s.output := by
  rcases h with hempty | hquit
  · have hspec : wp (request (env i)) (fun _ _ => False) (fun _ s' => s'.output = s.output) s := by
      rw [request, wp_bind]
      refine wp_mono number_spec ?_ ?_
      · rintro n s' ⟨rest, hinput, -⟩
        rw [hempty] at hinput
        cases hinput
      · rintro error s' ⟨rest, rfl⟩
        rfl
    cases hrun : request (env i) s with
    | ok r s' =>
        have hno := wp_of_ok hspec hrun
        exact hno.elim
    | error error s' =>
        have houtput := wp_of_error hspec hrun
        rw [serve_cut hrun]
        exact houtput
  · have hkind := number_eq hquit
    have hlen := @number_eq { s with input := leBytes 0 } 0 [] rfl
    have hrun : request (env i) s = .ok none { s with input := [] } := by
      rw [request, bind_ok hkind, bind_ok hlen]
      rfl
    rw [serve_closed hrun]
    rfl

/-- The client of a run gets the answers, and a failure ends the run. -/
structure Answered (env : ℕ → Env) (i : ℕ) (requests : List Request) (s : State) : Prop where
  recovered : ∃ bytes, (final (serve env i s)).output = s.output ++ bytes ∧
    replies (requests.map Request.kind) bytes = some (answers env i requests)
  ended : (answers env i requests).2 ≠ none → ∃ error s', serve env i s = .error error s'

theorem answered_nil {env : ℕ → Env} {i : ℕ} (h : Ending s.input) : Answered env i [] s where
  recovered := ⟨[], by rw [serve_ending h, List.append_nil], rfl⟩
  ended := fun hfailed => absurd rfl hfailed

theorem answered_cons {env : ℕ → Env} {i : ℕ} (henv : Steady (env i)) {r : Request}
    {requests : List Request} {rest : Bytes} (hinput : s.input = r.bytes ++ rest)
    (hrest : ∀ s', s'.input = rest → Answered env (i + 1) requests s') :
    Answered env i (r :: requests) s := by
  have hrequest := request_eq (env i) r hinput
  have hhandles := @handle_handles (env i) { s with input := r.setup ++ rest } henv r rest rfl
  unfold Handles at hhandles
  cases hrun : handle (env i) r.kind r.path { s with input := r.setup ++ rest } with
  | ok value s' =>
      have hok := wp_of_ok hhandles hrun
      obtain ⟨bytes, answer, hanswer, hreply, hleft, houtput⟩ := hok
      obtain ⟨⟨later, hlater, hreplies⟩, hended⟩ := hrest s' hleft
      have hserve := serve_next hrequest hrun
      have hanswers : answers env i (r :: requests) =
          (answer :: (answers env (i + 1) requests).1, (answers env (i + 1) requests).2) := by
        rw [answers, hanswer]
      refine ⟨⟨bytes ++ later, ?_, ?_⟩, ?_⟩
      · rw [hserve, hlater, houtput, List.append_assoc]
      · rw [List.map_cons, replies, hreply later, hanswers]
        change (replies _ later).map _ = _
        rw [hreplies]
        rfl
      · rw [hserve, hanswers]
        exact hended
  | error error s' =>
      have herror := wp_of_error hhandles hrun
      obtain ⟨bytes, hanswer, hreply, houtput⟩ := herror
      have hserve := serve_failed hrequest hrun
      have hanswers : answers env i (r :: requests) = ([], some error.message) := by
        rw [answers, hanswer]
      have hfail : (final (fail (env i) error.message s')).output =
          s'.output ++ failBytes error.message := by
        have hwrites := fail_writes henv (length_message error) s'
        exact wp_final (wp_mono hwrites (fun _ _ h => h.output) fun _ _ h => h.elim)
      refine ⟨⟨bytes ++ failBytes error.message, ?_, ?_⟩, fun _ => ⟨_, _, hserve⟩⟩
      · rw [hserve]
        change (final (fail (env i) error.message s')).output = _
        rw [hfail, houtput, List.append_assoc]
      · have hread := hreply []
        rw [List.append_nil] at hread
        rw [List.map_cons, replies, hread, hanswers]
        rfl

/-- One answer for each request, in the order of the requests, up to the first
that fails. -/
theorem serve_answers (env : ℕ → Env) (henv : ∀ i, Steady (env i)) (requests : List Request)
    (ending : Bytes) (hending : Ending ending) (i : ℕ) (s : State)
    (hinput : s.input = requests.flatMap Request.bytes ++ ending) :
    Answered env i requests s := by
  induction requests generalizing i s with
  | nil => exact answered_nil (hinput ▸ hending)
  | cons r requests ih =>
      rw [List.flatMap_cons, List.append_assoc] at hinput
      exact answered_cons (henv i) hinput fun s' hs' => ih (i + 1) s' hs'

/-- Every file has three bytes and is read in pieces of two. -/
def threeBytes : Env := { quiet with openFile := fun _ => .ok ⟨[1, 2, 3], fun _ => .ok 2⟩ }

def statRequest : Request := ⟨STAT, [97], 0, by decide, by decide, by decide, by decide⟩

def receiveRequest : Request := ⟨RCV2, [98], 0, by decide, by decide, by decide, by decide⟩

theorem serve_answers_two :
    Answered (fun _ => threeBytes) 0 [statRequest, receiveRequest]
        ⟨statRequest.bytes ++ receiveRequest.bytes, [], fun _ => none, []⟩ ∧
      answers (fun _ => threeBytes) 0 [statRequest, receiveRequest] =
        ([.info (.v1 0 0 0), .content [1, 2, 3]], none) :=
  ⟨serve_answers _ (fun _ _ => rfl) _ [] (.inl rfl) 0 _ rfl, by decide +kernel⟩

end Sync

end Altdb
