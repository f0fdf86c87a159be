import Altdb.Fallible
import Altdb.PacketFormat
import Altdb.ServiceName
import Altdb.Store

/-!
# File synchronisation

The `sync:` service reads requests from its stream and answers them from the
file system.  The stream is the bytes that are still to come, cut off anywhere,
and the bytes that were written.  What the file system answers is part of the
environment, except for the names that a push works on: these are kept in the
state, which records every state it has been in.
-/

namespace Altdb

namespace Sync

open Fallible

/-! ## Environment -/

/-- An error of the source.  Only an operating system error has a code. -/
inductive Failure where
  | os (code : UInt32)
  | io (message : String)
  | other (message : String)
  deriving DecidableEq, Repr

/-- `libc::EIO`. -/
def EIO : UInt32 := 5

/-- `raw_os_error().unwrap_or(EIO)`. -/
def Failure.code : Failure → UInt32
  | .os code => code
  | .io _ | .other _ => EIO

structure Metadata where
  dev : UInt64
  ino : UInt64
  mode : UInt32
  nlink : UInt64
  uid : UInt32
  gid : UInt32
  size : UInt64
  atime : Int64
  mtime : Int64
  ctime : Int64
  deriving DecidableEq, Repr

/-- A name of a directory entry. -/
def FileName : Type := { name : Bytes // name.length < 2 ^ 32 }

/-- An open file.  `read` tells how much a read returns while that many bytes
are left. -/
structure File where
  content : Bytes
  read : ℕ → Except Failure ℕ

/-- A path relative to its directory, without empty and `.` components. -/
structure Place where
  absolute : Bool
  parent : List Bytes
  name : Bytes
  deriving DecidableEq, Repr

inductive Node where
  | file (content : Bytes) (mode : UInt32) (mtime : Option UInt32)
  | link (target : Bytes) (mtime : Option UInt32)
  | other
  deriving DecidableEq, Repr

abbrev Files := Place → Option Node

/-- What the operating system answers during one request. -/
structure Env where
  /-- `fs::metadata`, or `fs::symlink_metadata` if links are not followed. -/
  metadata : Bytes → Bool → Except Failure Metadata
  /-- `fs::read_dir`, with the metadata of each entry. -/
  readDir : Bytes → Except Failure
    (List (Except Failure (FileName × Except Failure Metadata)))
  openFile : Bytes → Except Failure File
  /-- The failure of a write to the stream at a length of the output, with the
  number of bytes that were written before. -/
  sent : ℕ → Option (ℕ × Failure)
  createDirAll : Option Failure
  /-- `crypto::random::<8>`. -/
  random : Except Failure Bytes
  create : Option Failure
  /-- The failure of a write to the new file while that many bytes of the stream
  are left. -/
  written : ℕ → Option (ℕ × Failure)
  setPermissions : Option Failure
  syncAll : Option Failure
  symlink : Option Failure
  utimens : Option Failure
  rename : Option Failure
  remove : Option Failure

/-- `seen` is a history variable: the files and the output at each change of one
of them. -/
structure State where
  input : Bytes
  output : Bytes
  files : Files
  seen : List (Files × Bytes)

abbrev Method := EStateM Failure State

/-! ## Stream -/

def readExact (n : ℕ) : Method Bytes := do
  let input := (← get).input
  if n ≤ input.length then
    modify fun s => { s with input := input.drop n }
    return input.take n
  else
    modify fun s => { s with input := [] }
    throw (.io "failed to fill whole buffer")

/-- Bytes reach the stream. -/
def State.put (s : State) (bytes : Bytes) : State :=
  { s with
    output := s.output ++ bytes
    seen := s.seen ++ [(s.files, s.output ++ bytes)] }

def writeAll (env : Env) (bytes : Bytes) : Method Unit := do
  match env.sent (← get).output.length with
  | none => modify fun s => s.put bytes
  | some (n, error) =>
      modify fun s => s.put (bytes.take n)
      throw error

def number : Method UInt32 := do
  let bytes ← readExact 4
  return (leWords bytes).headD 0

def u32s (env : Env) (words : List UInt32) : Method Unit :=
  words.forM fun n => writeAll env (leBytes n)

/-- `u64::to_le_bytes`. -/
def leBytes64 (n : UInt64) : Bytes :=
  [n.toUInt8, (n >>> 8).toUInt8, (n >>> 16).toUInt8, (n >>> 24).toUInt8,
    (n >>> 32).toUInt8, (n >>> 40).toUInt8, (n >>> 48).toUInt8, (n >>> 56).toUInt8]

def u64s (env : Env) (words : List UInt64) : Method Unit :=
  words.forM fun n => writeAll env (leBytes64 n)

/-- `as_bytes`. -/
def text (s : String) : Bytes := s.toUTF8.data.toList

def DATA : UInt32 := commandId 'D' 'A' 'T' 'A'
def DONE : UInt32 := commandId 'D' 'O' 'N' 'E'
def FAIL : UInt32 := commandId 'F' 'A' 'I' 'L'
def QUIT : UInt32 := commandId 'Q' 'U' 'I' 'T'
def STAT : UInt32 := commandId 'S' 'T' 'A' 'T'
def STA2 : UInt32 := commandId 'S' 'T' 'A' '2'
def LST2 : UInt32 := commandId 'L' 'S' 'T' '2'
def LIST : UInt32 := commandId 'L' 'I' 'S' 'T'
def LIS2 : UInt32 := commandId 'L' 'I' 'S' '2'
def DENT : UInt32 := commandId 'D' 'E' 'N' 'T'
def DNT2 : UInt32 := commandId 'D' 'N' 'T' '2'
def RECV : UInt32 := commandId 'R' 'E' 'C' 'V'
def RCV2 : UInt32 := commandId 'R' 'C' 'V' '2'
def SEND : UInt32 := commandId 'S' 'E' 'N' 'D'
def SND2 : UInt32 := commandId 'S' 'N' 'D' '2'

/-- The largest `DATA` frame. -/
def MAX : ℕ := 65536

def fail (env : Env) (message : Bytes) : Method Unit := do
  let bytes := message.take 256
  u32s env [FAIL, UInt32.ofNat bytes.length]
  writeAll env bytes

/-! ## Metadata, listings and files -/

/-- The name at the end of a directory record. -/
def entryName (env : Env) : Option Bytes → Method Unit
  | some name => do
      u32s env [UInt32.ofNat name.length]
      writeAll env name
  | none => pure ()

def stat (env : Env) (kind : UInt32) (result : Except Failure Metadata)
    (name : Option Bytes) (v2 : Bool) : Method Unit := do
  let error : UInt32 := match result with
    | .ok _ => 0
    | .error e => e.code
  let m := result.toOption
  if v2 then
    u32s env [kind, error]
    u64s env [m.elim 0 Metadata.dev, m.elim 0 Metadata.ino]
    u32s env [m.elim 0 Metadata.mode, m.elim 0 fun m => m.nlink.toUInt32,
      m.elim 0 Metadata.uid, m.elim 0 Metadata.gid]
    u64s env [m.elim 0 Metadata.size, m.elim 0 fun m => m.atime.toUInt64,
      m.elim 0 fun m => m.mtime.toUInt64, m.elim 0 fun m => m.ctime.toUInt64]
  else
    u32s env [kind, m.elim 0 Metadata.mode, m.elim 0 fun m => m.size.toUInt32,
      m.elim 0 fun m => m.mtime.toUInt64.toUInt32]
  entryName env name

/-- The `LIST` and `LIS2` requests.  A directory that cannot be read is empty. -/
def list (env : Env) (path : Bytes) (v2 : Bool) : Method Unit := do
  match env.readDir path with
  | .ok entries =>
      entries.forM fun entry => do
        let (name, result) ← lift entry
        stat env (if v2 then DNT2 else DENT) result (some name.val) v2
  | .error _ => pure ()
  stat env DONE (.error (.os 0)) (some []) v2

/-- How much one `read` into a buffer of `MAX` bytes returns: nothing at the end
of the file only. -/
def File.next (file : File) (left : ℕ) : Except Failure ℕ :=
  (file.read left).map fun n => min (max 1 (min n MAX)) left

/-- The loop of the `RECV` request with the content that is left. -/
def copy (env : Env) (file : File) (content : Bytes) : Method Unit :=
  match file.next content.length with
  | .error error => throw error
  | .ok n =>
      if 0 < n ∧ 0 < content.length then do
        u32s env [DATA, UInt32.ofNat n]
        writeAll env (content.take n)
        copy env file (content.drop n)
      else u32s env [DONE, 0]
termination_by content.length
decreasing_by
  rw [List.length_drop]
  omega

/-- The `RECV` and `RCV2` requests. -/
def receive (env : Env) (kind : UInt32) (path : Bytes) : Method Unit := do
  if kind = RCV2 then
    let again ← number
    ensure (again = kind) (.other "unsupported receive flags")
    let flags ← number
    ensure (flags = 0) (.other "unsupported receive flags")
  let file ← lift (env.openFile path)
  copy env file file.content

/-! ## Pushes -/

/-- `Path::components` without the root. -/
def components (path : Bytes) : List Bytes :=
  (path.splitOn 47).filter fun c => c ≠ [] ∧ c ≠ text "."

/-- The directory and the `file_name` of a path. -/
def place (path : Bytes) : Option Place :=
  match (components path).getLast? with
  | some name =>
      if name = text ".." then none
      else some ⟨path.head? = some 47, (components path).dropLast, name⟩
  | none => none

/-- The name of the temporary file. -/
def tempName (random : Bytes) : Bytes := text (".altdb-push-" ++ hex random)

/-- Fail if the operating system does. -/
def inject (fault : Option Failure) : Method Unit :=
  match fault with
  | some error => throw error
  | none => pure ()

/-- The files change. -/
def State.change (s : State) (files : Files) : State :=
  { s with files := files, seen := s.seen ++ [(files, s.output)] }

/-- A name refers to a node, or to nothing. -/
def Files.set (files : Files) (place : Place) (node : Option Node) : Files :=
  Function.update files place node

/-- The error of a name that exists. -/
def EEXIST : UInt32 := 17

/-- The error of a name that does not exist. -/
def ENOENT : UInt32 := 2

/-- `create_new`, or `symlink`: the name must not exist. -/
def make (fault : Option Failure) (place : Place) (node : Node) : Method Unit := do
  inject fault
  if ((← get).files place).isSome then throw (.os EEXIST)
  modify fun s => s.change (s.files.set place (some node))

/-- A call on the file or link with the name, which keeps the name. -/
def update (place : Place) (f : Node → Node) : Method Unit :=
  modify fun s => s.change (s.files.set place ((s.files place).map f))

def Node.append (bytes : Bytes) : Node → Node
  | .file content mode mtime => .file (content ++ bytes) mode mtime
  | node => node

def Node.setMode (mode : UInt32) : Node → Node
  | .file content _ mtime => .file content mode mtime
  | node => node

def Node.setTime (mtime : UInt32) : Node → Node
  | .file content mode _ => .file content mode (some mtime)
  | .link target _ => .link target (some mtime)
  | .other => .other

/-- `write_all` on the new file. -/
def append (env : Env) (place : Place) (bytes : Bytes) : Method Unit := do
  match env.written (← get).input.length with
  | none => update place (Node.append bytes)
  | some (n, error) =>
      update place (Node.append (bytes.take n))
      throw error

/-- `rename`.  The node moves and replaces the one with the new name. -/
def rename (fault : Option Failure) (old new : Place) : Method Unit := do
  inject fault
  match (← get).files old with
  | none => throw (.os ENOENT)
  | some node =>
      if old ≠ new then
        modify fun s => s.change ((s.files.set new (some node)).set old none)

def removeFile (fault : Option Failure) (place : Place) : Method Unit := do
  inject fault
  if ((← get).files place).isNone then throw (.os ENOENT)
  modify fun s => s.change (s.files.set place none)

/-- `libc::S_IFMT`, `S_IFREG` and `S_IFLNK`. -/
def S_IFMT : UInt32 := 0o170000
def S_IFREG : UInt32 := 0o100000
def S_IFLNK : UInt32 := 0o120000

/-- One frame of the body. -/
inductive Frame where
  | data (bytes : Bytes)
  | done (mtime : UInt32)
  deriving DecidableEq, Repr

def frame : Method Frame := do
  let kind ← number
  let len ← number
  if kind = DONE then return .done len
  else
    ensure (kind = DATA ∧ len.toNat ≤ MAX) (.other "invalid file data frame")
    return .data (← readExact len.toNat)

/-- What a `DATA` frame is added to: the file, or the target of the link. -/
def keep (env : Env) (temp : Place) (symlink : Bool) (target buf : Bytes) : Method Bytes := do
  if symlink then
    ensure (target.length + buf.length ≤ 4096) (.other "symlink target too long")
    return target ++ buf
  else
    append env temp buf
    return target

/-! ### The input that is left -/

/-- At most this much input is left. -/
def Left (n : ℕ) (s : State) : Prop := s.input.length ≤ n

theorem left_change {n : ℕ} {s : State} (h : Left n s) (files : Files) :
    Left n (s.change files) := h

theorem left_put {n : ℕ} {s : State} (h : Left n s) (bytes : Bytes) : Left n (s.put bytes) := h

theorem inject_left {n : ℕ} (fault : Option Failure) :
    Preserves (Left n) (inject fault) := by
  cases fault with
  | none => exact .pure _
  | some error => exact .throw _

theorem readExact_left {n : ℕ} (k : ℕ) : Preserves (Left n) (readExact k) := by
  refine .get_bind fun s hs => .ite ?_ ?_
  · refine .bind (.modify fun _ _ => ?_) fun _ => .pure _
    rw [Left, List.length_drop]
    exact (Nat.sub_le _ _).trans hs
  · exact .bind (.modify fun _ _ => Nat.zero_le n) fun _ => .throw _

theorem number_left {n : ℕ} : Preserves (Left n) number :=
  .bind (readExact_left 4) fun _ => .pure _

theorem writeAll_left {n : ℕ} (env : Env) (bytes : Bytes) :
    Preserves (Left n) (writeAll env bytes) := by
  refine .get_bind fun s hs => ?_
  cases env.sent s.output.length with
  | none => exact .modify fun _ h => left_put h _
  | some fault => exact .bind (.modify fun _ h => left_put h _) fun _ => .throw _

theorem u32s_left {n : ℕ} (env : Env) (words : List UInt32) :
    Preserves (Left n) (u32s env words) :=
  .forM (fun _ => writeAll_left env _) words

theorem u64s_left {n : ℕ} (env : Env) (words : List UInt64) :
    Preserves (Left n) (u64s env words) :=
  .forM (fun _ => writeAll_left env _) words

theorem fail_left {n : ℕ} (env : Env) (message : Bytes) :
    Preserves (Left n) (fail env message) :=
  .bind (u32s_left env _) fun _ => writeAll_left env _

theorem entryName_left {n : ℕ} (env : Env) (name : Option Bytes) :
    Preserves (Left n) (entryName env name) := by
  cases name with
  | none => exact .pure _
  | some name => exact .bind (u32s_left env _) fun _ => writeAll_left env _

theorem stat_left {n : ℕ} (env : Env) (kind : UInt32) (result : Except Failure Metadata)
    (name : Option Bytes) (v2 : Bool) : Preserves (Left n) (stat env kind result name v2) := by
  have hname := @entryName_left n env name
  refine .ite ?_ ?_
  · exact .bind (u32s_left env _) fun _ => .bind (u64s_left env _) fun _ =>
      .bind (u32s_left env _) fun _ => .bind (u64s_left env _) fun _ => hname
  · exact .bind (u32s_left env _) fun _ => hname

theorem list_left {n : ℕ} (env : Env) (path : Bytes) (v2 : Bool) :
    Preserves (Left n) (list env path v2) := by
  unfold list
  cases env.readDir path with
  | error error => exact stat_left env _ _ _ _
  | ok entries =>
      exact .bind (.forM (fun _ => .bind (.lift _) fun _ => stat_left env _ _ _ _) entries)
        fun _ => stat_left env _ _ _ _

theorem copy_left {n : ℕ} (env : Env) (file : File) (content : Bytes) :
    Preserves (Left n) (copy env file content) := by
  induction hlength : content.length using Nat.strong_induction_on generalizing content with
  | _ length ih =>
      rw [copy]
      cases file.next content.length with
      | error error => exact .throw _
      | ok k =>
          dsimp only
          split
          · next h =>
            have hshorter : (content.drop k).length < length := by
              rw [List.length_drop]
              omega
            exact .bind (u32s_left env _) fun _ => .bind (writeAll_left env _) fun _ =>
              ih _ hshorter _ rfl
          · exact u32s_left env _

theorem receive_left {n : ℕ} (env : Env) (kind : UInt32) (path : Bytes) :
    Preserves (Left n) (receive env kind path) := by
  have hrest : Preserves (Left n) (do
      let file ← lift (env.openFile path)
      copy env file file.content) := .bind (.lift _) fun _ => copy_left env _ _
  refine .ite ?_ hrest
  exact .bind number_left fun _ => .bind (.ensure _ _) fun _ => .bind number_left fun _ =>
    .bind (.ensure _ _) fun _ => hrest

theorem make_left {n : ℕ} (fault : Option Failure) (place : Place) (node : Node) :
    Preserves (Left n) (make fault place node) := by
  refine .bind (inject_left fault) fun _ => .get_bind fun _ _ => .ite (.throw _) ?_
  exact .modify fun _ h => left_change h _

theorem update_left {n : ℕ} (place : Place) (f : Node → Node) :
    Preserves (Left n) (update place f) :=
  .modify fun _ h => left_change h _

theorem append_left {n : ℕ} (env : Env) (place : Place) (bytes : Bytes) :
    Preserves (Left n) (append env place bytes) := by
  refine .get_bind fun s hs => ?_
  cases env.written s.input.length with
  | none => exact update_left _ _
  | some fault => exact .bind (update_left _ _) fun _ => .throw _

theorem keep_left {n : ℕ} (env : Env) (temp : Place) (symlink : Bool) (target buf : Bytes) :
    Preserves (Left n) (keep env temp symlink target buf) :=
  .ite (.bind (.ensure _ _) fun _ => .pure _) (.bind (append_left env _ _) fun _ => .pure _)

/-! ### What is read -/

variable {s : State}

theorem readExact_spec (n : ℕ) :
    wp (readExact n)
      (fun bytes s' => ∃ rest, bytes.length = n ∧ s.input = bytes ++ rest ∧
        s' = { s with input := rest })
      (fun _ s' => ∃ rest, s' = { s with input := rest }) s := by
  simp only [readExact, wp_bind, wp_get, wp_ite, wp_modify, wp_pure, wp_throw]
  refine ⟨fun hle => ⟨s.input.drop n, ?_, ?_, rfl⟩, fun _ => ⟨[], rfl⟩⟩
  · rw [List.length_take, min_eq_left hle]
  · rw [List.take_append_drop]

theorem number_spec :
    wp number
      (fun n s' => ∃ rest, s.input = leBytes n ++ rest ∧ s' = { s with input := rest })
      (fun _ s' => ∃ rest, s' = { s with input := rest }) s := by
  simp only [number, wp_bind]
  refine wp_mono (readExact_spec 4) ?_ fun _ _ h => h
  rintro bytes s' ⟨rest, hlength, hinput, rfl⟩
  obtain ⟨words, hwords, rfl⟩ := @exists_words 1 bytes hlength
  obtain ⟨n, rfl⟩ := List.length_eq_one_iff.mp hwords
  refine ⟨rest, ?_, rfl⟩
  rw [leWords_flatMap, List.headD_cons, hinput, List.flatMap_singleton]

/-- The bytes of a frame. -/
def Frame.bytes : Frame → Bytes
  | .data bytes => leBytes DATA ++ leBytes (UInt32.ofNat bytes.length) ++ bytes
  | .done mtime => leBytes DONE ++ leBytes mtime

/-- A frame that is accepted. -/
def Frame.Fits : Frame → Prop
  | .data bytes => bytes.length ≤ MAX
  | .done _ => True

theorem frame_spec :
    wp frame
      (fun f s' => ∃ rest, f.Fits ∧ s.input = f.bytes ++ rest ∧ s' = { s with input := rest })
      (fun _ s' => ∃ rest, s' = { s with input := rest }) s := by
  simp only [frame, wp_bind]
  refine wp_mono number_spec ?_ fun _ _ h => h
  rintro kind s₁ ⟨rest₁, hkind, rfl⟩
  simp only [wp_bind]
  refine wp_mono number_spec ?_ fun _ _ h => h
  rintro len s₂ ⟨rest₂, hlen, rfl⟩
  change rest₁ = leBytes len ++ rest₂ at hlen
  subst hlen
  simp only [wp_ite, wp_pure, wp_bind, wp_ensure]
  refine ⟨?_, fun _ => ⟨?_, fun _ => ⟨rest₂, rfl⟩⟩⟩
  · rintro rfl
    exact ⟨rest₂, trivial, by rw [hkind, Frame.bytes, List.append_assoc], rfl⟩
  · rintro ⟨rfl, hmax⟩
    refine wp_mono (readExact_spec len.toNat) ?_ fun _ _ h => h
    rintro bytes s₃ ⟨rest₃, hlength, hinput, rfl⟩
    change rest₂ = bytes ++ rest₃ at hinput
    refine ⟨rest₃, hlength.trans_le hmax, ?_, rfl⟩
    rw [hkind, Frame.bytes, hlength, UInt32.ofNat_toNat, hinput]
    simp only [List.append_assoc]

/-- A frame takes something of the input. -/
theorem frame_shorter {s' : State} {f : Frame} (h : frame s = .ok f s') :
    s'.input.length < s.input.length := by
  have hspec := wp_of_ok frame_spec h
  obtain ⟨rest, -, hinput, rfl⟩ := hspec
  change rest.length < _
  rw [hinput, List.length_append]
  have hheader : 0 < f.bytes.length := by
    cases f with
    | data bytes => exact Nat.succ_pos _
    | done mtime => exact Nat.succ_pos _
  omega

/-- The frames of a body, up to `DONE`. -/
def bodyFrom (env : Env) (temp : Place) (symlink : Bool) (target : Bytes) (s : State) :
    EStateM.Result Failure State (Bytes × UInt32) :=
  match _hframe : frame s with
  | .error error s' => .error error s'
  | .ok (.done mtime) s' => .ok (target, mtime) s'
  | .ok (.data buf) s' =>
      match _hkeep : keep env temp symlink target buf s' with
      | .error error s'' => .error error s''
      | .ok target' s'' => bodyFrom env temp symlink target' s''
termination_by s.input.length
decreasing_by
  have hkept := wp_of_ok (keep_left env temp symlink target buf s' le_rfl) ‹_›
  exact hkept.trans_lt (frame_shorter ‹_›)

def body (env : Env) (temp : Place) (symlink : Bool) (target : Bytes) :
    Method (Bytes × UInt32) :=
  bodyFrom env temp symlink target

def isLink (mode : UInt32) : Bool := mode &&& S_IFMT = S_IFLNK

/-- The new file of a push that is not for a link. -/
def openTemp (env : Env) (temp : Place) (symlink : Bool) : Method Unit :=
  if symlink then pure () else make env.create temp (.file [] 0o600 none)

/-- The target without one trailing zero byte. -/
def dropNul (target : Bytes) : Bytes :=
  if target.getLast? = some 0 then target.dropLast else target

/-- The file gets its mode, or the link is made. -/
def finish (env : Env) (temp : Place) (mode : UInt32) (symlink : Bool) (target : Bytes) :
    Method Unit :=
  if symlink then do
    ensure (dropNul target ≠ [] ∧ 0 ∉ dropNul target) (.other "invalid symlink target")
    make env.symlink temp (.link (dropNul target) none)
  else do
    inject env.setPermissions
    update temp (Node.setMode (mode &&& 0o777))
    inject env.syncAll

def stamp (env : Env) (temp : Place) (mtime : UInt32) : Method Unit := do
  ensure (env.utimens = none) (.other "timestamp failed")
  update temp (Node.setTime mtime)

def OKAY : Bytes := leBytes Altdb.OKAY ++ leBytes 0

/-- The closure of `send_file`. -/
def push (env : Env) (temp target : Place) (mode : UInt32) : Method Unit := do
  ensure (mode &&& S_IFMT = 0 ∨ mode &&& S_IFMT = S_IFREG ∨ isLink mode = true)
    (.other "unsupported file type")
  openTemp env temp (isLink mode)
  let (linked, mtime) ← body env temp (isLink mode) []
  finish env temp mode (isLink mode) linked
  stamp env temp mtime
  rename env.rename temp target
  u32s env [Altdb.OKAY, 0]

def sendFile (env : Env) (path : Bytes) (mode : UInt32) : Method Unit := do
  match place path with
  | none => throw (.other "invalid target")
  | some target =>
      inject env.createDirAll
      let random ← lift env.random
      let temp := { target with name := tempName random }
      match ← attempt (push env temp target mode) with
      | .ok () => pure ()
      | .error error =>
          let _ ← attempt (removeFile env.remove temp)
          throw error

/-! ## Requests -/

/-- The path and the mode of a `SEND` request. -/
def splitMode (raw : Bytes) : Except Failure (Bytes × UInt32) :=
  match raw.reverse.dropWhile (· ≠ 44) with
  | [] => .error (.io "missing file mode")
  | _ :: before =>
      match String.fromUTF8? ⟨(raw.reverse.takeWhile (· ≠ 44)).reverse.toArray⟩ with
      | none => .error (.other "invalid utf-8")
      | some mode =>
          match parseU32 mode with
          | .ok mode => .ok (before.reverse, mode)
          | .error message => .error (.other message)

/-- The `SEND` and `SND2` requests. -/
def send (env : Env) (kind : UInt32) (raw : Bytes) : Method Unit := do
  if kind = SEND then
    let (path, mode) ← lift (splitMode raw)
    sendFile env path mode
  else
    let again ← number
    ensure (again = kind) (.other "invalid SEND setup")
    let mode ← number
    let flags ← number
    ensure (flags = 0) (.other "unsupported send flags")
    sendFile env raw mode

def handle (env : Env) (kind : UInt32) (raw : Bytes) : Method Unit :=
  if kind = STAT then stat env kind (env.metadata raw false) none false
  else if kind = STA2 ∨ kind = LST2 then
    stat env kind (env.metadata raw (kind = STA2)) none true
  else if kind = LIST ∨ kind = LIS2 then list env raw (kind = LIS2)
  else if kind = RECV ∨ kind = RCV2 then receive env kind raw
  else if kind = SEND ∨ kind = SND2 then send env kind raw
  else throw (.other "unsupported SYNC operation")

/-- The next request, or nothing for `QUIT`. -/
def request (env : Env) : Method (Option (UInt32 × Bytes)) := do
  let kind ← number
  let len ← number
  if kind = QUIT then
    ensure (len = 0) (.other "invalid QUIT")
    return none
  else
    if len = 0 ∨ 1024 < len.toNat then
      fail env (text "invalid path length")
      throw (.other "invalid path length")
    let path ← readExact len.toNat
    if 0 ∈ path then
      fail env (text "invalid path")
      throw (.other "invalid path")
    return some (kind, path)

/-- The message for a failed request. -/
def Failure.message : Failure → Bytes
  | .os code => text ("filesystem error: " ++ toString code.toNat)
  | .io _ => text ("filesystem error: " ++ toString EIO.toNat)
  | .other _ => text "unsupported or malformed SYNC request"

section Body

variable {env : Env} {temp : Place} {symlink : Bool} {target target' buf : Bytes}
  {s s' s'' : State} {error : Failure} {mtime : UInt32}

theorem body_unread (h : frame s = .error error s') :
    body env temp symlink target s = .error error s' := by
  rw [body, bodyFrom]
  split
  · next heq =>
    rw [heq] at h
    exact (EStateM.Result.error.inj h).1 ▸ (EStateM.Result.error.inj h).2 ▸ rfl
  · next heq => cases heq.symm.trans h
  · next heq => cases heq.symm.trans h

theorem body_done (h : frame s = .ok (.done mtime) s') :
    body env temp symlink target s = .ok (target, mtime) s' := by
  rw [body, bodyFrom]
  split
  · next heq => cases heq.symm.trans h
  · next heq =>
    cases heq.symm.trans h
    rfl
  · next heq => cases heq.symm.trans h

theorem body_data (h : frame s = .ok (.data buf) s') :
    body env temp symlink target s =
      EStateM.bind (keep env temp symlink target buf) (body env temp symlink) s' := by
  rw [body, bodyFrom]
  split
  · next heq => cases heq.symm.trans h
  · next heq => cases heq.symm.trans h
  · next heq =>
    cases heq.symm.trans h
    unfold EStateM.bind
    split
    · next hkeep => rw [hkeep]
    · next hkeep =>
      rw [hkeep]
      rfl

/-- The loop rule of `body`. -/
theorem wp_body {inv : Bytes → State → Prop} {post : Bytes × UInt32 → State → Prop}
    {failed : Failure → State → Prop}
    (h : ∀ target s, inv target s →
      wp frame (fun f s₁ => (∀ mtime, f = .done mtime → post (target, mtime) s₁) ∧
        ∀ buf, f = .data buf → wp (keep env temp symlink target buf) inv failed s₁) failed s)
    (hs : inv target s) : wp (body env temp symlink target) post failed s := by
  induction hlength : s.input.length using Nat.strong_induction_on generalizing target s with
  | _ n ih =>
      have hframe := h target s hs
      unfold wp
      cases hrun : frame s with
      | error error s' =>
          have hfailed := wp_of_error hframe hrun
          rw [body_unread hrun]
          exact hfailed
      | ok f s' =>
          have hnext := wp_of_ok hframe hrun
          cases f with
          | done mtime =>
              rw [body_done hrun]
              exact hnext.1 mtime rfl
          | data buf =>
              have hkeep := hnext.2 buf rfl
              rw [body_data hrun]
              unfold EStateM.bind
              cases hkept : keep env temp symlink target buf s' with
              | error error s'' =>
                  have hfailed := wp_of_error hkeep hkept
                  exact hfailed
              | ok target' s'' =>
                  have hleft := wp_of_ok
                    (keep_left env temp symlink target buf s' le_rfl) hkept
                  have hshorter := hleft.trans_lt (frame_shorter hrun)
                  exact ih _ (hlength ▸ hshorter) (wp_of_ok hkeep hkept) rfl

end Body

theorem body_left {n : ℕ} (env : Env) (temp : Place) (symlink : Bool) (target : Bytes) :
    Preserves (Left n) (body env temp symlink target) := by
  refine fun s hs => @wp_body env temp symlink target s (fun _ => Left n) (fun _ => Left n)
    (fun _ => Left n) (fun target s hs => ?_) hs
  have hframe : Preserves (Left n) frame := by
    refine .bind number_left fun _ => .bind number_left fun _ => .ite (.pure _) ?_
    exact .bind (.ensure _ _) fun _ => .bind (readExact_left _) fun _ => .pure _
  exact wp_mono (hframe s hs) (fun f s₁ h₁ => ⟨fun _ _ => h₁,
    fun buf _ => keep_left env temp symlink target buf s₁ h₁⟩) fun _ _ h => h

theorem openTemp_left {n : ℕ} (env : Env) (temp : Place) (symlink : Bool) :
    Preserves (Left n) (openTemp env temp symlink) :=
  .ite (.pure _) (make_left _ _ _)

theorem finish_left {n : ℕ} (env : Env) (temp : Place) (mode : UInt32) (symlink : Bool)
    (target : Bytes) : Preserves (Left n) (finish env temp mode symlink target) := by
  refine .ite ?_ ?_
  · exact .bind (.ensure _ _) fun _ => make_left _ _ _
  · exact .bind (inject_left _) fun _ => .bind (update_left _ _) fun _ => inject_left _

theorem stamp_left {n : ℕ} (env : Env) (temp : Place) (mtime : UInt32) :
    Preserves (Left n) (stamp env temp mtime) :=
  .bind (.ensure _ _) fun _ => update_left _ _

theorem rename_left {n : ℕ} (fault : Option Failure) (old new : Place) :
    Preserves (Left n) (rename fault old new) := by
  refine .bind (inject_left fault) fun _ => .get_bind fun s _ => ?_
  cases s.files old with
  | none => exact .throw _
  | some node => exact .ite (.modify fun _ h => left_change h _) (.pure _)

theorem removeFile_left {n : ℕ} (fault : Option Failure) (place : Place) :
    Preserves (Left n) (removeFile fault place) :=
  .bind (inject_left fault) fun _ => .get_bind fun _ _ =>
    .ite (.throw _) (.modify fun _ h => left_change h _)

theorem push_left {n : ℕ} (env : Env) (temp target : Place) (mode : UInt32) :
    Preserves (Left n) (push env temp target mode) :=
  .bind (.ensure _ _) fun _ => .bind (openTemp_left _ _ _) fun _ =>
    .bind (body_left _ _ _ _) fun _ => .bind (finish_left _ _ _ _ _) fun _ =>
      .bind (stamp_left _ _ _) fun _ => .bind (rename_left _ _ _) fun _ => u32s_left _ _

theorem sendFile_left {n : ℕ} (env : Env) (path : Bytes) (mode : UInt32) :
    Preserves (Left n) (sendFile env path mode) := by
  unfold sendFile
  cases place path with
  | none => exact .throw _
  | some target =>
      refine .bind (inject_left _) fun _ => .bind (.lift _) fun _ =>
        .bind (.attempt (push_left _ _ _ _)) fun result => ?_
      cases result with
      | ok value => exact .pure _
      | error error => exact .bind (.attempt (removeFile_left _ _)) fun _ => .throw _

theorem send_left {n : ℕ} (env : Env) (kind : UInt32) (raw : Bytes) :
    Preserves (Left n) (send env kind raw) := by
  refine .ite ?_ ?_
  · exact .bind (.lift _) fun _ => sendFile_left _ _ _
  · exact .bind number_left fun _ => .bind (.ensure _ _) fun _ => .bind number_left fun _ =>
      .bind number_left fun _ => .bind (.ensure _ _) fun _ => sendFile_left _ _ _

theorem handle_left {n : ℕ} (env : Env) (kind : UInt32) (raw : Bytes) :
    Preserves (Left n) (handle env kind raw) :=
  .ite (stat_left _ _ _ _ _) (.ite (stat_left _ _ _ _ _) (.ite (list_left _ _ _)
    (.ite (receive_left _ _ _) (.ite (send_left _ _ _) (.throw _)))))

/-- A request takes something of the input. -/
theorem request_shorter {env : Env} {s s' : State} {r : UInt32 × Bytes}
    (h : request env s = .ok (some r) s') : s'.input.length < s.input.length := by
  have hspec : wp (request env) (fun _ s' => s'.input.length < s.input.length)
      (fun _ _ => True) s := by
    unfold request
    rw [wp_bind]
    refine wp_mono number_spec ?_ fun _ _ _ => trivial
    rintro kind s₁ ⟨rest, hinput, rfl⟩
    have hshorter : rest.length < s.input.length := by
      rw [hinput, List.length_append]
      exact Nat.lt_add_of_pos_left (Nat.succ_pos 3)
    suffices h : Preserves (Left rest.length) _ from
      wp_mono (h _ le_rfl) (fun _ _ h => Nat.lt_of_le_of_lt h hshorter) fun _ _ _ => trivial
    have hpath (len : UInt32) : Preserves (Left rest.length) (do
        let path ← readExact len.toNat
        if 0 ∈ path then
          fail env (text "invalid path")
          throw (.other "invalid path")
        return some (kind, path)) :=
      .bind (readExact_left _) fun _ => .ite
        (.bind (fail_left _ _) fun _ => .bind (.throw _) fun _ => .pure _) (.pure _)
    refine .bind number_left fun len => .ite (.bind (.ensure _ _) fun _ => .pure _) ?_
    exact .ite (.bind (fail_left _ _) fun _ => .bind (.throw _) fun _ => hpath len) (hpath len)
  have hshorter := wp_of_ok hspec h
  exact hshorter

/-- Requests until `QUIT` or a failure.  The answers of the operating system
during the `i`-th request are `env i`. -/
def serve (env : ℕ → Env) (i : ℕ) (s : State) : EStateM.Result Failure State Unit :=
  match _hrequest : request (env i) s with
  | .error error s' => .error error s'
  | .ok none s' => .ok () s'
  | .ok (some (kind, path)) s' =>
      match _hhandle : handle (env i) kind path s' with
      | .ok () s'' => serve env (i + 1) s''
      | .error error s'' => .error error (final (fail (env i) error.message s''))
termination_by s.input.length
decreasing_by
  have hleft := wp_of_ok (handle_left (env i) kind path s' le_rfl) ‹_›
  exact hleft.trans_lt (request_shorter ‹_›)

/-- No file operation fails, and there is nothing to read. -/
def quiet : Env where
  metadata := fun _ _ => .error (.os ENOENT)
  readDir := fun _ => .error (.os ENOENT)
  openFile := fun _ => .error (.os ENOENT)
  sent := fun _ => none
  createDirAll := none
  random := .ok (List.replicate 8 0)
  create := none
  written := fun _ => none
  setPermissions := none
  syncAll := none
  symlink := none
  utimens := none
  rename := none
  remove := none

end Sync

end Altdb
