import Altdb.Framing
import Altdb.Sync

/-!
# The client of the file synchronisation

A client that knows which requests it sent takes the answers off the stream one
record at a time.  The layout of a record follows from the request and from the
first word of the record alone.
-/

namespace Altdb

namespace Sync

/-- The fields of a record.  The first version has no room for an error. -/
inductive Info where
  | v1 (mode size mtime : UInt32)
  | v2 (error : UInt32) (dev ino : UInt64) (mode nlink uid gid : UInt32) (size : UInt64)
      (atime mtime ctime : Int64)
  deriving DecidableEq, Repr

inductive Answer where
  | info (info : Info)
  | entries (entries : List (Bytes × Info))
  | content (bytes : Bytes)
  deriving DecidableEq, Repr

namespace Client

/-! ## Decoders -/

def take (n : ℕ) (input : Bytes) : Option (Bytes × Bytes) :=
  if n ≤ input.length then some (input.take n, input.drop n) else none

def word : Bytes → Option (UInt32 × Bytes)
  | a :: b :: c :: d :: rest => some (fromLeBytes a b c d, rest)
  | _ => none

def words : ℕ → Bytes → Option (List UInt32 × Bytes)
  | 0, input => some ([], input)
  | n + 1, input =>
      (word input).bind fun w => (words n w.2).map fun ws => (w.1 :: ws.1, ws.2)

/-- The word `id`. -/
def expect (id : UInt32) (input : Bytes) : Option Bytes :=
  (word input).bind fun w => if w.1 = id then some w.2 else none

/-- A length and as many bytes. -/
def counted (input : Bytes) : Option (Bytes × Bytes) :=
  (word input).bind fun w => take w.1.toNat w.2

/-- A number of 64 bits, of which the low word comes first. -/
def join (low high : UInt32) : UInt64 := low.toUInt64 ||| high.toUInt64 <<< 32

/-- The words of a record behind the first. -/
def size (v2 : Bool) : ℕ := if v2 then 17 else 3

def ofWords : Bool → List UInt32 → Option Info
  | false, [mode, size, mtime] => some (.v1 mode size mtime)
  | true, [error, dev, dev', ino, ino', mode, nlink, uid, gid, size, size', atime, atime',
      mtime, mtime', ctime, ctime'] =>
      some (.v2 error (join dev dev') (join ino ino') mode nlink uid gid (join size size')
        (join atime atime').toInt64 (join mtime mtime').toInt64 (join ctime ctime').toInt64)
  | _, _ => none

/-- A record without a name. -/
def record (id : UInt32) (v2 : Bool) (input : Bytes) : Option (Info × Bytes) :=
  (expect id input).bind fun rest => (words (size v2) rest).bind fun ws =>
    (ofWords v2 ws.1).map fun info => (info, ws.2)

/-- A record of a directory. -/
def named (id : UInt32) (v2 : Bool) (input : Bytes) : Option ((Bytes × Info) × Bytes) :=
  (record id v2 input).bind fun r => (counted r.2).map fun name => ((name.1, r.1), name.2)

/-- The first word of a directory entry. -/
def entryId (v2 : Bool) : UInt32 := if v2 then DNT2 else DENT

/-- The record at the end of a listing has the size of an entry without a name. -/
def listed (v2 : Bool) (input : Bytes) : Option Bytes :=
  (named DONE v2 input).bind fun entry => if entry.1.1 = [] then some entry.2 else none

def data (input : Bytes) : Option (Bytes × Bytes) :=
  (expect DATA input).bind fun rest => (counted rest).bind fun bytes =>
    if 0 < bytes.1.length ∧ bytes.1.length ≤ MAX then some bytes else none

/-- The end of a file. -/
def closed (input : Bytes) : Option Bytes := (expect DONE input).bind (expect 0)

def failure (input : Bytes) : Option (Bytes × Bytes) := (expect FAIL input).bind counted

/-! ### Decoders take something of the input -/

variable {input rest bytes : Bytes} {id n : UInt32} {v2 : Bool}

theorem word_shorter {w : UInt32 × Bytes} (h : word input = some w) :
    w.2.length < input.length := by
  unfold word at h
  split at h
  · obtain rfl := Option.some.inj h
    simp only [List.length_cons]
    omega
  · cases h

theorem expect_shorter (h : expect id input = some rest) : rest.length < input.length := by
  obtain ⟨w, hword, hrest⟩ := Option.bind_eq_some_iff.mp h
  split at hrest
  · obtain rfl := Option.some.inj hrest
    exact word_shorter hword
  · cases hrest

theorem counted_shorter {found : Bytes × Bytes} (h : counted input = some found) :
    found.2.length < input.length := by
  obtain ⟨w, hword, hrest⟩ := Option.bind_eq_some_iff.mp h
  unfold take at hrest
  split at hrest
  · obtain rfl := Option.some.inj hrest
    change (w.2.drop w.1.toNat).length < _
    rw [List.length_drop]
    exact (Nat.sub_le _ _).trans_lt (word_shorter hword)
  · cases hrest

theorem words_length {n : ℕ} {found : List UInt32 × Bytes} (h : words n input = some found) :
    found.2.length ≤ input.length := by
  induction n generalizing input found with
  | zero =>
      obtain rfl := Option.some.inj h
      exact le_rfl
  | succ n ih =>
      obtain ⟨w, hword, hrest⟩ := Option.bind_eq_some_iff.mp h
      obtain ⟨ws, hwords, rfl⟩ := Option.map_eq_some_iff.mp hrest
      exact (ih hwords).trans (word_shorter hword).le

theorem named_shorter {entry : Bytes × Info} (h : named id v2 input = some (entry, rest)) :
    rest.length < input.length := by
  obtain ⟨r, hrecord, hname⟩ := Option.bind_eq_some_iff.mp h
  obtain ⟨name, hcounted, heq⟩ := Option.map_eq_some_iff.mp hname
  obtain ⟨-, rfl⟩ := Prod.mk.inj heq
  obtain ⟨rest₁, hid, hfields⟩ := Option.bind_eq_some_iff.mp hrecord
  obtain ⟨ws, hwords, hinfo⟩ := Option.bind_eq_some_iff.mp hfields
  obtain ⟨info, -, rfl⟩ := Option.map_eq_some_iff.mp hinfo
  exact (counted_shorter hcounted).trans
    ((words_length hwords).trans_lt (expect_shorter hid))

theorem data_shorter (h : data input = some (bytes, rest)) : rest.length < input.length := by
  obtain ⟨rest₁, hid, hframe⟩ := Option.bind_eq_some_iff.mp h
  obtain ⟨found, hcounted, hbytes⟩ := Option.bind_eq_some_iff.mp hframe
  split at hbytes
  · obtain rfl := Option.some.inj hbytes
    exact (counted_shorter hcounted).trans (expect_shorter hid)
  · cases hbytes

/-! ## Answers -/

def entryFramer (v2 : Bool) : Framer UInt8 (Bytes × Info) Unit :=
  .ofDecoder (named (entryId v2) v2) named_shorter

def dataFramer : Framer UInt8 Bytes Unit := .ofDecoder data data_shorter

/-- The end of an answer, or the message of a failure. -/
def close (finish : Bytes → Option (Answer × Bytes)) (input : Bytes) :
    Option (Except Bytes Answer × Bytes) :=
  match failure input with
  | some found => some (.error found.1, found.2)
  | none => (finish input).map fun found => (.ok found.1, found.2)

/-- The answer to a request. -/
def reply (kind : UInt32) (input : Bytes) : Option (Except Bytes Answer × Bytes) :=
  if kind = LIST ∨ kind = LIS2 then
    let found := (entryFramer (kind = LIS2)).split input
    close (fun rest => (listed (kind = LIS2) rest).map fun rest =>
      (.entries found.1, rest)) found.2
  else if kind = RECV ∨ kind = RCV2 then
    let found := dataFramer.split input
    close (fun rest => (closed rest).map fun rest => (.content found.1.flatten, rest)) found.2
  else
    close (fun rest => (record kind (kind ≠ STAT) rest).map fun found =>
      (.info found.1, found.2)) input

/-- The answers to the requests, and the message of the request that failed.
Nothing may be left, or follow a failure. -/
def replies : List UInt32 → Bytes → Option (List Answer × Option Bytes)
  | [], input => if input = [] then some ([], none) else none
  | kind :: kinds, input =>
      match reply kind input with
      | some (.ok answer, rest) =>
          (replies kinds rest).map fun found => (answer :: found.1, found.2)
      | some (.error message, rest) => if rest = [] then some ([], some message) else none
      | none => none

/-! ## Encodings -/

theorem take_append (bytes rest : Bytes) :
    take bytes.length (bytes ++ rest) = some (bytes, rest) := by
  have hle : bytes.length ≤ (bytes ++ rest).length := by
    rw [List.length_append]
    exact Nat.le_add_right _ _
  rw [take, if_pos hle, List.take_left, List.drop_left]

theorem word_append (n : UInt32) (rest : Bytes) : word (leBytes n ++ rest) = some (n, rest) := by
  change some (fromLeBytes _ _ _ _, rest) = _
  rw [fromLeBytes_leBytes]

theorem expect_append (id : UInt32) (rest : Bytes) :
    expect id (leBytes id ++ rest) = some rest := by
  rw [expect, word_append, Option.bind_some, if_pos rfl]

theorem expect_ne {id' : UInt32} (h : id' ≠ id) (rest : Bytes) :
    expect id (leBytes id' ++ rest) = none := by
  rw [expect, word_append, Option.bind_some, if_neg h]

theorem words_append (ws : List UInt32) (rest : Bytes) :
    words ws.length (ws.flatMap leBytes ++ rest) = some (ws, rest) := by
  induction ws with
  | nil => rfl
  | cons w ws ih =>
      rw [List.length_cons, words, List.flatMap_cons, List.append_assoc, word_append,
        Option.bind_some, ih, Option.map_some]

theorem counted_append {bytes : Bytes} (h : bytes.length < 2 ^ 32) (rest : Bytes) :
    counted (leBytes (UInt32.ofNat bytes.length) ++ (bytes ++ rest)) = some (bytes, rest) := by
  rw [counted, word_append, Option.bind_some, UInt32.toNat_ofNat_of_lt' h, take_append]

theorem join_words (n : UInt64) : join n.toUInt32 (n >>> 32).toUInt32 = n := by
  apply UInt64.toNat.inj
  have hn : n.toNat < 2 ^ 64 := n.toNat_lt
  have hlow : n.toNat % 2 ^ 32 < 2 ^ 32 := Nat.mod_lt _ (by decide)
  have hjoin := Nat.two_pow_add_eq_or_of_lt hlow (n.toNat / 2 ^ 32)
  have hhigh : n.toNat / 2 ^ 32 % 2 ^ 32 * 2 ^ 32 % 2 ^ 64 = 2 ^ 32 * (n.toNat / 2 ^ 32) := by
    omega
  have hparts : (join n.toUInt32 (n >>> 32).toUInt32).toNat =
      n.toNat % 2 ^ 32 ||| n.toNat / 2 ^ 32 % 2 ^ 32 * 2 ^ 32 % 2 ^ 64 := by
    simp [join, Nat.shiftRight_eq_div_pow, Nat.shiftLeft_eq]
  rw [hparts, hhigh, Nat.or_comm, ← hjoin, Nat.div_add_mod]

/-- The words of a number of 64 bits. -/
def halves (n : UInt64) : List UInt32 := [n.toUInt32, (n >>> 32).toUInt32]

theorem leBytes64_eq (n : UInt64) : leBytes64 n = (halves n).flatMap leBytes := by
  simp only [leBytes64, halves, List.flatMap_cons, List.flatMap_nil, leBytes, List.append_nil,
    List.cons_append, List.nil_append, List.cons.injEq, and_true, ← UInt8.toNat_inj]
  simp [Nat.shiftRight_eq_div_pow]
  omega

end Client

open Client

def Info.isV2 : Info → Bool
  | .v1 .. => false
  | .v2 .. => true

/-- The words of a record behind the first. -/
def Info.words : Info → List UInt32
  | .v1 mode size mtime => [mode, size, mtime]
  | .v2 error dev ino mode nlink uid gid size atime mtime ctime =>
      [error] ++ halves dev ++ halves ino ++ [mode, nlink, uid, gid] ++ halves size ++
        halves atime.toUInt64 ++ halves mtime.toUInt64 ++ halves ctime.toUInt64

theorem Info.length_words (info : Info) : info.words.length = size info.isV2 := by
  cases info with
  | v1 => rfl
  | v2 => rfl

theorem Info.ofWords_words (info : Info) : ofWords info.isV2 info.words = some info := by
  cases info with
  | v1 => rfl
  | v2 error dev ino mode nlink uid gid size atime mtime ctime =>
      change some (Info.v2 error (join _ _) (join _ _) mode nlink uid gid (join _ _)
        (join _ _).toInt64 (join _ _).toInt64 (join _ _).toInt64) = _
      simp only [join_words, Int64.toInt64_toUInt64]

/-- A record without a name. -/
def Info.bytes (id : UInt32) (info : Info) : Bytes := (id :: info.words).flatMap leBytes

/-- A record of a directory. -/
def entryBytes (id : UInt32) (entry : Bytes × Info) : Bytes :=
  entry.2.bytes id ++ (leBytes (UInt32.ofNat entry.1.length) ++ entry.1)

theorem entryBytes_append (id : UInt32) (entry : Bytes × Info) (rest : Bytes) :
    entryBytes id entry ++ rest = leBytes id ++ (entry.2.words.flatMap leBytes ++
      (leBytes (UInt32.ofNat entry.1.length) ++ (entry.1 ++ rest))) := by
  rw [entryBytes, Info.bytes, List.flatMap_cons]
  simp only [List.append_assoc]

def failBytes (message : Bytes) : Bytes :=
  leBytes FAIL ++ (leBytes (UInt32.ofNat message.length) ++ message)

namespace Client

variable {kind id : UInt32} {v2 : Bool}

theorem record_append (id : UInt32) (info : Info) (rest : Bytes) :
    record id info.isV2 (info.bytes id ++ rest) = some (info, rest) := by
  have hwords := words_append info.words rest
  rw [info.length_words] at hwords
  rw [record, Info.bytes, List.flatMap_cons, List.append_assoc, expect_append,
    Option.bind_some, hwords, Option.bind_some, info.ofWords_words, Option.map_some]

theorem named_append (id : UInt32) {entry : Bytes × Info} (h : entry.1.length < 2 ^ 32)
    (rest : Bytes) :
    named id entry.2.isV2 (entryBytes id entry ++ rest) = some (entry, rest) := by
  rw [named, entryBytes, List.append_assoc, record_append, Option.bind_some,
    List.append_assoc, counted_append h, Option.map_some]

theorem named_ne {id' : UInt32} (h : id' ≠ id) (rest : Bytes) :
    named id v2 (leBytes id' ++ rest) = none := by
  rw [named, record, expect_ne h, Option.bind_none, Option.bind_none]

theorem data_append {bytes : Bytes} (hpos : 0 < bytes.length) (hmax : bytes.length ≤ MAX)
    (rest : Bytes) : data ((Frame.data bytes).bytes ++ rest) = some (bytes, rest) := by
  have hlength : bytes.length < 2 ^ 32 := hmax.trans_lt (by decide)
  rw [data, Frame.bytes, List.append_assoc, List.append_assoc, expect_append,
    Option.bind_some, counted_append hlength, Option.bind_some, if_pos ⟨hpos, hmax⟩]

theorem data_ne {id' : UInt32} (h : id' ≠ DATA) (rest : Bytes) :
    data (leBytes id' ++ rest) = none := by
  rw [data, expect_ne h, Option.bind_none]

theorem failure_append {message : Bytes} (h : message.length < 2 ^ 32) (rest : Bytes) :
    failure (failBytes message ++ rest) = some (message, rest) := by
  rw [failure, failBytes, List.append_assoc, expect_append, Option.bind_some,
    List.append_assoc, counted_append h]

theorem failure_ne {id' : UInt32} (h : id' ≠ FAIL) (rest : Bytes) :
    failure (leBytes id' ++ rest) = none := by
  rw [failure, expect_ne h, Option.bind_none]

/-! ## Round trips -/

theorem close_failure (finish : Bytes → Option (Answer × Bytes)) {message : Bytes}
    (h : message.length < 2 ^ 32) (rest : Bytes) :
    close finish (failBytes message ++ rest) = some (.error message, rest) := by
  rw [close, failure_append h]

theorem close_finish (finish : Bytes → Option (Answer × Bytes)) {id' : UInt32}
    (h : id' ≠ FAIL) (rest : Bytes) :
    close finish (leBytes id' ++ rest) =
      (finish (leBytes id' ++ rest)).map fun found => (.ok found.1, found.2) := by
  rw [close, failure_ne h]

/-- The bytes are the reply to a request, whatever follows. -/
def Replies (kind : UInt32) (bytes : Bytes) (result : Except Bytes Answer) : Prop :=
  ∀ rest, reply kind (bytes ++ rest) = some (result, rest)

theorem replies_info {info : Info} (hkind : kind = STAT ∨ kind = STA2 ∨ kind = LST2)
    (h : info.isV2 = decide (kind ≠ STAT)) : Replies kind (info.bytes kind) (.ok (.info info)) := by
  intro rest
  have hlist : ¬ (kind = LIST ∨ kind = LIS2) := by
    rcases hkind with rfl | rfl | rfl
    all_goals decide
  have hrecv : ¬ (kind = RECV ∨ kind = RCV2) := by
    rcases hkind with rfl | rfl | rfl
    all_goals decide
  have hfail : kind ≠ FAIL := by
    rcases hkind with rfl | rfl | rfl
    all_goals decide
  have hrecord := record_append kind info rest
  rw [Info.bytes, List.flatMap_cons, List.append_assoc, h] at hrecord
  rw [reply, if_neg hlist, if_neg hrecv, Info.bytes, List.flatMap_cons, List.append_assoc,
    close_finish _ hfail, hrecord]
  rfl

/-- The directory records of a reply, up to a record of another kind. -/
theorem split_entries {entries : List (Bytes × Info)}
    (hentries : ∀ e ∈ entries, e.1.length < 2 ^ 32 ∧ e.2.isV2 = v2) {id' : UInt32}
    (h : id' ≠ entryId v2) (rest : Bytes) :
    (entryFramer v2).split (entries.flatMap (entryBytes (entryId v2)) ++ (leBytes id' ++ rest)) =
      (entries, leBytes id' ++ rest) := by
  have hitem : ∀ e ∈ entries, ∀ rest,
      (entryFramer v2).read (entryBytes (entryId v2) e ++ rest) = .item e rest := by
    intro e he rest
    obtain ⟨hlength, rfl⟩ := hentries e he
    change (named _ _ _).elim _ _ = _
    rw [named_append _ hlength]
    rfl
  have hend : (entryFramer v2).read (leBytes id' ++ rest) = .bad () := by
    change (named _ _ _).elim _ _ = _
    rw [named_ne h]
    rfl
  rw [Framer.split_flatMap entries _ hitem, Framer.split_bad hend, List.append_nil]

theorem split_data {frames : List Bytes}
    (hframes : ∀ f ∈ frames, 0 < f.length ∧ f.length ≤ MAX) {id' : UInt32} (h : id' ≠ DATA)
    (rest : Bytes) :
    dataFramer.split (frames.flatMap (fun f => (Frame.data f).bytes) ++ (leBytes id' ++ rest)) =
      (frames, leBytes id' ++ rest) := by
  have hitem : ∀ f ∈ frames, ∀ rest,
      dataFramer.read ((Frame.data f).bytes ++ rest) = .item f rest := by
    intro f hf rest
    change (data _).elim _ _ = _
    rw [data_append (hframes f hf).1 (hframes f hf).2]
    rfl
  have hend : dataFramer.read (leBytes id' ++ rest) = .bad () := by
    change (data _).elim _ _ = _
    rw [data_ne h]
    rfl
  rw [Framer.split_flatMap frames _ hitem, Framer.split_bad hend, List.append_nil]

theorem reply_list (hkind : kind = LIST ∨ kind = LIS2) (input : Bytes) :
    reply kind input =
      close (fun rest => (listed (kind = LIS2) rest).map fun rest =>
        (.entries ((entryFramer (kind = LIS2)).split input).1, rest))
        ((entryFramer (kind = LIS2)).split input).2 := by
  rw [reply, if_pos hkind]

theorem reply_receive (hkind : kind = RECV ∨ kind = RCV2) (input : Bytes) :
    reply kind input =
      close (fun rest => (closed rest).map fun rest =>
        (.content (dataFramer.split input).1.flatten, rest)) (dataFramer.split input).2 := by
  have hlist : ¬ (kind = LIST ∨ kind = LIS2) := by
    rcases hkind with rfl | rfl
    all_goals decide
  rw [reply, if_neg hlist, if_pos hkind]

theorem entryId_ne (v2 : Bool) : DONE ≠ entryId v2 ∧ FAIL ≠ entryId v2 := by
  cases v2 with
  | false => decide
  | true => decide

theorem replies_entries (hkind : kind = LIST ∨ kind = LIS2) {entries : List (Bytes × Info)}
    (hv2 : decide (kind = LIS2) = v2)
    (hentries : ∀ e ∈ entries, e.1.length < 2 ^ 32 ∧ e.2.isV2 = v2) {info : Info}
    (hinfo : info.isV2 = v2) :
    Replies kind (entries.flatMap (entryBytes (entryId v2)) ++ entryBytes DONE ([], info))
      (.ok (.entries entries)) := by
  intro rest
  have hfail : DONE ≠ FAIL := by decide
  have hlength : ([] : Bytes).length < 2 ^ 32 := by decide
  have hnamed := @named_append DONE ([], info) hlength rest
  rw [hinfo] at hnamed
  have htail := entryBytes_append DONE ([], info) rest
  rw [htail] at hnamed
  rw [reply_list hkind, hv2, List.append_assoc, htail,
    split_entries hentries (entryId_ne v2).1, close_finish _ hfail, listed, hnamed]
  rfl

theorem replies_unlisted (hkind : kind = LIST ∨ kind = LIS2) {entries : List (Bytes × Info)}
    (hv2 : decide (kind = LIS2) = v2)
    (hentries : ∀ e ∈ entries, e.1.length < 2 ^ 32 ∧ e.2.isV2 = v2) {message : Bytes}
    (h : message.length < 2 ^ 32) :
    Replies kind (entries.flatMap (entryBytes (entryId v2)) ++ failBytes message)
      (.error message) := by
  intro rest
  have hclose := fun finish => close_failure finish h rest
  rw [failBytes, List.append_assoc] at hclose
  rw [reply_list hkind, hv2, List.append_assoc, failBytes, List.append_assoc,
    split_entries hentries (entryId_ne v2).2, hclose]

theorem replies_content (hkind : kind = RECV ∨ kind = RCV2) {frames : List Bytes}
    (hframes : ∀ f ∈ frames, 0 < f.length ∧ f.length ≤ MAX) :
    Replies kind (frames.flatMap (fun f => (Frame.data f).bytes) ++ (Frame.done 0).bytes)
      (.ok (.content frames.flatten)) := by
  intro rest
  have hdata : DONE ≠ DATA := by decide
  have hfail : DONE ≠ FAIL := by decide
  rw [reply_receive hkind, List.append_assoc, Frame.bytes, List.append_assoc,
    split_data hframes hdata, close_finish _ hfail, closed, expect_append, Option.bind_some,
    expect_append]
  rfl

theorem replies_unread (hkind : kind = RECV ∨ kind = RCV2) {frames : List Bytes}
    (hframes : ∀ f ∈ frames, 0 < f.length ∧ f.length ≤ MAX) {message : Bytes}
    (h : message.length < 2 ^ 32) :
    Replies kind (frames.flatMap (fun f => (Frame.data f).bytes) ++ failBytes message)
      (.error message) := by
  intro rest
  have hdata : FAIL ≠ DATA := by decide
  have hclose := fun finish => close_failure finish h rest
  rw [failBytes, List.append_assoc] at hclose
  rw [reply_receive hkind, List.append_assoc, failBytes, List.append_assoc,
    split_data hframes hdata, hclose]

end Client

end Sync

end Altdb
