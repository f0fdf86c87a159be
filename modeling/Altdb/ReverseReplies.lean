import Altdb.Hexadecimal
import Altdb.ReverseTable
import Altdb.StreamBounds

/-!
# Replies to reverse commands

The length in front of a reply is written with `{:04x}`, which pads to four
digits and does not cut a longer number.  The limits that keep the length below
`0x10000` are elsewhere: at most sixteen listeners, the checked endpoints, and
the names that the supervisor returns for them.
-/

namespace Altdb

open Fallible Relation
open JsonText (hexValue)

/-! ## Four digits -/

theorem hexValue_digitChar : ∀ v < 16, hexValue v.digitChar = some v := by
  decide +kernel

/-- The last digit behind the padded digits before it. -/
theorem leftpad_toDigits (n : ℕ) {k : ℕ} (hk : 0 < k) :
    (Nat.toDigits 16 n).leftpad (k + 1) '0' =
      (Nat.toDigits 16 (n / 16)).leftpad k '0' ++ [(n % 16).digitChar] := by
  rw [Nat.toDigits_eq_if (by decide)]
  split
  · next hn =>
    rw [Nat.div_eq_of_lt hn, Nat.mod_eq_of_lt hn, Nat.toDigits_of_lt_base (by decide)]
    obtain ⟨k, rfl⟩ := Nat.exists_eq_succ_of_ne_zero hk.ne'
    simp [List.leftpad, List.replicate_succ']
  · simp [List.leftpad]

/-- The digits before the rest have been read. -/
theorem radixDigits_append {limit value n : ℕ} {digits : List Char} (rest : List Char)
    (h : radixDigits limit value digits = .ok n) :
    radixDigits limit value (digits ++ rest) = radixDigits limit n rest := by
  induction digits generalizing value with
  | nil =>
      obtain rfl := Except.ok.inj h
      rfl
  | cons c digits ih =>
      rw [List.cons_append, radixDigits]
      rw [radixDigits] at h
      cases hdigit : hexValue c with
      | none => simp [hdigit] at h
      | some digit =>
          simp only [hdigit] at h ⊢
          split at h
          · next hle =>
            rw [if_pos hle]
            exact ih h
          · cases h

/-- Digits that stand for a number, padded to `k` places. -/
structure Digits (k n : ℕ) (digits : List Char) : Prop where
  length_eq : digits.length = k
  hex : ∀ c ∈ digits, isHexDigit c = true
  value : ∀ limit, n ≤ limit → radixDigits limit 0 digits = .ok n

/-- A number that fits is written with exactly `k` digits. -/
theorem digits_leftpad {k n : ℕ} (hk : 0 < k) (hn : n < 16 ^ k) :
    Digits k n ((Nat.toDigits 16 n).leftpad k '0') := by
  have hsingle {v : ℕ} (hv : v < 16) : isHexDigit v.digitChar = true := by
    rw [isHexDigit, hexValue_digitChar v hv]
    rfl
  induction k, hk using Nat.le_induction generalizing n with
  | base =>
      have hn : n < 16 := by simpa using hn
      rw [Nat.toDigits_of_lt_base hn]
      refine ⟨rfl, fun c hc => ?_, fun limit hle => ?_⟩
      · obtain rfl := List.mem_singleton.mp hc
        exact hsingle hn
      · have hread : radixDigits limit 0 [n.digitChar] = .ok n := by
          simp [radixDigits, hexValue_digitChar n hn, hle]
        exact hread
  | succ k hk ih =>
      have hrest := @ih (n / 16) (by rw [pow_succ] at hn; omega)
      have hlast : n % 16 < 16 := Nat.mod_lt n (by decide)
      rw [leftpad_toDigits n hk]
      refine ⟨by rw [List.length_append, hrest.length_eq]; rfl, fun c hc => ?_,
        fun limit hle => ?_⟩
      · rcases List.mem_append.mp hc with hc | hc
        · exact hrest.hex c hc
        · obtain rfl := List.mem_singleton.mp hc
          exact hsingle hlast
      · have hsum : n / 16 * 16 + n % 16 = n := by omega
        rw [radixDigits_append _ (hrest.value limit (by omega))]
        simp [radixDigits, hexValue_digitChar _ hlast, hsum, hle]

theorem utf8_append (s t : String) : Connection.utf8 (s ++ t) =
    Connection.utf8 s ++ Connection.utf8 t := by
  simp [Connection.utf8, String.toByteArray_append]

/-- Four hexadecimal digits that give the number of the bytes. -/
def Counts (digits : String) (body : Bytes) : Prop :=
  (Connection.utf8 digits).length = 4 ∧ (∀ c ∈ digits.toList, isHexDigit c = true) ∧
    radixDigits 65535 0 digits.toList = .ok body.length

/-- A digit is one byte. -/
theorem size_hexDigits {digits : List Char} (h : ∀ c ∈ digits, isHexDigit c = true) :
    JsonText.size digits = digits.length := by
  induction digits with
  | nil => rfl
  | cons c digits ih =>
      obtain ⟨hc, hrest⟩ := List.forall_mem_cons.mp h
      obtain ⟨v, hv⟩ := Option.isSome_iff_exists.mp hc
      have hascii := JsonText.utf8Size_of_lt (ascii_of_hexValue hv)
      rw [JsonText.size_cons, ih hrest, hascii, List.length_cons, Nat.add_comm]

theorem hex4_counts {s : String} (h : s.utf8ByteSize < 65536) :
    Counts (Connection.hex4 s.utf8ByteSize) (Connection.utf8 s) := by
  have hdigits := @digits_leftpad 4 s.utf8ByteSize (by decide) h
  rw [Connection.hex4]
  refine ⟨?_, ?_, ?_⟩
  · change (String.ofList _).utf8ByteSize = 4
    rw [← JsonText.size_toList, String.toList_ofList, size_hexDigits hdigits.hex,
      hdigits.length_eq]
  · rw [String.toList_ofList]
    exact hdigits.hex
  · rw [String.toList_ofList]
    exact hdigits.value 65535 (Nat.lt_succ_iff.mp h)

/-! ## Endpoints -/

theorem stripPrefix_eq_some {pre s rest : String} (h : stripPrefix pre s = some rest) :
    s = pre ++ rest := by
  unfold stripPrefix at h
  split at h
  · next hpre =>
    obtain rfl := Option.some_inj.mp h
    obtain ⟨tail, htail⟩ := List.isPrefixOf_iff_prefix.mp hpre
    rw [← String.toList_inj, String.toList_append, String.toList_ofList, ← htail,
      List.drop_left]
  · cases h

theorem stripPrefix_append (pre s : String) : stripPrefix pre (pre ++ s) = some s := by
  have hpre : pre.toList.isPrefixOf (pre ++ s).toList = true := by
    rw [String.toList_append, List.isPrefixOf_iff_prefix]
    exact List.prefix_append _ _
  rw [stripPrefix, if_pos hpre, String.toList_append, List.drop_left, String.ofList_toList]

/-- An endpoint does not break the line that it stands in. -/
def Unbroken (s : String) : Prop := '\n' ∉ s.toList ∧ '\r' ∉ s.toList

theorem Unbroken.append {s t : String} (hs : Unbroken s) (ht : Unbroken t) :
    Unbroken (s ++ t) := by
  simp only [Unbroken, String.toList_append, List.mem_append, not_or]
  exact ⟨⟨hs.1, ht.1⟩, ⟨hs.2, ht.2⟩⟩

theorem validateEndpoint_unbroken {spec : String} {zero : Bool}
    (h : validateEndpoint spec zero = .ok ()) : Unbroken spec := by
  have hnone : ∀ c ∈ spec.toList, c ∉ ['\x00', ';', '\n', '\r'] := by
    simpa using (validateEndpoint_cases h).1.2
  exact ⟨fun hmem => hnone _ hmem (by decide), fun hmem => hnone _ hmem (by decide)⟩

/-- A Unix endpoint has to fit into a socket address. -/
theorem unixAddress_size {spec : String} {address : UnixAddress}
    (h : unixAddress spec = .ok address) : spec.utf8ByteSize ≤ 123 := by
  have hroom {pre path : String} (hpre : pre.utf8ByteSize ≤ 16) (n : ℕ)
      (hstrip : stripPrefix pre spec = some path)
      (hpath : path.utf8ByteSize + n < sunPathSize) : spec.utf8ByteSize ≤ 123 := by
    have hsize : path.utf8ByteSize < 108 := (Nat.le_add_right _ n).trans_lt hpath
    rw [stripPrefix_eq_some hstrip, String.utf8ByteSize_append]
    omega
  unfold unixAddress at h
  dsimp only at h
  split at h
  · next path hstrip =>
    refine hroom (by decide) 1 hstrip (not_not.mp fun hlong => ?_)
    simp only [pure_bind, if_true, hlong, not_false_eq_true] at h
    split at h
    · cases h
    · simp only [not_true_eq_false, false_and, if_false] at h
      cases h
  · split at h
    · next path hstrip =>
      refine hroom (by decide) 0 hstrip (not_not.mp fun hlong => ?_)
      simp only [pure_bind, hlong, not_false_eq_true, if_true, Bool.false_eq_true, if_false] at h
      split at h
      · cases h
      · split at h
        · cases h
        · cases h
    · cases h

/-! ## The table -/

/-- A name under which a listener is remembered. -/
structure Named (spec : String) : Prop where
  size : spec.utf8ByteSize ≤ 123
  unbroken : Unbroken spec
  port : ∀ port, stripPrefix "tcp:" spec = some port → ∃ n : UInt16, port = toString n.toNat

theorem unbroken_tcpName (port : UInt16) : Unbroken ("tcp:" ++ toString port.toNat) := by
  have hdigits (c : Char) (hc : c.isDigit = false) : c ∉ (toString port.toNat).toList := by
    intro hmem
    have hrepr : (toString port.toNat).toList = Nat.toDigits 10 port.toNat := by
      rw [Nat.toString_eq_repr, Nat.repr_eq_ofList_toDigits, String.toList_ofList]
    rw [hrepr] at hmem
    have hdigit := Nat.isDigit_of_mem_toDigits (by decide) (by decide) hmem
    rw [hc] at hdigit
    cases hdigit
  constructor
  · rw [String.toList_append]
    exact fun hmem => (List.mem_append.mp hmem).elim (by decide) (hdigits _ (by decide))
  · rw [String.toList_append]
    exact fun hmem => (List.mem_append.mp hmem).elim (by decide) (hdigits _ (by decide))

/-- What the binder of a checked endpoint reports. -/
theorem reverseListener_named {bind : UInt16 → Except String (UInt16 × Fd)}
    {unixSocket : String → Except String Fd} {spec actual : String} {fd : Fd}
    (hspec : validateEndpoint spec true = .ok ())
    (h : Network.reverseListener bind unixSocket spec = .ok (fd, actual)) : Named actual := by
  rcases reverseListener_cases h with ⟨port, rfl⟩ | ⟨hstrip, rfl⟩
  · refine ⟨(size_tcpName port).trans (by decide), unbroken_tcpName port, fun text htext => ?_⟩
    rw [stripPrefix_append] at htext
    exact ⟨port, (Option.some_inj.mp htext).symm⟩
  · obtain ⟨address, haddress⟩ := (validateEndpoint_cases hspec).2 hstrip
    refine ⟨unixAddress_size haddress, validateEndpoint_unbroken hspec, fun text htext => ?_⟩
    cases hstrip.symm.trans htext

namespace Connection

variable {io : Io} {c c' : Connection} {max : ℕ}

/-- The reverse table and the packets that offer its connections, whatever the
host has asked for. -/
structure Orderly (max : ℕ) (c : Connection) : Prop where
  max_eq : c.max = max
  size : c.reverse.size ≤ 16
  named : ∀ spec ∈ c.reverse, Named spec
  targets : ∀ (spec : String) (r : Reverse), c.reverse[spec]? = some r →
    validateEndpoint r.target false = .ok ()
  offers : ∀ p, .sent p ∈ c.transcript → p.command = OPEN → p.data.length ≤ 1025

theorem orderly_steady (hio : io.Binds) : Steady io (fun _ => True) (Orderly max) where
  bytes _ := trivial
  accepted _ := trivial
  spawned _ _ _ := trivial
  sources _ _ := trivial
  aimed h := h.targets
  congr h _ hsame hreverse htranscript _ :=
    ⟨hsame.trans h.max_eq, hreverse ▸ h.size, hreverse ▸ h.named, hreverse ▸ h.targets,
      htranscript ▸ h.offers⟩
  log h hregular := by
    refine { h with offers := fun p hp hcommand => ?_ }
    rcases List.mem_append.mp hp with hold | hnew
    · exact h.offers p hold hcommand
    · have hlimit := hregular _ hnew
      rwa [Regular, payloadLimit, if_pos hcommand] at hlimit
  remove h _ := by
    refine ⟨h.max_eq, Std.TreeMap.size_erase_le.trans h.size,
      fun other hother => h.named other (Std.TreeMap.mem_of_mem_erase hother),
      Aimed.erase h.targets _ _, fun p hp hcommand => ?_⟩
    rcases List.mem_append.mp hp with hold | hnew
    · exact h.offers p hold hcommand
    · cases List.mem_singleton.mp hnew
  insert h hsize hlocal hremote hbound := by
    obtain ⟨bind, unixSocket, fd, hlistener⟩ := hio _ _ _ _ hbound
    refine { h with
      size := Std.TreeMap.size_insert_le.trans hsize
      named := fun other hother => ?_
      targets := Aimed.insert h.targets hremote _ _ }
    rcases Std.TreeMap.mem_insert.mp hother with heq | hold
    · rw [← Std.LawfulEqCmp.eq_of_compare heq]
      exact reverseListener_named hlocal hlistener
    · exact h.named other hold

theorem initial_orderly (tls : Tls) (transport max : ℕ) (now : Instant) :
    (initial tls transport max now).Orderly max where
  max_eq := rfl
  size := Nat.zero_le _
  named := by simp [initial]
  targets := by simp [initial]
  offers p hp := by cases hp

/-! ## The listing -/

/-- The line of an entry, without the line feed that ends it. -/
def entryLine (entry : String × Reverse) : String :=
  "altdb " ++ entry.1 ++ " " ++ entry.2.target

/-- Cut at the line feeds, the text has one piece for each entry of the table
and nothing behind the last line feed. -/
structure Lists (c : Connection) (text : String) : Prop where
  lines : text.toList.splitOn '\n' =
    c.reverse.toList.map (fun entry => (entryLine entry).toList) ++ [[]]
  unbroken : '\r' ∉ text.toList

/-- An entry whose name and target fit into one line. -/
structure OneLine (entry : String × Reverse) : Prop where
  size : (entryLine entry).utf8ByteSize ≤ 1154
  unbroken : Unbroken (entryLine entry)

theorem oneLine {spec : String} {r : Reverse} (hspec : Named spec)
    (htarget : validateEndpoint r.target false = .ok ()) : OneLine (spec, r) := by
  refine ⟨?_, ?_⟩
  · have hsize := validateEndpoint_size htarget
    have hname := hspec.size
    have htag : "altdb ".utf8ByteSize = 6 := by decide
    have hblank : " ".utf8ByteSize = 1 := by decide
    simp only [entryLine, String.utf8ByteSize_append]
    omega
  · have htag : Unbroken "altdb " := ⟨by decide, by decide⟩
    have hblank : Unbroken " " := ⟨by decide, by decide⟩
    exact ((htag.append hspec.unbroken).append hblank).append (validateEndpoint_unbroken htarget)

theorem Orderly.oneLine (h : c.Orderly max) : ∀ entry ∈ c.reverse.toList, OneLine entry := by
  rintro ⟨spec, r⟩ hentry
  have hstored := Std.TreeMap.mem_toList_iff_getElem?_eq_some.mp hentry
  have hmem : spec ∈ c.reverse := Std.TreeMap.mem_iff_isSome_getElem?.mpr (by simp [hstored])
  exact Connection.oneLine (h.named spec hmem) (h.targets spec r hstored)

/-- The lines of a list of entries, as `list-forward` joins them. -/
theorem lines_join (entries : List (String × Reverse)) (h : ∀ entry ∈ entries, OneLine entry) :
    let text := String.join (entries.map fun entry => entryLine entry ++ "\n")
    text.toList.splitOn '\n' = entries.map (fun entry => (entryLine entry).toList) ++ [[]] ∧
      '\r' ∉ text.toList ∧ text.utf8ByteSize ≤ 1155 * entries.length := by
  induction entries with
  | nil => exact ⟨rfl, by decide, by decide⟩
  | cons entry rest ih =>
      obtain ⟨hentry, hrest⟩ := List.forall_mem_cons.mp h
      obtain ⟨hlines, hunbroken, hsize⟩ := ih hrest
      have hfeed : "\n".toList = ['\n'] := by decide
      have hone : "\n".utf8ByteSize = 1 := by decide
      have hline := hentry.size
      dsimp only at hlines hunbroken hsize ⊢
      rw [List.map_cons, String.join_cons]
      refine ⟨?_, ?_, ?_⟩
      · rw [String.toList_append, String.toList_append, hfeed, List.append_assoc,
          List.singleton_append,
          List.splitOn_append_cons_self_of_not_mem hentry.unbroken.1, hlines]
        rfl
      · simp only [String.toList_append, List.mem_append, not_or]
        exact ⟨⟨hentry.unbroken.2, by decide⟩, hunbroken⟩
      · rw [String.utf8ByteSize_append, String.utf8ByteSize_append, List.length_cons]
        omega

/-! ## Replies -/

/-- A list of the table behind its length. -/
def Listing (c : Connection) (body : Bytes) : Prop :=
  ∃ digits text, Counts digits (utf8 text) ∧ Lists c text ∧ body = utf8 digits ++ utf8 text

/-- The forms of a reply to a command. -/
inductive Reply (c : Connection) : Bytes → Prop
  | okay : Reply c (utf8 "OKAY")
  | port (n : UInt16) (digits : String) (h : Counts digits (utf8 (toString n.toNat))) :
      Reply c (utf8 "OKAY" ++ utf8 digits ++ utf8 (toString n.toNat))
  | fail (message digits : String) (h : Counts digits (utf8 message)) :
      Reply c (utf8 "FAIL" ++ utf8 digits ++ utf8 message)
  | list (body : Bytes) (h : Listing c body) : Reply c body

theorem reply_fail (c : Connection) : Reply c failReply := by
  have hcounts := @hex4_counts "reverse operation rejected" (by decide)
  have hreply := Reply.fail (c := c) _ _ hcounts
  rw [← utf8_append, ← utf8_append] at hreply
  exact hreply

/-- At most sixteen short lines fit behind four digits. -/
theorem Orderly.listing (h : c.Orderly max) :
    let text := String.join (c.reverse.toList.map fun entry =>
      "altdb " ++ entry.1 ++ " " ++ entry.2.target ++ "\n")
    Listing c (utf8 (hex4 text.utf8ByteSize ++ text)) := by
  obtain ⟨hlines, hunbroken, hsize⟩ := lines_join c.reverse.toList h.oneLine
  have hshort := h.size
  rw [Std.TreeMap.length_toList] at hsize
  refine ⟨_, _, hex4_counts ?_, ⟨hlines, hunbroken⟩, utf8_append _ _⟩
  omega

/-- Every answer has one of the forms, and the list is one of the table that the
command found. -/
theorem Answer.reply {command : String} {body : Bytes} (h : Answer io c command body)
    (hio : io.Binds) (horderly : c.Orderly max) :
    Reply c body ∧ (command = "list-forward" → Listing c body) := by
  cases h with
  | list => exact ⟨.list _ horderly.listing, fun _ => horderly.listing⟩
  | okay hcommand => exact ⟨.okay, fun heq => absurd heq hcommand⟩
  | port hcommand transport localSpec actual port fds hlocal hbound hport =>
      refine ⟨?_, fun heq => absurd heq hcommand⟩
      obtain ⟨bind, unixSocket, fd, hlistener⟩ := hio _ _ _ _ hbound
      have hnamed := reverseListener_named hlocal hlistener
      have hsize := hnamed.size
      obtain ⟨n, rfl⟩ := hnamed.port port hport
      rw [stripPrefix_eq_some hport, String.utf8ByteSize_append] at hsize
      rw [utf8_append, utf8_append]
      exact .port n _ (hex4_counts (by omega))

/-! ## Every run -/

/-- Whatever the host has asked for, every `reverse:` command is answered in one
of the forms, with the right length in front of what follows, and what offers a
reverse connection fits into the smallest packet that a host may ask for. -/
theorem replies_framed (tls : Tls) (transport max : ℕ) (start : Instant) (hmax : 4096 ≤ max)
    (c : Connection) (hrun : ReflTransGen Acts (initial tls transport max start) c) :
    c.reverse.size ≤ 16 ∧
    (∀ io : Io, io.Binds → ∀ data name command, Names data name →
      stripPrefix "reverse:" name = some command →
      ∃ body c', openService io data c = .ok (.bytes body) c' ∧ Reply c body ∧
        (command = "list-forward" → Listing c body)) ∧
    ∀ p, .sent p ∈ c.transcript → p.command = OPEN →
      p.data.length ≤ 4096 ∧ p.data.length ≤ c.max := by
  have horderly : c.Orderly max :=
    Acts.run (fun _ => orderly_steady) (initial_orderly tls transport max start) hrun
  refine ⟨horderly.size, fun io hio data name command hname hcommand => ?_,
    fun p hp hopen => ?_⟩
  · have hanswer := @reverseCommand_answer io c command
    rw [openService_reverse hname hcommand]
    cases hdone : reverseCommand io command c with
    | ok body c' => exact ⟨body, c', rfl, (wp_of_ok hanswer hdone).reply hio horderly⟩
    | error error c' =>
        refine ⟨failReply, c', rfl, reply_fail c, ?_⟩
        rintro rfl
        cases hdone
  · have hlimit := horderly.offers p hp hopen
    rw [horderly.max_eq]
    omega

/-- A supervisor whose binders get what they ask for. -/
def binding : Io :=
  { Turn.answers ⟨3, .flush, [], .wouldBlock, none⟩ with
    broker := fun request =>
      match request with
      | .bindReverse _ spec =>
          (Network.reverseListener (fun port => .ok (port, 9)) (fun _ => .ok 9) spec).map
            fun bound => (bound.2, [bound.1])
      | _ => .ok ("", []) }

theorem binding_binds : binding.Binds := by
  intro transport spec actual fds h
  have hbound : (Network.reverseListener (fun port => .ok (port, 9)) (fun _ => .ok 9) spec).map
      (fun bound => (bound.2, [bound.1])) = .ok (actual, fds) := h
  cases hlistener : Network.reverseListener (fun port => .ok (port, 9)) (fun _ => .ok 9) spec with
  | error error =>
      rw [hlistener] at hbound
      cases hbound
  | ok bound =>
      rw [hlistener] at hbound
      obtain ⟨rfl, -⟩ := Prod.mk.inj (Except.ok.inj hbound)
      exact ⟨_, _, bound.1, hlistener⟩

/-- The host forwards a port and asks for the list. -/
theorem replies_framed_forward :
    ∃ c, ReflTransGen Acts fresh c ∧ c.reverse.size = 1 ∧
      ∃ body c', openService binding (reversePayload "list-forward") c = .ok (.bytes body) c' ∧
        Listing c body := by
  have hstep : Acts fresh { final (perform binding
      (.packet ⟨OPEN, 7, 0, reversePayload "forward:tcp:0006000;tcp:80"⟩) fresh) with
        clock := binding.now } := ⟨binding, _, binding_binds, rfl⟩
  have hname : Names (reversePayload "list-forward") "reverse:list-forward" :=
    ⟨by decide +kernel, by decide +kernel, by decide +kernel⟩
  have hframed := replies_framed _ _ _ _ (by decide) _ (.single hstep)
  obtain ⟨body, c', hopen, -, hlisting⟩ :=
    hframed.2.1 binding binding_binds _ _ "list-forward" hname (by decide +kernel)
  exact ⟨_, .single hstep, by decide +kernel, body, c', hopen, hlisting rfl⟩

end Connection

end Altdb
