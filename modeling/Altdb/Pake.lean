import Altdb.JsonText
import Altdb.PacketFormat
import Mathlib.Logic.Function.Basic

/-!
# The pairing channel

Both ends of a pairing derive a key and then seal messages under nonces that
count up.  Each direction has its own counter, which moves on with a message
that was sealed or opened and stays where it is otherwise.
-/

namespace Altdb

/-- What the cryptographic library does.  `none` is a failure. -/
structure Crypto (Spake Key : Type) where
  /-- `SPAKE2_process_msg` -/
  processMsg : Spake → Bytes → Option Bytes
  /-- `HKDF` of a material and an info -/
  hkdf : Bytes → Bytes → Option Bytes
  /-- `EVP_AEAD_CTX_new` -/
  aeadNew : Bytes → Option Key
  /-- `EVP_AEAD_CTX_seal` with a nonce, an input and a capacity -/
  aeadSeal : Key → Bytes → Bytes → ℕ → Option Bytes
  /-- `EVP_AEAD_CTX_open` with a nonce, an input and a capacity -/
  aeadOpen : Key → Bytes → Bytes → ℕ → Option Bytes

/-- `altdb_pake` -/
structure Pake (Spake Key : Type) where
  spake : Option Spake
  aead : Option Key
  enc : UInt64
  dec : UInt64

namespace Pake

variable {Spake Key : Type} {lib : Crypto Spake Key}

/-- A context after `altdb_pake_new`. -/
def fresh (spake : Spake) : Pake Spake Key := ⟨some spake, none, 0, 0⟩

def info : Bytes := JsonText.toBytes "adb pairing_auth aes-128-gcm key".toList

def pakeFinish (lib : Crypto Spake Key) (p : Pake Spake Key) (msg : Bytes) :
    Bool × Pake Spake Key :=
  match p.spake, p.aead with
  | some spake, none =>
      let aead := do
        let material ← lib.processMsg spake msg
        let key ← lib.hkdf material info
        lib.aeadNew key
      (aead.isSome, { p with spake := none, aead := aead })
  | _, _ => (false, p)

/-- The nonce of a sequence number. -/
def nonce (seq : UInt64) : Bytes :=
  (List.range 8).map (fun i => (seq >>> (8 * UInt64.ofNat i)).toUInt8) ++ [0, 0, 0, 0]

/-- The counter of a direction. -/
def seq (p : Pake Spake Key) (encrypt : Bool) : UInt64 := if encrypt then p.enc else p.dec

def advance (p : Pake Spake Key) (encrypt : Bool) : Pake Spake Key :=
  if encrypt then { p with enc := p.enc + 1 } else { p with dec := p.dec + 1 }

def pakeCrypt (lib : Crypto Spake Key) (p : Pake Spake Key) (encrypt : Bool) (input : Bytes)
    (capacity : ℕ) : Option Bytes × Pake Spake Key :=
  match p.aead with
  | none => (none, p)
  | some key =>
      if p.seq encrypt = 0xFFFFFFFFFFFFFFFF then (none, p)
      else
        let out :=
          if encrypt then lib.aeadSeal key (nonce (p.seq encrypt)) input capacity
          else lib.aeadOpen key (nonce (p.seq encrypt)) input capacity
        (out, if out.isSome then p.advance encrypt else p)

def finish (lib : Crypto Spake Key) (p : Pake Spake Key) (other : Bytes) :
    Except String Unit × Pake Spake Key :=
  if other.length ≠ 32 then (.error "invalid SPAKE2 message length", p)
  else
    let result := pakeFinish lib p other
    (if result.1 then .ok () else .error "SPAKE2 exchange failed", result.2)

def crypt (lib : Crypto Spake Key) (p : Pake Spake Key) (encrypt : Bool) (input : Bytes) :
    Except String Bytes × Pake Spake Key :=
  if 16400 < input.length then (.error "pairing message too large", p)
  else
    let result := pakeCrypt lib p encrypt input (input.length + 16)
    (result.1.elim (.error "pairing authentication failed") .ok, result.2)

/-! ## Single calls -/

variable {p p' : Pake Spake Key} {encrypt : Bool} {input out : Bytes} {error : String} {key : Key}

/-- The library call of a direction. -/
def aeadCall (lib : Crypto Spake Key) (encrypt : Bool) (key : Key) (seq : UInt64) (input : Bytes) :
    Option Bytes :=
  if encrypt then lib.aeadSeal key (nonce seq) input (input.length + 16)
  else lib.aeadOpen key (nonce seq) input (input.length + 16)

theorem aeadCall_eq (lib : Crypto Spake Key) (encrypt : Bool) (key : Key) (seq : UInt64)
    (input : Bytes) :
    (if encrypt then lib.aeadSeal key (nonce seq) input (input.length + 16)
      else lib.aeadOpen key (nonce seq) input (input.length + 16)) =
      aeadCall lib encrypt key seq input := rfl

/-- What a call can do. -/
theorem crypt_cases (lib : Crypto Spake Key) (p : Pake Spake Key) (encrypt : Bool)
    (input : Bytes) :
    (∃ error, p.crypt lib encrypt input = (.error error, p)) ∨
      ∃ key out, p.aead = some key ∧ p.seq encrypt ≠ 0xFFFFFFFFFFFFFFFF ∧
        aeadCall lib encrypt key (p.seq encrypt) input = some out ∧
        p.crypt lib encrypt input = (.ok out, p.advance encrypt) := by
  unfold crypt
  split
  · exact .inl ⟨_, rfl⟩
  · unfold pakeCrypt
    cases haead : p.aead with
    | none => exact .inl ⟨_, rfl⟩
    | some key =>
        dsimp only
        split
        · exact .inl ⟨_, rfl⟩
        · next hseq =>
          have hcall := aeadCall_eq lib encrypt key (p.seq encrypt) input
          cases hout : aeadCall lib encrypt key (p.seq encrypt) input with
          | none =>
              rw [hout] at hcall
              rw [hcall]
              exact .inl ⟨_, rfl⟩
          | some out =>
              rw [hout] at hcall
              rw [hcall]
              exact .inr ⟨key, out, rfl, hseq, hout, rfl⟩

/-- An error leaves both counters where they are. -/
theorem crypt_error (h : p.crypt lib encrypt input = (.error error, p')) : p' = p := by
  rcases crypt_cases lib p encrypt input with ⟨error', heq⟩ | ⟨key, out, -, -, -, heq⟩
  · exact (Prod.mk.inj (heq.symm.trans h)).2.symm
  · cases (Prod.mk.inj (heq.symm.trans h)).1

theorem crypt_ok (h : p.crypt lib encrypt input = (.ok out, p')) :
    ∃ key, p.aead = some key ∧ p.seq encrypt ≠ 0xFFFFFFFFFFFFFFFF ∧
      aeadCall lib encrypt key (p.seq encrypt) input = some out ∧ p' = p.advance encrypt := by
  rcases crypt_cases lib p encrypt input with ⟨error, heq⟩ | ⟨key, out', hkey, hseq, hout, heq⟩
  · cases (Prod.mk.inj (heq.symm.trans h)).1
  · obtain ⟨hresult, rfl⟩ := Prod.mk.inj (heq.symm.trans h)
    obtain rfl := Except.ok.inj hresult
    exact ⟨key, hkey, hseq, hout, rfl⟩

/-- A call moves the counter of its own direction only. -/
theorem crypt_other (lib : Crypto Spake Key) (p : Pake Spake Key) (encrypt : Bool)
    (input : Bytes) :
    (p.crypt lib encrypt input).2.seq (!encrypt) = p.seq (!encrypt) ∧
      (p.crypt lib encrypt input).2.spake = p.spake ∧
      (p.crypt lib encrypt input).2.aead = p.aead := by
  rcases crypt_cases lib p encrypt input with ⟨error, heq⟩ | ⟨key, out, -, -, -, heq⟩
  · rw [heq]
    exact ⟨rfl, rfl, rfl⟩
  · rw [heq]
    cases encrypt with
    | true => exact ⟨rfl, rfl, rfl⟩
    | false => exact ⟨rfl, rfl, rfl⟩

/-- A context that `altdb_pake_finish` was called on. -/
def Finished (p : Pake Spake Key) : Prop := p.spake = none ∨ p.aead.isSome

theorem pakeFinish_finished (lib : Crypto Spake Key) (p : Pake Spake Key) (msg : Bytes) :
    (pakeFinish lib p msg).2.Finished := by
  unfold pakeFinish
  split
  · exact .inl rfl
  · next h =>
    unfold Finished
    cases hspake : p.spake with
    | none => exact .inl rfl
    | some spake =>
        cases haead : p.aead with
        | none => exact absurd haead (h spake hspake)
        | some key => exact .inr rfl

theorem Finished.pakeFinish (h : p.Finished) (lib : Crypto Spake Key) (msg : Bytes) :
    pakeFinish lib p msg = (false, p) := by
  unfold Pake.pakeFinish
  split
  · next hspake haead =>
    rcases h with h | h
    · cases hspake.symm.trans h
    · rw [haead] at h
      cases h
  · rfl

/-- Finishing is refused from then on. -/
theorem Finished.refused (h : p.Finished) (lib : Crypto Spake Key) (other : Bytes) :
    ∃ error, p.finish lib other = (.error error, p) := by
  unfold finish
  split
  · exact ⟨_, rfl⟩
  · rw [h.pakeFinish]
    exact ⟨_, rfl⟩

/-! ## Nonces -/

theorem toNat_byte (seq : UInt64) {i : ℕ} (hi : i < 8) :
    (seq >>> (8 * UInt64.ofNat i)).toUInt8.toNat = seq.toNat / 2 ^ (8 * i) % 256 := by
  have hshift : (8 * UInt64.ofNat i).toNat % 64 = 8 * i := by
    rw [UInt64.toNat_mul, UInt64.toNat_ofNat']
    change 8 * (i % 2 ^ 64) % 2 ^ 64 % 64 = 8 * i
    omega
  rw [UInt64.toNat_toUInt8, UInt64.toNat_shiftRight, hshift, Nat.shiftRight_eq_div_pow]

/-- Numbers with the same bytes agree as far as the bytes reach. -/
theorem mod_eq_of_bytes {m n k : ℕ}
    (h : ∀ i < k, m / 2 ^ (8 * i) % 256 = n / 2 ^ (8 * i) % 256) :
    m % 2 ^ (8 * k) = n % 2 ^ (8 * k) := by
  induction k with
  | zero => simp [Nat.mod_one]
  | succ k ih =>
      have hbyte (x : ℕ) :
          x % 2 ^ (8 * (k + 1)) = x % 2 ^ (8 * k) + 2 ^ (8 * k) * (x / 2 ^ (8 * k) % 256) := by
        rw [Nat.mul_succ, pow_add]
        exact Nat.mod_mul
      rw [hbyte, hbyte, ih fun i hi => h i (hi.trans k.lt_succ_self), h k k.lt_succ_self]

/-- Different sequence numbers have different nonces. -/
theorem nonce_inj {m n : UInt64} (h : nonce m = nonce n) : m = n := by
  have hbytes := List.map_inj_left.mp (List.append_cancel_right h)
  have hsame : m.toNat % 2 ^ (8 * 8) = n.toNat % 2 ^ (8 * 8) := by
    apply mod_eq_of_bytes
    intro i hi
    rw [← toNat_byte m hi, ← toNat_byte n hi, hbytes i (List.mem_range.mpr hi)]
  rw [Nat.mod_eq_of_lt m.toNat_lt, Nat.mod_eq_of_lt n.toNat_lt] at hsame
  exact UInt64.toNat_inj.mp hsame

/-! ## Two ends -/

inductive Party where
  | a
  | b
  deriving DecidableEq, Repr

/-- A message that an end has sealed. -/
structure Sealed where
  party : Party
  nonce : Bytes
  plain : Bytes
  cipher : Bytes
  deriving DecidableEq, Repr

/-- Two contexts, the messages that they have sealed, and the plaintexts that
`b` has accepted. -/
structure World (Spake Key : Type) where
  pake : Party → Pake Spake Key
  log : List Sealed
  accepted : List Bytes

/-- What was sealed opens under the same key and nonce only, as the plaintext
that was sealed. -/
def IdealAead (lib : Crypto Spake Key) : Prop :=
  ∀ key nonce plain capacity cipher, lib.aeadSeal key nonce plain capacity = some cipher →
    ∀ key' nonce' capacity' plain', lib.aeadOpen key' nonce' cipher capacity' = some plain' →
      key' = key ∧ nonce' = nonce ∧ plain' = plain

namespace World

def setPake (w : World Spake Key) (t : Party) (p : Pake Spake Key) : World Spake Key :=
  { w with pake := Function.update w.pake t p }

/-- A message that may reach `b`: one that `a` has sealed, or one that nobody
has sealed and that therefore does not open. -/
def Delivered (lib : Crypto Spake Key) (w : World Spake Key) (x : Bytes) : Prop :=
  (∃ e ∈ w.log, e.party = .a ∧ e.cipher = x) ∨
    (∀ e ∈ w.log, e.cipher ≠ x) ∧
      ∀ key nonce capacity, lib.aeadOpen key nonce x capacity = none

/-- A call at one of the ends. -/
inductive Step (lib : Crypto Spake Key) (w : World Spake Key) : World Spake Key → Prop where
  | encrypt (t : Party) (input cipher : Bytes) (p : Pake Spake Key)
      (h : (w.pake t).crypt lib true input = (.ok cipher, p)) :
      Step lib w
        { w.setPake t p with log := w.log ++ [⟨t, nonce (w.pake t).enc, input, cipher⟩] }
  | encryptError (t : Party) (input : Bytes) (error : String) (p : Pake Spake Key)
      (h : (w.pake t).crypt lib true input = (.error error, p)) : Step lib w (w.setPake t p)
  /-- Anything may reach `a`. -/
  | decrypt (input : Bytes) (result : Except String Bytes) (p : Pake Spake Key)
      (h : (w.pake .a).crypt lib false input = (result, p)) : Step lib w (w.setPake .a p)
  | accept (x plain : Bytes) (p : Pake Spake Key) (hx : w.Delivered lib x)
      (h : (w.pake .b).crypt lib false x = (.ok plain, p)) :
      Step lib w { w.setPake .b p with accepted := w.accepted ++ [plain] }
  | reject (x : Bytes) (error : String) (p : Pake Spake Key) (hx : w.Delivered lib x)
      (h : (w.pake .b).crypt lib false x = (.error error, p)) : Step lib w (w.setPake .b p)
  | finish (t : Party) (other : Bytes) (result : Except String Unit) (p : Pake Spake Key)
      (h : (w.pake t).finish lib other = (result, p)) : Step lib w (w.setPake t p)

/-- Runs of two contexts that have derived the same key. -/
inductive Run (lib : Crypto Spake Key) : World Spake Key → Prop where
  | start (pake : Party → Pake Spake Key) (key : Key)
      (hderived : ∀ t, ∃ spake other,
        (fresh spake : Pake Spake Key).finish lib other = (.ok (), pake t) ∧
          (pake t).aead = some key) : Run lib ⟨pake, [], []⟩
  | step {w w' : World Spake Key} (h : Run lib w) (hstep : Step lib w w') : Run lib w'

/-- The messages of an end. -/
def sealedBy (t : Party) (log : List Sealed) : List Sealed := log.filter fun e => e.party = t

variable {w w' : World Spake Key} {t : Party} {x plain cipher : Bytes}

/-- The ends count the messages that they have sealed, and `b` those that it has
accepted. -/
structure Sound (lib : Crypto Spake Key) (key : Key) (w : World Spake Key) : Prop where
  ready : ∀ t, (w.pake t).spake = none ∧ (w.pake t).aead = some key
  nonces : ∀ t, (sealedBy t w.log).map Sealed.nonce =
    (List.range (w.pake t).enc.toNat).map fun i => nonce (UInt64.ofNat i)
  ciphers : ∀ e ∈ w.log, ∃ capacity, lib.aeadSeal key e.nonce e.plain capacity = some e.cipher
  count : w.accepted.length = (w.pake .b).dec.toNat
  front : w.accepted <+: (sealedBy .a w.log).map Sealed.plain

theorem toNat_succ {n : UInt64} (h : n ≠ 0xFFFFFFFFFFFFFFFF) : (n + 1).toNat = n.toNat + 1 := by
  have hne : n.toNat ≠ 2 ^ 64 - 1 := fun heq => h (UInt64.toNat_inj.mp heq)
  have hlt := n.toNat_lt
  rw [UInt64.toNat_add]
  change (n.toNat + 1) % 2 ^ 64 = _
  omega

/-- What a derivation leaves. -/
theorem derived {spake : Spake} {other : Bytes} {p : Pake Spake Key}
    (h : (fresh spake : Pake Spake Key).finish lib other = (.ok (), p)) :
    p.spake = none ∧ p.enc = 0 ∧ p.dec = 0 := by
  unfold finish at h
  split at h
  · cases (Prod.mk.inj h).1
  · obtain ⟨-, rfl⟩ := Prod.mk.inj h
    exact ⟨rfl, rfl, rfl⟩

theorem Run.sound_start {pake : Party → Pake Spake Key} {key : Key}
    (hderived : ∀ t, ∃ spake other,
      (fresh spake : Pake Spake Key).finish lib other = (.ok (), pake t) ∧
        (pake t).aead = some key) : Sound lib key ⟨pake, [], []⟩ := by
  refine ⟨fun t => ?_, fun t => ?_, fun e he => (by cases he), ?_, List.nil_prefix⟩
  · obtain ⟨spake, other, hfinish, hkey⟩ := hderived t
    exact ⟨(derived hfinish).1, hkey⟩
  · obtain ⟨spake, other, hfinish, hkey⟩ := hderived t
    change [] = (List.range (pake t).enc.toNat).map _
    rw [(derived hfinish).2.1]
    rfl
  · obtain ⟨spake, other, hfinish, hkey⟩ := hderived .b
    change 0 = (pake .b).dec.toNat
    rw [(derived hfinish).2.2]
    rfl

/-- A call that neither seals a message nor is one that `b` accepts. -/
theorem Sound.quiet {key : Key} {p : Pake Spake Key} (h : Sound lib key w)
    (hspake : p.spake = (w.pake t).spake) (haead : p.aead = (w.pake t).aead)
    (henc : p.enc = (w.pake t).enc) (hdec : t = .b → p.dec = (w.pake t).dec) :
    Sound lib key (w.setPake t p) := by
  have hpake : ∀ u, ((w.setPake t p).pake u).spake = (w.pake u).spake ∧
      ((w.setPake t p).pake u).aead = (w.pake u).aead ∧
      ((w.setPake t p).pake u).enc = (w.pake u).enc := by
    intro u
    change (Function.update w.pake t p u).spake = _ ∧ (Function.update w.pake t p u).aead = _ ∧
      (Function.update w.pake t p u).enc = _
    by_cases hu : u = t
    · subst hu
      rw [Function.update_self]
      exact ⟨hspake, haead, henc⟩
    · rw [Function.update_of_ne hu]
      exact ⟨rfl, rfl, rfl⟩
  refine ⟨fun u => ?_, fun u => ?_, h.ciphers, ?_, h.front⟩
  · rw [(hpake u).1, (hpake u).2.1]
    exact h.ready u
  · rw [(hpake u).2.2]
    exact h.nonces u
  · change w.accepted.length = (Function.update w.pake t p .b).dec.toNat
    by_cases hb : .b = t
    · rw [← hb, Function.update_self, hdec hb.symm, ← hb]
      exact h.count
    · rw [Function.update_of_ne hb]
      exact h.count

theorem sealedBy_append (t : Party) (log : List Sealed) (e : Sealed) :
    sealedBy t (log ++ [e]) = sealedBy t log ++ if e.party = t then [e] else [] := by
  rw [sealedBy, List.filter_append, List.filter_singleton]
  simp [sealedBy]

/-- A message is sealed under the next nonce of its end. -/
theorem Sound.seals {key : Key} {p : Pake Spake Key} {input : Bytes} (h : Sound lib key w)
    (hcrypt : (w.pake t).crypt lib true input = (.ok cipher, p)) :
    Sound lib key
      { w.setPake t p with log := w.log ++ [⟨t, nonce (w.pake t).enc, input, cipher⟩] } := by
  obtain ⟨key', hkey, hseq, hseal, rfl⟩ := crypt_ok hcrypt
  obtain rfl := Option.some.inj ((h.ready t).2.symm.trans hkey)
  have hsucc : ((w.pake t).enc + 1).toNat = (w.pake t).enc.toNat + 1 := toNat_succ hseq
  have hpake : ∀ u, u ≠ t → Function.update w.pake t ((w.pake t).advance true) u = w.pake u :=
    fun u hu => Function.update_of_ne hu _ _
  refine ⟨fun u => ?_, fun u => ?_, ?_, ?_, ?_⟩
  · change (Function.update w.pake t _ u).spake = none ∧ (Function.update w.pake t _ u).aead = _
    by_cases hu : u = t
    · subst hu
      rw [Function.update_self]
      exact h.ready u
    · rw [hpake u hu]
      exact h.ready u
  · change (sealedBy u (w.log ++ [_])).map _ =
      (List.range (Function.update w.pake t _ u).enc.toNat).map _
    rw [sealedBy_append, List.map_append, h.nonces]
    by_cases hu : u = t
    · subst hu
      rw [Function.update_self, if_pos rfl]
      change _ = (List.range ((w.pake u).enc + 1).toNat).map _
      rw [hsucc, List.range_succ, List.map_append, List.map_singleton, List.map_singleton,
        UInt64.ofNat_toNat]
    · rw [hpake u hu, if_neg (Ne.symm hu), List.map_nil, List.append_nil]
  · refine List.forall_mem_append.mpr ⟨h.ciphers, List.forall_mem_singleton.mpr ?_⟩
    exact ⟨_, hseal⟩
  · change w.accepted.length = (Function.update w.pake t _ .b).dec.toNat
    by_cases hb : .b = t
    · rw [← hb, Function.update_self]
      exact h.count
    · rw [hpake .b hb]
      exact h.count
  · change w.accepted <+: (sealedBy .a (w.log ++ [_])).map _
    rw [sealedBy_append, List.map_append]
    exact h.front.trans (List.prefix_append _ _)

/-- What `b` accepts is the next message of `a`. -/
theorem Sound.accepts {key : Key} {p : Pake Spake Key} (hideal : IdealAead lib)
    (h : Sound lib key w) (hx : w.Delivered lib x)
    (hcrypt : (w.pake .b).crypt lib false x = (.ok plain, p)) :
    Sound lib key { w.setPake .b p with accepted := w.accepted ++ [plain] } := by
  obtain ⟨key', hkey, hseq, hopen, rfl⟩ := crypt_ok hcrypt
  obtain rfl := Option.some.inj ((h.ready .b).2.symm.trans hkey)
  change lib.aeadOpen key (nonce (w.pake .b).dec) x (x.length + 16) = some plain at hopen
  have hnext : w.accepted ++ [plain] <+: (sealedBy .a w.log).map Sealed.plain := by
    rcases hx with ⟨e, he, hparty, rfl⟩ | ⟨-, hforged⟩
    · obtain ⟨capacity, hseal⟩ := h.ciphers e he
      obtain ⟨-, hnonce, rfl⟩ := hideal key e.nonce e.plain capacity e.cipher hseal key _ _ _ hopen
      have hmem : e ∈ sealedBy .a w.log := List.mem_filter.mpr ⟨he, decide_eq_true hparty⟩
      obtain ⟨i, hi, hget⟩ := List.getElem_of_mem hmem
      have hindex := congrArg (fun nonces => nonces[i]?) (h.nonces .a)
      have hlength := congrArg List.length (h.nonces .a)
      rw [List.length_map, List.length_map, List.length_range] at hlength
      have hlt := (w.pake .a).enc.toNat_lt
      have hdec : (w.pake .b).dec = UInt64.ofNat i := by
        apply nonce_inj
        rw [hnonce]
        simpa [List.getElem?_eq_getElem hi, hget, List.getElem?_range (hlength ▸ hi)] using hindex
      have hcount : w.accepted.length = i := by
        rw [h.count, hdec, UInt64.toNat_ofNat']
        exact Nat.mod_eq_of_lt (by omega)
      have htake := List.prefix_iff_eq_take.mp h.front
      rw [hcount] at htake
      have hi' : i < ((sealedBy .a w.log).map Sealed.plain).length := by rwa [List.length_map]
      have hplain : ((sealedBy .a w.log).map Sealed.plain)[i] = e.plain := by
        rw [List.getElem_map, hget]
      rw [htake, ← hplain, List.take_append_getElem]
      exact List.take_prefix _ _
    · rw [hforged] at hopen
      cases hopen
  have hready : ∀ u, ((Function.update w.pake .b ((w.pake .b).advance false)) u).spake = none ∧
      ((Function.update w.pake .b ((w.pake .b).advance false)) u).aead = some key ∧
      ((Function.update w.pake .b ((w.pake .b).advance false)) u).enc = (w.pake u).enc := by
    intro u
    by_cases hu : u = .b
    · subst hu
      rw [Function.update_self]
      exact ⟨(h.ready .b).1, (h.ready .b).2, rfl⟩
    · rw [Function.update_of_ne hu]
      exact ⟨(h.ready u).1, (h.ready u).2, rfl⟩
  refine ⟨fun u => ⟨(hready u).1, (hready u).2.1⟩, fun u => ?_, h.ciphers, ?_, hnext⟩
  · change (sealedBy u w.log).map _ = (List.range (Function.update w.pake .b _ u).enc.toNat).map _
    rw [(hready u).2.2]
    exact h.nonces u
  · change (w.accepted ++ [plain]).length = (Function.update w.pake .b _ .b).dec.toNat
    rw [Function.update_self, List.length_append, h.count]
    exact (toNat_succ hseq).symm

theorem Sound.step {key : Key} (hideal : IdealAead lib) (h : Sound lib key w)
    (hstep : Step lib w w') : Sound lib key w' := by
  cases hstep with
  | encrypt t input cipher p hcrypt => exact h.seals hcrypt
  | encryptError t input error p hcrypt =>
      obtain rfl := crypt_error hcrypt
      exact h.quiet rfl rfl rfl fun _ => rfl
  | decrypt input result p hcrypt =>
      have hother := crypt_other lib (w.pake .a) false input
      rw [hcrypt] at hother
      exact h.quiet hother.2.1 hother.2.2 hother.1 fun hb => by cases hb
  | accept x plain p hx hcrypt => exact h.accepts hideal hx hcrypt
  | reject x error p hx hcrypt =>
      obtain rfl := crypt_error hcrypt
      exact h.quiet rfl rfl rfl fun _ => rfl
  | finish t other result p hfinish =>
      have hfinished : (w.pake t).Finished := .inl (h.ready t).1
      obtain ⟨error, hrefused⟩ := hfinished.refused lib other
      obtain ⟨-, rfl⟩ := Prod.mk.inj (hrefused.symm.trans hfinish)
      exact h.quiet rfl rfl rfl fun _ => rfl

theorem Run.sound (hideal : IdealAead lib) (h : Run lib w) : ∃ key, Sound lib key w := by
  induction h with
  | start pake key hderived => exact ⟨key, sound_start hderived⟩
  | step _ hstep ih =>
      obtain ⟨key, hsound⟩ := ih
      exact ⟨key, hsound.step hideal hstep⟩

/-- No end uses a nonce twice, as its counter stops before it would wrap. -/
theorem Sound.nodup {key : Key} (h : Sound lib key w) (t : Party) :
    ((sealedBy t w.log).map Sealed.nonce).Nodup := by
  rw [h.nonces]
  refine List.Nodup.map_on ?_ List.nodup_range
  intro i hi j hj hnonce
  have hlt := (w.pake t).enc.toNat_lt
  have hi' := List.mem_range.mp hi
  have hj' := List.mem_range.mp hj
  have heq := congrArg UInt64.toNat (nonce_inj hnonce)
  rwa [UInt64.toNat_ofNat', UInt64.toNat_ofNat', Nat.mod_eq_of_lt (by omega),
    Nat.mod_eq_of_lt (by omega)] at heq

/-- The channel from `a` to `b` delivers a prefix of what was sealed, and never
uses a nonce twice; calls that fail, calls of the other direction and a second
derivation change nothing.  What the log records was sealed under the common key. -/
theorem pake_channel (hideal : IdealAead lib) (h : Run lib w) :
    w.accepted <+: (sealedBy .a w.log).map Sealed.plain ∧
      (∃ key, (∀ t, (w.pake t).aead = some key) ∧ ∀ e ∈ w.log, ∃ capacity,
        lib.aeadSeal key e.nonce e.plain capacity = some e.cipher) ∧
      (∀ t, ((sealedBy t w.log).map Sealed.nonce).Nodup) ∧
      (∀ (p p' : Pake Spake Key) (encrypt : Bool) (input : Bytes) (error : String),
        p.crypt lib encrypt input = (.error error, p') → p' = p) ∧
      (∀ (p : Pake Spake Key) (encrypt : Bool) (input : Bytes),
        (p.crypt lib encrypt input).2.seq (!encrypt) = p.seq (!encrypt)) ∧
      ∀ (p : Pake Spake Key) (other other' : Bytes), other.length = 32 →
        ∃ error, (p.finish lib other).2.finish lib other' =
          (.error error, (p.finish lib other).2) := by
  obtain ⟨key, hsound⟩ := h.sound hideal
  refine ⟨hsound.front, ⟨key, fun t => (hsound.ready t).2, hsound.ciphers⟩, hsound.nodup,
    fun p p' encrypt input error => crypt_error,
    fun p encrypt input => (crypt_other lib p encrypt input).1, ?_⟩
  intro p other other' hlength
  have hfinished : (p.finish lib other).2.Finished := by
    rw [finish, if_neg (not_not.mpr hlength)]
    exact pakeFinish_finished lib p other
  exact hfinished.refused lib other'

/-- A library whose ciphertexts show their key and nonce. -/
def plainLib : Crypto Unit UInt32 where
  processMsg := fun _ msg => some msg
  hkdf := fun material _ => some (material.take 16)
  aeadNew := fun key => some ((leWords key).getD 0 0)
  aeadSeal := fun key nonce input capacity =>
    if nonce.length = 12 ∧ input.length + 16 ≤ capacity then some (nonce ++ leBytes key ++ input)
    else none
  aeadOpen := fun key nonce input _ =>
    if nonce.length = 12 ∧ input.take 16 = nonce ++ leBytes key then some (input.drop 16)
    else none

theorem plainLib_ideal : IdealAead plainLib := by
  intro key nonce plain capacity cipher hseal key' nonce' capacity' plain' hopen
  obtain ⟨⟨hlength, -⟩, hcipher⟩ := Option.ite_none_right_eq_some.mp hseal
  obtain ⟨⟨hlength', htake⟩, hplain⟩ := Option.ite_none_right_eq_some.mp hopen
  obtain rfl := Option.some.inj hcipher
  have hsixteen : (nonce ++ leBytes key).length = 16 := by
    rw [List.length_append, hlength]
    rfl
  rw [← hsixteen, List.take_left] at htake
  obtain ⟨rfl, hkey⟩ := List.append_inj htake (hlength.trans hlength'.symm)
  have hwords : ∀ n : UInt32, leWords (leBytes n) = [n] := by
    intro n
    have hword := leWords_flatMap [n]
    rwa [List.flatMap_singleton] at hword
  refine ⟨?_, rfl, ?_⟩
  · have hboth := congrArg leWords hkey
    rw [hwords, hwords] at hboth
    exact (List.cons.inj hboth).1.symm
  · rw [← hsixteen, List.drop_left] at hplain
    exact (Option.some.inj hplain).symm

/-- The contexts of the library after a derivation. -/
def plainPake (enc dec : UInt64) : Pake Unit UInt32 := ⟨none, some 0, enc, dec⟩

/-- The first message of `a` arrives twice, and the second one after it. -/
theorem pake_channel_replayed :
    IdealAead plainLib ∧ ∃ w, Run plainLib w ∧ w.accepted = [[104], [105]] ∧
      w.accepted <+: (sealedBy .a w.log).map Sealed.plain ∧
      ((sealedBy .a w.log).map Sealed.nonce).Nodup := by
  have hstart : Run plainLib ⟨fun _ => plainPake 0 0, [], []⟩ := by
    refine .start _ 0 fun t => ⟨(), List.replicate 32 0, ?_, rfl⟩
    rfl
  have hsealed := hstart.step
    (.encrypt .a [104] (nonce 0 ++ leBytes 0 ++ [104]) (plainPake 1 0) rfl)
  have haccepted := hsealed.step (.accept (nonce 0 ++ leBytes 0 ++ [104]) [104] (plainPake 0 1)
    (.inl ⟨_, List.mem_append_right _ List.mem_cons_self, rfl, rfl⟩) rfl)
  have hrejected := haccepted.step (.reject (nonce 0 ++ leBytes 0 ++ [104])
    "pairing authentication failed" (plainPake 0 1)
    (.inl ⟨_, List.mem_append_right _ List.mem_cons_self, rfl, rfl⟩) rfl)
  have hsecond := hrejected.step
    (.encrypt .a [105] (nonce 1 ++ leBytes 0 ++ [105]) (plainPake 2 0) rfl)
  have hlast := hsecond.step (.accept (nonce 1 ++ leBytes 0 ++ [105]) [105] (plainPake 0 2)
    (.inl ⟨_, List.mem_append_right _ List.mem_cons_self, rfl, rfl⟩) rfl)
  have hchannel := pake_channel plainLib_ideal hlast
  exact ⟨plainLib_ideal, _, hlast, rfl, hchannel.1, hchannel.2.2.1 .a⟩

end World

end Pake

end Altdb
