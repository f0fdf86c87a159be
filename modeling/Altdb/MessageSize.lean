import Altdb.StateSize

/-!
# Messages within the limit

A message and its descriptors go into one packet, whose size `ipc::send`
checks.  The parts of a message have limits that are set in different places:
the host list by the store, the endpoints by the network code, the identity by
the native library, and names and keys by the checks of the worker.
-/

namespace Altdb

open JsonText

def maxMessage : ℕ := 65536

def maxFds : ℕ := 64

/-- The check of `ipc::send`. -/
def checkSize (body : Text) (fds : List Fd) : Except String Unit :=
  if size body ≤ maxMessage ∧ fds.length ≤ maxFds then .ok ()
  else .error "IPC message too large"

theorem checkSize_ok {body : Text} {fds : List Fd} (hbody : size body ≤ maxMessage)
    (hfds : fds.length ≤ maxFds) : checkSize body fds = .ok () :=
  if_pos ⟨hbody, hfds⟩

/-! ## Endpoints -/

/-- What the network code promises of an endpoint list: the length is checked
when the interfaces are read, and the names are those of the kernel. -/
structure EndpointsBounded (endpoints : List Endpoint) : Prop where
  length_le : endpoints.length ≤ 32
  names : ∀ ep ∈ endpoints, ep.interface.utf8ByteSize ≤ 15

/-- The greatest size of an endpoint. -/
def endpointSize : ℕ := 170

theorem size_digits {n k : ℕ} (hk : 0 < k) (hn : n < 10 ^ k) :
    size (Nat.toDigits 10 n) ≤ k := Codec.size_nat hk hn

theorem size_addressText (address : UInt32) : size (addressText address) ≤ 15 := by
  have hbyte (shift : ℕ) :
      size (Nat.toDigits 10 (address.toNat / 2 ^ shift % 256)) ≤ 3 := by
    apply size_digits (by decide)
    omega
  have h24 := hbyte 24
  have h16 := hbyte 16
  have h8 := hbyte 8
  have h0 := hbyte 0
  have hdot : Char.utf8Size '.' = 1 := by decide
  simp only [addressText, size_append, size_cons, hdot]
  omega

theorem size_endpoint {ep : Endpoint} (hname : ep.interface.utf8ByteSize ≤ 15) :
    size ep.text ≤ endpointSize := by
  have hinterface := escapedSize_le ep.interface
  have hindex := @Codec.size_nat ep.index.toNat 10 (by decide)
    (ep.index.toNat_lt.trans (by decide))
  have hport := @Codec.size_nat ep.port.toNat 5 (by decide)
    (ep.port.toNat_lt.trans (by decide))
  have haddress := size_addressText ep.address
  have hfixed : size (opening "interface") + size (comma "index") +
      size (comma "address") + size (comma "port") + size ['}'] +
      size [quote] ≤ 43 := by decide
  have hquote : quote.utf8Size = 1 := by decide
  simp only [Endpoint.text, size_append, size_cons, Codec.size_string, hquote,
    endpointSize] at *
  omega

theorem size_endpoints {endpoints : List Endpoint}
    (h : EndpointsBounded endpoints) :
    size (writeList Endpoint.text endpoints) ≤ 5474 := by
  have hsize := @size_writeList_le Endpoint Endpoint.text endpoints endpointSize
    fun ep hmem => size_endpoint (h.names ep hmem)
  have hbound := Nat.mul_le_mul_left (endpointSize + 1) h.length_le
  exact hsize.trans (Nat.add_le_add_left hbound 2)

/-! ## Messages of the supervisor -/

/-- An identity as `Identity::generate` makes it, whose PEM texts take at most
4096 bytes in a message. -/
structure IdentityBounded (identity : Identity) : Prop where
  pem : escapedSize identity.key + escapedSize identity.certificate ≤ 4096
  guid : ∃ random : Bytes, random.length = 16 ∧
    identity.guid = "altdb-" ++ hex random

theorem escapedSize_append (s t : String) :
    escapedSize (s ++ t) = escapedSize s + escapedSize t := by
  simp [escapedSize]

theorem size_identity {identity : Identity} (h : IdentityBounded identity) :
    size (Identity.codec.write identity) ≤ 4200 := by
  obtain ⟨random, hrandom, hguid⟩ := h.guid
  have hhex := escapedSize_hex random
  have hprefix : escapedSize "altdb-" = 6 := by decide
  have hsize : escapedSize identity.guid ≤ 38 := by
    rw [hguid, escapedSize_append, hprefix]
    omega
  have hpem := h.pem
  have hfixed : size (opening "key") + size (comma "certificate") +
      size (comma "guid") + size ['}'] ≤ 40 := by decide
  change size (opening "key" ++ (Codec.string.write identity.key ++
    comma "certificate" ++ (Codec.string.write identity.certificate ++
      comma "guid" ++ Codec.string.write identity.guid) ++ ['}'])) ≤ _
  simp only [size_append, Codec.size_string]
  omega

theorem size_bool (b : Bool) : size (Codec.bool.write b) ≤ 5 := by
  cases b <;> decide

variable {digest : Bytes → Option Digest} {store : Store}

theorem size_boot {identity : Identity} {endpoints mdns : List Endpoint}
    (hidentity : IdentityBounded identity) (hstore : store.Sound digest)
    (hendpoints : EndpointsBounded endpoints) (hmdns : EndpointsBounded mdns)
    (test : Bool) :
    size (Message.boot identity store.hosts endpoints mdns test).text ≤
      maxMessage := by
  have hsize := size_identity hidentity
  have hhosts := size_hosts hstore
  have htcp := size_endpoints hendpoints
  have hudp := size_endpoints hmdns
  have htest := size_bool test
  have hfixed : size (variant "type" "boot") + size (comma "identity") +
      size (comma "hosts") + size (comma "endpoints") + size (comma "mdns") +
      size (comma "test") + size ['}'] ≤ 100 := by decide
  simp only [Message.text, size_append, maxMessage]
  omega

theorem size_hostList (hstore : store.Sound digest) :
    size (Message.hosts store.hosts).text ≤ maxMessage := by
  have hhosts := size_hosts hstore
  have hfixed : size (variant "type" "hosts") + size (comma "hosts") +
      size ['}'] ≤ 100 := by decide
  simp only [Message.text, size_append, maxMessage]
  omega

/-- `pairing_code`: six digits. -/
def PairingCode (code : String) : Prop :=
  code.toList.length = 6 ∧ ∀ c ∈ code.toList, c.isDigit

theorem plain_of_isDigit {c : Char} (h : c.isDigit) : Plain c := by
  have hbounds : 48 ≤ c.toNat ∧ c.toNat ≤ 57 := by
    simp only [Char.isDigit, Bool.and_eq_true, decide_eq_true_eq, ge_iff_le,
      UInt32.le_iff_toNat_le] at h
    exact h
  refine ⟨by omega, by omega, ?_, ?_⟩
  · rintro rfl
    exact absurd h (by decide)
  · rintro rfl
    exact absurd h (by decide)

theorem size_pairStart {epoch : ℕ} (hepoch : epoch < 2 ^ 64) {code : String}
    (hcode : PairingCode code) {endpoints : List Endpoint}
    (hendpoints : EndpointsBounded endpoints) :
    size (Message.pairStart epoch code endpoints).text ≤ maxMessage := by
  have hdigits := size_time hepoch
  have hsize := escapedSize_of_plain fun c hc => plain_of_isDigit (hcode.2 c hc)
  have hlength := hcode.1
  have htcp := size_endpoints hendpoints
  have hfixed : size (variant "type" "pair_start") + size (comma "epoch") +
      size (comma "code") + size (comma "endpoints") + size ['}'] ≤ 100 := by
    decide
  simp only [Message.text, size_append, Codec.size_string, maxMessage]
  omega

/-- The name of a service was checked by `spawn_service`. -/
theorem size_serviceStart {start : ServiceStart}
    (hname : start.name.utf8ByteSize ≤ 4096) :
    size start.text ≤ maxMessage := by
  have hsize := escapedSize_le start.name
  have hroot := size_bool start.root
  have hsu := size_bool start.allowSu
  have htest := size_bool start.test
  have hbind := size_bool start.bind
  have hfixed : size (opening "name") + size (comma "root") +
      size (comma "allow_su") + size (comma "test") + size (comma "bind") +
      size ['}'] ≤ 100 := by decide
  simp only [ServiceStart.text, size_append, Codec.size_string, maxMessage]
  omega

/-! ## Requests of the worker -/

/-- What the worker has checked of a request.  Numbers are `u64`. -/
def Request.Admitted : Request → Prop
  | .authenticated transport fingerprint => transport < 2 ^ 64 ∧
      ∃ fp : Digest, fingerprint = hex fp
  | .disconnected transport | .closeService transport _ | .root transport _ =>
      transport < 2 ^ 64
  | .spawn transport name => transport < 2 ^ 64 ∧ name.utf8ByteSize ≤ 4095
  | .pairResult epoch key => epoch < 2 ^ 64 ∧
      ∀ text ∈ key, text.utf8ByteSize ≤ 8190
  | .bindReverse transport spec | .closeReverse transport spec =>
      transport < 2 ^ 64 ∧ spec.utf8ByteSize ≤ 1024

theorem Request.size_text {request : Request} (h : request.Admitted) :
    size request.text ≤ 49500 := by
  have hfields : size (comma "transport") + size (comma "fingerprint") +
      size (comma "name") + size (comma "service") + size (comma "enable") +
      size (comma "epoch") + size (comma "key") + size (comma "spec") +
      size ['}'] ≤ 110 := by decide
  cases request with
  | authenticated transport fingerprint =>
      obtain ⟨htransport, fp, rfl⟩ := h
      have hdigits := size_time htransport
      have hsize := escapedSize_hex fp.val
      rw [fp.property] at hsize
      have htag : size (variant "op" "authenticated") ≤ 40 := by decide
      simp only [Request.text, size_append, Codec.size_string]
      omega
  | disconnected transport =>
      have hdigits := size_time h
      have htag : size (variant "op" "disconnected") ≤ 40 := by decide
      simp only [Request.text, size_append]
      omega
  | spawn transport name =>
      have hdigits := size_time h.1
      have hname := h.2
      have hsize := escapedSize_le name
      have htag : size (variant "op" "spawn") ≤ 40 := by decide
      simp only [Request.text, size_append, Codec.size_string]
      omega
  | closeService transport service =>
      have hdigits := size_time h
      have hservice := size_time (service.toNat_lt.trans (by decide))
      have htag : size (variant "op" "close_service") ≤ 40 := by decide
      simp only [Request.text, size_append]
      omega
  | root transport enable =>
      have hdigits := size_time h
      have henable := size_bool enable
      have htag : size (variant "op" "root") ≤ 40 := by decide
      simp only [Request.text, size_append]
      omega
  | pairResult epoch key =>
      have hdigits := size_time h.1
      have hkey : size (key.elim Codec.null Codec.string.write) ≤ 49142 := by
        cases key with
        | none => decide
        | some text =>
            have htext := h.2 text rfl
            have hsize := escapedSize_le text
            rw [Option.elim_some, Codec.size_string]
            omega
      have htag : size (variant "op" "pair_result") ≤ 40 := by decide
      simp only [Request.text, size_append]
      omega
  | bindReverse transport spec =>
      have hdigits := size_time h.1
      have hspec := h.2
      have hsize := escapedSize_le spec
      have htag : size (variant "op" "bind_reverse") ≤ 40 := by decide
      simp only [Request.text, size_append, Codec.size_string]
      omega
  | closeReverse transport spec =>
      have hdigits := size_time h.1
      have hspec := h.2
      have hsize := escapedSize_le spec
      have htag : size (variant "op" "close_reverse") ≤ 40 := by decide
      simp only [Request.text, size_append, Codec.size_string]
      omega

theorem size_request {id : ℕ} (hid : id < 2 ^ 64) {request : Request}
    (h : request.Admitted) :
    size (Message.request id request).text ≤ maxMessage := by
  have hsize := Request.size_text h
  have hdigits := size_time hid
  have hfixed : size (variant "type" "request") + size (comma "id") +
      size (comma "request") + size ['}'] ≤ 100 := by decide
  simp only [Message.text, size_append, maxMessage]
  omega

end Altdb
