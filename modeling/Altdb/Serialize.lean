import Altdb.Ipc
import Altdb.JsonText

/-!
# Serialized settings, hosts and messages

The texts that `serde_json` writes for the types of the program.  The types of
the state directory come with a reader; messages are only written here.
-/

namespace Altdb

open JsonText

/-! ## The state files -/

def PortMode.codec : Codec PortMode :=
  (Codec.word (Codec.string.write "fixed") (Codec.string.write "random")
    fun _ => rfl).map (fun b => if b then .fixed else .random) (· = .fixed)
    fun mode => by cases mode <;> rfl

def u16 : Codec UInt16 :=
  Codec.nat.filterMap
    (fun n => if n < 65536 then some (UInt16.ofNat n) else none) UInt16.toNat
    fun n => by simp [n.toNat_lt]

def Config.codec : Codec Config :=
  (Codec.object "enabled" <| Codec.bool.field "port_mode" <|
    PortMode.codec.field "fixed_port" <| u16.field "allow_adb_root" <|
    Codec.bool.field "allow_shell_root" Codec.bool).map
    (fun (enabled, portMode, fixedPort, allowAdbRoot, allowShellRoot) =>
      ⟨enabled, portMode, fixedPort, allowAdbRoot, allowShellRoot⟩)
    (fun c => (c.enabled, c.portMode, c.fixedPort, c.allowAdbRoot,
      c.allowShellRoot))
    fun _ => rfl

def Identity.codec : Codec Identity :=
  (Codec.object "key" <| Codec.string.field "certificate" <|
    Codec.string.field "guid" Codec.string).map
    (fun (key, certificate, guid) => ⟨key, certificate, guid⟩)
    (fun i => (i.key, i.certificate, i.guid))
    fun _ => rfl

def optionalTime : Codec (Option ℕ) :=
  Codec.option Codec.nat Codec.skip_null_nat

def Host.codec : Codec Host :=
  (Codec.object "fingerprint" <| Codec.string.field "public_key" <|
    Codec.string.field "name" <| Codec.string.field "paired_at" <|
    Codec.nat.field "last_connected" optionalTime).map
    (fun (fingerprint, publicKey, name, pairedAt, lastConnected) =>
      ⟨fingerprint, publicKey, name, pairedAt, lastConnected⟩)
    (fun h => (h.fingerprint, h.publicKey, h.name, h.pairedAt,
      h.lastConnected))
    fun _ => rfl

def hostsCodec : Codec (List Host) :=
  Codec.list Host.codec fun _ rest => Codec.skip_object _ _ _ rest

/-! ## Messages -/

/-- `Ipv4Addr`, as its dotted form. -/
def addressText (address : UInt32) : Text :=
  let byte (shift : ℕ) := Nat.toDigits 10 (address.toNat / 2 ^ shift % 256)
  byte 24 ++ '.' :: byte 16 ++ '.' :: byte 8 ++ '.' :: byte 0

def Endpoint.text (ep : Endpoint) : Text :=
  opening "interface" ++ Codec.string.write ep.interface ++
    comma "index" ++ Codec.nat.write ep.index.toNat ++
    comma "address" ++ quote :: addressText ep.address ++ [quote] ++
    comma "port" ++ Codec.nat.write ep.port.toNat ++ ['}']

/-- The field that names the variant, which comes first. -/
def variant (tag name : String) : Text :=
  opening tag ++ Codec.string.write name

def Request.text : Request → Text
  | .authenticated transport fingerprint =>
      variant "op" "authenticated" ++
        comma "transport" ++ Codec.nat.write transport ++
        comma "fingerprint" ++ Codec.string.write fingerprint ++ ['}']
  | .disconnected transport =>
      variant "op" "disconnected" ++
        comma "transport" ++ Codec.nat.write transport ++ ['}']
  | .spawn transport name =>
      variant "op" "spawn" ++
        comma "transport" ++ Codec.nat.write transport ++
        comma "name" ++ Codec.string.write name ++ ['}']
  | .closeService transport service =>
      variant "op" "close_service" ++
        comma "transport" ++ Codec.nat.write transport ++
        comma "service" ++ Codec.nat.write service.toNat ++ ['}']
  | .root transport enable =>
      variant "op" "root" ++
        comma "transport" ++ Codec.nat.write transport ++
        comma "enable" ++ Codec.bool.write enable ++ ['}']
  | .pairResult epoch key =>
      variant "op" "pair_result" ++
        comma "epoch" ++ Codec.nat.write epoch ++
        comma "key" ++ key.elim Codec.null Codec.string.write ++ ['}']
  | .bindReverse transport spec =>
      variant "op" "bind_reverse" ++
        comma "transport" ++ Codec.nat.write transport ++
        comma "spec" ++ Codec.string.write spec ++ ['}']
  | .closeReverse transport spec =>
      variant "op" "close_reverse" ++
        comma "transport" ++ Codec.nat.write transport ++
        comma "spec" ++ Codec.string.write spec ++ ['}']

def Message.text : Message → Text
  | .ready => variant "type" "ready" ++ ['}']
  | .boot identity trusted endpoints mdns test =>
      variant "type" "boot" ++
        comma "identity" ++ Identity.codec.write identity ++
        comma "hosts" ++ hostsCodec.write trusted ++
        comma "endpoints" ++ writeList Endpoint.text endpoints ++
        comma "mdns" ++ writeList Endpoint.text mdns ++
        comma "test" ++ Codec.bool.write test ++ ['}']
  | .request id body =>
      variant "type" "request" ++
        comma "id" ++ Codec.nat.write id ++
        comma "request" ++ body.text ++ ['}']
  | .reply id ok message =>
      variant "type" "reply" ++
        comma "id" ++ Codec.nat.write id ++
        comma "ok" ++ Codec.bool.write ok ++
        comma "message" ++ Codec.string.write message ++ ['}']
  | .hosts trusted =>
      variant "type" "hosts" ++
        comma "hosts" ++ hostsCodec.write trusted ++ ['}']
  | .pairStart epoch code endpoints =>
      variant "type" "pair_start" ++
        comma "epoch" ++ Codec.nat.write epoch ++
        comma "code" ++ Codec.string.write code ++
        comma "endpoints" ++ writeList Endpoint.text endpoints ++ ['}']
  | .pairStop => variant "type" "pair_stop" ++ ['}']
  | .pairCommitted => variant "type" "pair_committed" ++ ['}']
  | .shutdown => variant "type" "shutdown" ++ ['}']

def ServiceStart.text (start : ServiceStart) : Text :=
  opening "name" ++ Codec.string.write start.name ++
    comma "root" ++ Codec.bool.write start.root ++
    comma "allow_su" ++ Codec.bool.write start.allowSu ++
    comma "test" ++ Codec.bool.write start.test ++
    comma "bind" ++ Codec.bool.write start.bind ++ ['}']

end Altdb
