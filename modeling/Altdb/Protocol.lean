import Altdb.Config
import Mathlib.Data.List.Basic

/-!
# ADB packets

The packet of the ADB protocol and its wire form: six little-endian words and
the payload.
-/

namespace Altdb

/-- `u32::to_le_bytes`. -/
def leBytes (n : UInt32) : Bytes :=
  [n.toUInt8, (n >>> 8).toUInt8, (n >>> 16).toUInt8, (n >>> 24).toUInt8]

/-- The command word of a four letter name. -/
def commandId (a b c d : Char) : UInt32 :=
  a.val ||| b.val <<< 8 ||| c.val <<< 16 ||| d.val <<< 24

def maxPayload : ℕ := 1024 * 1024
def chunkSize : ℕ := 64 * 1024

def OPEN : UInt32 := commandId 'O' 'P' 'E' 'N'
def OKAY : UInt32 := commandId 'O' 'K' 'A' 'Y'
def WRTE : UInt32 := commandId 'W' 'R' 'T' 'E'
def CLSE : UInt32 := commandId 'C' 'L' 'S' 'E'

structure Packet where
  command : UInt32
  arg0 : UInt32
  arg1 : UInt32
  data : Bytes
  deriving DecidableEq, Repr

/-- The sum of the payload bytes, modulo the word size. -/
def checksum (data : Bytes) : UInt32 :=
  data.foldl (fun sum x => sum + x.toUInt32) 0

/-- The bytes of a packet. -/
def Packet.encode (p : Packet) (sum : Bool) : Bytes :=
  [p.command, p.arg0, p.arg1, UInt32.ofNat p.data.length,
    if sum then checksum p.data else 0, p.command ^^^ 0xFFFFFFFF].flatMap
    leBytes ++ p.data

/-- `Packet::write`: one call of `write_all` with the whole packet. -/
def Packet.write {writer : Type} (writeAll : Bytes → Except String writer)
    (p : Packet) (sum : Bool) : Except String writer :=
  if maxPayload < p.data.length then .error "ADB packet exceeds limit"
  else writeAll (p.encode sum)

/-- `u32::from_le_bytes`. -/
def fromLeBytes (a b c d : UInt8) : UInt32 :=
  a.toUInt32 ||| b.toUInt32 <<< 8 ||| c.toUInt32 <<< 16 ||| d.toUInt32 <<< 24

/-- The words of the exact chunks of four bytes. -/
def leWords : Bytes → List UInt32
  | a :: b :: c :: d :: rest => fromLeBytes a b c d :: leWords rest
  | _ => []

/-- `Read::read_exact` on the bytes that are still to come. -/
def readExact (n : ℕ) (input : Bytes) : Except String (Bytes × Bytes) :=
  if n ≤ input.length then .ok (input.take n, input.drop n)
  else .error "failed to fill whole buffer"

/-- `Packet::read`, with the input that is left. -/
def Packet.read (input : Bytes) (max : ℕ) (verify : Bool) :
    Except String (Packet × Bytes) := do
  let (header, input) ← readExact 24 input
  let fields := leWords header
  let field (i : ℕ) : UInt32 := fields.getD i 0
  if field 0 ^^^ field 5 ≠ 0xFFFFFFFF then
    throw "bad ADB magic"
  let length := (field 3).toNat
  if min max maxPayload < length then
    throw "ADB packet exceeds limit"
  let (data, input) ← readExact length input
  if verify ∧ checksum data ≠ field 4 then
    throw "bad ADB checksum"
  return (⟨field 0, field 1, field 2, data⟩, input)

/-! The four commands of an open connection are different words. -/

theorem okay_ne_open : OKAY ≠ OPEN := by decide

theorem wrte_ne_open : WRTE ≠ OPEN := by decide

theorem clse_ne_open : CLSE ≠ OPEN := by decide

theorem wrte_ne_okay : WRTE ≠ OKAY := by decide

theorem clse_ne_okay : CLSE ≠ OKAY := by decide

theorem clse_ne_wrte : CLSE ≠ WRTE := by decide

end Altdb
