import Altdb.Store

/-!
# Messages between the supervisor, the worker and the services
-/

namespace Altdb

structure Endpoint where
  interface : String
  index : UInt32
  address : UInt32
  port : UInt16
  deriving DecidableEq, Repr

/-- Dotted address and port. -/
def Endpoint.display (ep : Endpoint) : String :=
  let byte (shift : ℕ) := toString (ep.address.toNat / 2 ^ shift % 256)
  byte 24 ++ "." ++ byte 16 ++ "." ++ byte 8 ++ "." ++ byte 0 ++ ":" ++
    toString ep.port.toNat

inductive Request where
  | authenticated (transport : ℕ) (fingerprint : String)
  | disconnected (transport : ℕ)
  | spawn (transport : ℕ) (name : String)
  | closeService (transport : ℕ) (service : UInt32)
  | root (transport : ℕ) (enable : Bool)
  | pairResult (epoch : ℕ) (key : Option String)
  | bindReverse (transport : ℕ) (spec : String)
  | closeReverse (transport : ℕ) (spec : String)
  deriving DecidableEq, Repr

inductive Message where
  | ready
  | boot (identity : Identity) (hosts : List Host) (endpoints : List Endpoint)
      (mdns : List Endpoint) (test : Bool)
  | request (id : ℕ) (request : Request)
  | reply (id : ℕ) (ok : Bool) (message : String)
  | hosts (hosts : List Host)
  | pairStart (epoch : ℕ) (code : String) (endpoints : List Endpoint)
  | pairStop
  | pairCommitted
  | shutdown
  deriving DecidableEq, Repr

structure ServiceStart where
  name : String
  root : Bool
  allowSu : Bool
  test : Bool
  bind : Bool
  deriving DecidableEq, Repr

end Altdb
