import Mathlib.Data.Nat.Notation

/-!
# Settings, paired hosts and control requests

The limits, the persistent settings and the requests of the command line tool.
-/

namespace Altdb

abbrev Bytes := List UInt8

/-- A reading of the monotone clock, in nanoseconds.  The origin lies before
every instant that the program computes. -/
abbrev Instant := ℕ

/-- A file descriptor. -/
abbrev Fd := ℕ

def secs (n : ℕ) : ℕ := n * 1000000000

def millis (n : ℕ) : ℕ := n * 1000000

def maxHosts : ℕ := 32
def maxTransports : ℕ := 8
def maxStreams : ℕ := 64
def pairSeconds : ℕ := 300
def maxPairFailures : ℕ := 10

inductive PortMode where
  | random
  | fixed
  deriving DecidableEq, Repr

structure Config where
  enabled : Bool
  portMode : PortMode
  fixedPort : UInt16
  allowAdbRoot : Bool
  allowShellRoot : Bool
  deriving DecidableEq, Repr

def Config.default : Config where
  enabled := true
  portMode := .random
  fixedPort := 5555
  allowAdbRoot := false
  allowShellRoot := false

def Config.validate (config : Config) : Except String Unit :=
  if 1024 ≤ config.fixedPort.toNat then .ok ()
  else .error "fixed port must be 1024–65535"

def Config.port (config : Config) : UInt16 :=
  if config.portMode = .random then 0 else config.fixedPort

structure Host where
  fingerprint : String
  publicKey : String
  name : String
  pairedAt : ℕ
  lastConnected : Option ℕ
  deriving DecidableEq, Repr

inductive Control where
  | status
  | configure (config : Config)
  | pairStart
  | pairStop
  | revoke (fingerprint : String)
  | logs
  | stop
  deriving DecidableEq, Repr

theorem Config.default_valid : Config.default.validate = .ok () := rfl

end Altdb
