import Altdb.Config

/-!
# Names of services and socket endpoints

The text checks that the supervisor and the connection apply to a service
name or an endpoint before anything is started for it.
-/

namespace Altdb

/-- `str::strip_prefix`. -/
def stripPrefix (pre s : String) : Option String :=
  if pre.toList.isPrefixOf s.toList then
    some (String.ofList (s.toList.drop pre.toList.length))
  else none

/-- `str::starts_with`. -/
def startsWith (pre s : String) : Bool := pre.toList.isPrefixOf s.toList

/-- `str::split_once` at a character. -/
def splitOnce (separator : Char) (s : String) : Option (String × String) :=
  match s.toList.dropWhile fun c => c ≠ separator with
  | [] => none
  | _ :: after =>
      some (String.ofList (s.toList.takeWhile fun c => c ≠ separator),
        String.ofList after)

/-- The digit loop of `str::parse` for an unsigned type with the greatest
value `limit`. -/
def parseDigits (limit value : ℕ) : List Char → Except String ℕ
  | [] => .ok value
  | c :: rest =>
      if c.isDigit then
        let next := value * 10 + (c.toNat - '0'.toNat)
        if next ≤ limit then parseDigits limit next rest
        else .error "number too large to fit in target type"
      else .error "invalid digit found in string"

/-- `str::parse` for an unsigned type: decimal digits after an optional plus
sign. -/
def parseUnsigned (limit : ℕ) (s : String) : Except String ℕ :=
  match s.toList with
  | [] => .error "cannot parse integer from empty string"
  | ['+'] => .error "invalid digit found in string"
  | '+' :: digits => parseDigits limit 0 digits
  | digits => parseDigits limit 0 digits

def parseU16 (s : String) : Except String UInt16 :=
  (parseUnsigned 65535 s).map UInt16.ofNat

def parseU32 (s : String) : Except String UInt32 :=
  (parseUnsigned 4294967295 s).map UInt32.ofNat

/-- The Unix address that `network::unix_address` builds from a specification:
an abstract name or an absolute path. -/
structure UnixAddress where
  isAbstract : Bool
  path : String
  deriving DecidableEq, Repr

/-- The room for a name in a Unix socket address. -/
def sunPathSize : ℕ := 108

def unixAddress (spec : String) : Except String UnixAddress := do
  let address : UnixAddress ←
    match stripPrefix "localabstract:" spec with
    | some path => pure ⟨true, path⟩
    | none =>
        match stripPrefix "localfilesystem:" spec with
        | some path => pure ⟨false, path⟩
        | none => throw "unsupported Unix socket"
  if ¬(address.path ≠ "" ∧ '\x00' ∉ address.path.toList) then
    throw "invalid Unix socket name"
  if ¬address.isAbstract ∧ ¬startsWith "/" address.path then
    throw "Unix socket path must be absolute"
  if ¬(address.path.utf8ByteSize + (if address.isAbstract then 1 else 0) <
      sunPathSize) then
    throw "Unix socket name too long"
  return address

def validateEndpoint (spec : String) (zero : Bool) : Except String Unit := do
  if ¬(spec.utf8ByteSize ≤ 1024 ∧
      ¬spec.toList.any fun c => c ∈ ['\x00', ';', '\n', '\r']) then
    throw "invalid socket endpoint"
  match stripPrefix "tcp:" spec with
  | some port =>
      let port ← parseU16 port
      if ¬(zero ∨ port ≠ 0) then throw "zero destination port"
  | none => let _ ← unixAddress spec

structure ShellArgs where
  command : String
  pty : Bool
  v2 : Bool
  term : String
  deriving DecidableEq, Repr

/-- One option of a `shell` header. -/
def ShellArgs.option (args : ShellArgs) (opt : String) :
    Except String ShellArgs :=
  if opt = "v2" then .ok { args with v2 := true }
  else if opt = "raw" then .ok { args with pty := false }
  else if opt = "pty" then .ok { args with pty := true }
  else
    match stripPrefix "TERM=" opt with
    | some term =>
        if opt.utf8ByteSize ≤ 128 then .ok { args with term := term }
        else .error "TERM too long"
    | none => .ok args

def ShellArgs.parse (name : String) : Except String ShellArgs := do
  if ¬(name.utf8ByteSize ≤ 4096 ∧ '\x00' ∉ name.toList) then
    throw "invalid service request"
  if let some command := stripPrefix "exec:" name then
    return { command := command, pty := false, v2 := false, term := "dumb" }
  if let some target := stripPrefix "reboot:" name then
    if target ∉ ["", "bootloader", "recovery", "sideload",
        "sideload-auto-reboot", "fastboot"] then
      throw "unsupported reboot target"
    if startsWith "sideload" target then throw "sideload is not supported"
    return {
      command := "/system/bin/reboot " ++ target
      pty := false
      v2 := false
      term := "dumb" }
  let some (header, command) := splitOnce ':' name
    | throw "unsupported service"
  match (header.toList.splitOn ',').map String.ofList with
  | "shell" :: options =>
      options.foldlM ShellArgs.option {
        command := command
        pty := command = ""
        v2 := false
        term := "dumb" }
  | _ => throw "unsupported service"

end Altdb
