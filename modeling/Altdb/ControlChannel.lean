import Altdb.CommandLine
import Altdb.DaemonLoop
import Altdb.JsonValue
import Altdb.PacketFormat

/-!
# The control channel

A request of the page travels as JSON, as base64 in a shell command, as JSON
again on the control socket, and its answer the same way back.  The shell and
the socket stand on both ends for untrusted data: the command holds strings of
the page, and any process may connect to the socket.
-/

namespace Altdb

open Fallible JsonText

/-! ## Values -/

def PortMode.value : PortMode → Value
  | .random => .string "random"
  | .fixed => .string "fixed"

def Config.fields (config : Config) : List (String × Value) :=
  [("enabled", .bool config.enabled), ("port_mode", config.portMode.value),
    ("fixed_port", .nat config.fixedPort.toNat),
    ("allow_adb_root", .bool config.allowAdbRoot),
    ("allow_shell_root", .bool config.allowShellRoot)]

def optionalValue : Option ℕ → Value
  | some n => .nat n
  | none => .null

def Host.fields (host : Host) : List (String × Value) :=
  [("fingerprint", .string host.fingerprint), ("public_key", .string host.publicKey),
    ("name", .string host.name), ("paired_at", .nat host.pairedAt),
    ("last_connected", optionalValue host.lastConnected)]

/-- The request as the page and the client write it, its tag first. -/
def Control.value : Control → Value
  | .status => .object [("op", .string "status")]
  | .configure config =>
      .object [("op", .string "configure"), ("config", .object config.fields)]
  | .pairStart => .object [("op", .string "pair_start")]
  | .pairStop => .object [("op", .string "pair_stop")]
  | .revoke fingerprint =>
      .object [("op", .string "revoke"), ("fingerprint", .string fingerprint)]
  | .logs => .object [("op", .string "logs")]
  | .stop => .object [("op", .string "stop")]

/-- `CARGO_PKG_VERSION`. -/
def version : String := "0.1.4"

def pairingValue : Option (String × ℕ × ℕ × List String) → Value
  | some (code, expiresAt, failures, endpoints) =>
      .map [("code", .string code), ("expires_at", .nat expiresAt),
        ("failures", .nat failures), ("endpoints", .array (endpoints.map .string))]
  | none => .null

def Status.value (status : Status) : Value :=
  .map [("version", .string version), ("state", .string status.state),
    ("reason", .string status.reason), ("root", .bool status.root),
    ("config", .map status.config.fields),
    ("hosts", .array (status.hosts.map fun host => .map host.fields)),
    ("connections", .nat status.connections),
    ("endpoints", .array (status.endpoints.map .string)),
    ("pairing", pairingValue status.pairing)]

def LogEntry.value (entry : LogEntry) : Value :=
  .map [("time", .nat entry.time), ("message", .string entry.message)]

def ControlReply.value : ControlReply → Value
  | .status value => value.value
  | .logs entries => .array (entries.map LogEntry.value)

def response : Except String ControlReply → Value
  | .ok reply => .object [("data", reply.value), ("ok", .bool true)]
  | .error error => .object [("error", .string error), ("ok", .bool false)]

/-! ## Readers -/

/-- The JSON readers of the daemon, of its client and of the page. -/
structure Formats where
  /-- `serde_json::from_slice::<Control>`. -/
  request : Bytes → Except String Control
  /-- `serde_json::from_slice::<Value>`. -/
  reply : Bytes → Except String Value
  /-- `JSON.parse`. -/
  page : Text → Option Value

def maxControl : ℕ := 16384
def maxResponse : ℕ := 1024 * 1024

def frame (body : Bytes) : Bytes := leBytes (UInt32.ofNat body.length) ++ body

/-- The length that a frame begins with. -/
def frameLength (header : Bytes) : ℕ := ((leWords header).getD 0 0).toNat

def Control.body (request : Control) : Bytes := toBytes request.value.text

/-! ## The daemon -/

/-- A connection to the control socket.  `sent` is what arrives before a read
finds the end or runs out of time, and `cut` the error of such a read. -/
structure Caller where
  uid : Except String UInt32
  timeouts : Except String Unit
  sent : Bytes
  cut : String

namespace Caller

def take (caller : Caller) (n : ℕ) (input : Bytes) : Except String (Bytes × Bytes) :=
  (readExact n input).mapError fun _ => caller.cut

/-- The request of a connection, if its process may make one. -/
def request (formats : Formats) (test : Bool) (caller : Caller) : Except String Control := do
  let root ← if test then .ok true else caller.uid.map fun uid => decide (uid = 0)
  if !root then
    throw "root required"
  caller.timeouts
  let (header, input) ← caller.take 4 caller.sent
  let len := frameLength header
  if maxControl < len then
    throw "control request too large"
  let (body, _) ← caller.take len input
  formats.request body

end Caller

/-- One connection is served. -/
def MainLoop.served (formats : Formats) (codec : KeyCodec) (env : Env) (caller : Caller)
    (l : MainLoop) : Except String ControlReply × MainLoop :=
  match caller.request formats l.daemon.test with
  | .ok request =>
      (outcome (l.daemon.control env request), l.step codec env (.control request))
  | .error error => (.error error, l)

/-- The bytes of the answer. -/
def MainLoop.accept (formats : Formats) (codec : KeyCodec) (env : Env) (caller : Caller)
    (l : MainLoop) : Bytes × MainLoop :=
  let served := l.served formats codec env caller
  (frame (toBytes (response served.1).text), served.2)

/-! ## The client -/

/-- What a client of the daemon calls, on the state of the device. -/
structure Socket (σ : Type) where
  connect : EStateM String σ Unit
  /-- Write a request and collect the answer. -/
  exchange : Bytes → EStateM String σ Bytes

/-- `daemon::control`. -/
def clientControl {σ : Type} (formats : Formats) (socket : Socket σ) (request : Control) :
    EStateM String σ Value := do
  socket.connect
  let body := request.body
  ensure (body.length ≤ maxControl) "control request too large"
  let answer ← socket.exchange (frame body)
  let (header, answer) ← lift (readExact 4 answer)
  let len := frameLength header
  ensure (len ≤ maxResponse) "control response too large"
  let (data, _) ← lift (readExact len answer)
  lift (formats.reply data)

/-- The request that the arguments after `ctl` ask for. -/
def ctlRequest (formats : Formats) : List Text → Except String Control
  | [] => .error "one control operation required"
  | option :: rest =>
      if option = "--request".toList then
        match rest with
        | [payload] =>
            if size payload ≤ 22000 then
              match Base64.urlDecode payload with
              | some bytes => formats.request bytes
              | none => .error "invalid base64"
            else .error "invalid control payload"
        | _ => .error "invalid control payload"
      else if rest ≠ [] then .error "one control operation required"
      else if option = "status".toList then .ok .status
      else if option = "logs".toList then .ok .logs
      else if option = "pair-start".toList then .ok .pairStart
      else if option = "pair-stop".toList then .ok .pairStop
      else if option = "stop".toList then .ok .stop
      else .error "unsupported control operation"

/-- The output of a command and its exit code. -/
structure Output where
  stdout : Text
  code : ℕ

def printed (reply : Value) : Output where
  stdout := reply.text ++ ['\n']
  code := match reply.field "ok" with
    | some (.bool true) => 0
    | _ => 1

/-- `altdb ctl`. -/
def ctl {σ : Type} (formats : Formats) (socket : Socket σ) (args : List Text) (s : σ) :
    Output × σ :=
  match (lift (ctlRequest formats args) >>= clientControl formats socket) s with
  | .error _ s => (⟨[], 1⟩, s)
  | .ok reply s => (printed reply, s)

/-! ## The page -/

def payload (request : Control) : Text := Base64.urlEncode request.body

def binary : Text := "/data/adb/modules/altdb/bin/altdb".toList

def command (encoded : Text) : Text :=
  binary ++ ' ' :: ("ctl".toList ++ ' ' :: ("--request".toList ++ ' ' ::
    Shell.apostrophe :: (encoded ++ [Shell.apostrophe])))

inductive RpcError where
  | encodingFailed
  | noService
  | invalidReply
  | failed
  | backend (message : String)
  deriving DecidableEq, Repr

/-- The blanks of `String.prototype.trim`. -/
def isBlank (c : Char) : Bool :=
  (isWhitespace c && c.toNat != 0x85) || c.toNat == 0xFEFF

def isBlankText (text : Text) : Bool := text.all isBlank

def rpcReply (output : Output) : Option Value → Except RpcError Value
  | none => .error .invalidReply
  | some reply =>
      match reply.field "ok" with
      | some (.bool ok) =>
          if ok ∧ output.code = 0 then .ok ((reply.field "data").getD .null)
          else
            match reply.field "error" with
            | some (.string message) =>
                if message = "" then .error .failed else .error (.backend message)
            | _ => .error .failed
      | _ => .error .invalidReply

def rpc {σ : Type} (formats : Formats) (exec : Text → σ → Output × σ) (request : Control) :
    EStateM RpcError σ Value := do
  let encoded := payload request
  ensure (encoded ≠ [] ∧ Base64.isUrlSafe encoded = true) .encodingFailed
  let output ← fun s => .ok (exec (command encoded) s).1 (exec (command encoded) s).2
  ensure (isBlankText output.stdout = false) .noService
  lift (rpcReply output (formats.page output.stdout))

/-! ## The device -/

/-- The shell of the page.  `other` is what it does with a line that is not a
plain call of the program. -/
def exec {σ : Type} (formats : Formats) (socket : Socket σ) (other : Text → σ → Output × σ)
    (line : Text) (s : σ) : Output × σ :=
  match Shell.words none false line with
  | some (program :: operation :: args) =>
      if program = binary ∧ operation = "ctl".toList then ctl formats socket args s
      else other line s
  | _ => other line s

/-- The control socket, for a process with root's uid. -/
def MainLoop.socket (formats : Formats) (codec : KeyCodec) (env : Env) : Socket MainLoop where
  connect := pure ()
  exchange bytes := fun l =>
    let served := l.accept formats codec env ⟨.ok 0, .ok (), bytes, ""⟩
    .ok served.1 served.2

/-! ## Frames -/

theorem frame_header {body : Bytes} (hbody : body.length < 2 ^ 32) :
    readExact 4 (frame body) = .ok (leBytes (UInt32.ofNat body.length), body) ∧
      frameLength (leBytes (UInt32.ofNat body.length)) = body.length := by
  constructor
  · exact readExact_append (leBytes (UInt32.ofNat body.length)) body
  · have hwords := leWords_flatMap [UInt32.ofNat body.length]
    rw [List.flatMap_singleton] at hwords
    rw [frameLength, hwords]
    exact UInt32.toNat_ofNat_of_lt' hbody

theorem readExact_all (body : Bytes) : readExact body.length body = .ok (body, []) := by
  have hread := readExact_append body []
  rwa [List.append_nil] at hread

variable {formats : Formats} {codec : KeyCodec} {env : Env} {request : Control}
  {l : MainLoop}

theorem Caller.request_frame (test : Bool) {body : Bytes} (hbody : body.length ≤ maxControl)
    (cut : String) :
    (⟨.ok 0, .ok (), frame body, cut⟩ : Caller).request formats test = formats.request body := by
  have hlt : body.length < 2 ^ 32 := hbody.trans_lt (by decide)
  obtain ⟨hheader, hlength⟩ := frame_header hlt
  have hsize : ¬ maxControl < body.length := not_lt.mpr hbody
  cases test <;>
    simp [Caller.request, Caller.take, hheader, hlength, hsize, readExact_all, bind, Except.bind,
      Except.map, Except.mapError]

/-! ## The answer of the daemon -/

def answer (env : Env) (request : Control) (l : MainLoop) : Value :=
  response (outcome (l.daemon.control env request))

/-- What the readers make of one request and its answer. -/
structure Formats.Reads (formats : Formats) (request : Control) (reply : Value) : Prop where
  request_eq : formats.request request.body = .ok request
  reply_eq : formats.reply (toBytes reply.text) = .ok reply
  page_eq : formats.page (reply.text ++ ['\n']) = some reply

theorem lift_ok_bind {ε σ α β : Type} (value : α) (next : α → EStateM ε σ β) :
    (lift (.ok value) >>= next) = next value := rfl

theorem clientControl_spec (hreads : formats.Reads request (answer env request l))
    (hanswer : (toBytes (answer env request l).text).length < 2 ^ 32) :
    wp (clientControl formats (MainLoop.socket formats codec env) request)
      (fun reply l' => request.body.length ≤ maxControl ∧
        (toBytes (answer env request l).text).length ≤ maxResponse ∧
        reply = answer env request l ∧ l' = l.step codec env (.control request))
      (fun _ l' => (maxControl < request.body.length ∧ l' = l) ∨
        request.body.length ≤ maxControl ∧
          maxResponse < (toBytes (answer env request l).text).length ∧
          l' = l.step codec env (.control request)) l := by
  obtain ⟨hheader, hlength⟩ := frame_header hanswer
  have hconnect : (MainLoop.socket formats codec env).connect = pure () := rfl
  rw [clientControl, hconnect, pure_bind, wp_bind, wp_ensure]
  constructor
  · intro hsmall
    have haccept : l.accept formats codec env ⟨.ok 0, .ok (), frame request.body, ""⟩ =
        (frame (toBytes (answer env request l).text), l.step codec env (.control request)) := by
      rw [MainLoop.accept, MainLoop.served, Caller.request_frame _ hsmall, hreads.request_eq]
      rfl
    have hexchange : (MainLoop.socket formats codec env).exchange (frame request.body) l =
        .ok (frame (toBytes (answer env request l).text))
          (l.step codec env (.control request)) := by
      change EStateM.Result.ok (l.accept formats codec env _).1 (l.accept formats codec env _).2 = _
      rw [haccept]
    rw [wp_bind]
    rw [wp, hexchange]
    dsimp only
    rw [hheader, lift_ok_bind]
    dsimp only
    rw [hlength, readExact_all, lift_ok_bind, hreads.reply_eq, wp_bind, wp_ensure]
    constructor
    · intro hfits
      exact ⟨hsmall, hfits, rfl, rfl⟩
    · intro hlarge
      exact .inr ⟨hsmall, not_le.mp hlarge, rfl⟩
  · intro hlarge
    exact .inl ⟨not_le.mp hlarge, rfl⟩

/-! ## The command -/

theorem toNat_of_safe {c : Char} (hc : Base64.UrlSafe c) : c.toNat < 0x80 := by
  have hle : ∀ d : Char, d.toNat < 0x80 → c ≤ d → c.toNat < 0x80 := by
    intro d hd hcd
    have hval : c.toNat ≤ d.toNat := UInt32.le_iff_toNat_le.mp (Char.le_def.mp hcd)
    omega
  rcases hc with hc | hc | hc | rfl | rfl
  · exact hle 'Z' (by decide) hc.2
  · exact hle 'z' (by decide) hc.2
  · exact hle '9' (by decide) hc.2
  · decide
  · decide

theorem size_of_safe {text : Text} (htext : ∀ c ∈ text, Base64.UrlSafe c) :
    size text = text.length := by
  induction text with
  | nil => rfl
  | cons c text ih =>
      have hc := htext c List.mem_cons_self
      have hone : c.utf8Size = 1 := utf8Size_of_lt (toNat_of_safe hc)
      rw [size_cons, hone, ih fun c hc => htext c (List.mem_cons_of_mem _ hc), List.length_cons]
      omega

theorem payload_size (request : Control) :
    3 * size (payload request) ≤ 4 * request.body.length + 2 := by
  rw [payload, size_of_safe (Base64.urlEncode_safe _)]
  exact Base64.urlEncode_length _

theorem body_ne_nil (request : Control) : request.body ≠ [] := by
  obtain ⟨c, more, htext, -⟩ := request.value.text_head
  have hpos := c.utf8Size_pos
  intro hnil
  have hlength := length_toBytes request.value.text
  rw [← Control.body, hnil, htext, size_cons, List.length_nil] at hlength
  omega

/-- The words of the command are the program and its three arguments, whatever strings
the request has. -/
theorem command_words (request : Control) :
    Shell.words none false (command (payload request)) =
      some [binary, "ctl".toList, "--request".toList, payload request] := by
  have hquoted := Shell.words_quoted (Shell.quote_not_safe (Base64.urlEncode_safe request.body)) []
  rw [command, Shell.words_word (by decide) (by decide), Shell.words_word (by decide) (by decide),
    Shell.words_word (by decide) (by decide)]
  rw [Shell.words, if_neg (by decide), if_pos rfl]
  change (((Shell.words (some []) true
    (payload request ++ [Shell.apostrophe])).map _).map _).map _ = _
  rw [payload, hquoted]
  rfl

theorem ctlRequest_payload (hreads : formats.request request.body = .ok request)
    (hsize : size (payload request) ≤ 22000) :
    ctlRequest formats ["--request".toList, payload request] = .ok request := by
  rw [ctlRequest, if_pos rfl]
  rw [if_pos hsize, payload, Base64.urlDecode_urlEncode]
  exact hreads

/-- What the client prints, and the state that it leaves. -/
theorem ctl_spec (hreads : formats.Reads request (answer env request l))
    (hanswer : (toBytes (answer env request l).text).length < 2 ^ 32) :
    ctl formats (MainLoop.socket formats codec env) ["--request".toList, payload request] l =
      if maxControl < request.body.length then (⟨[], 1⟩, l)
      else if maxResponse < (toBytes (answer env request l).text).length then
        (⟨[], 1⟩, l.step codec env (.control request))
      else (printed (answer env request l), l.step codec env (.control request)) := by
  have hsize := payload_size request
  rw [ctl]
  by_cases hsmall : size (payload request) ≤ 22000
  · have hspec := @clientControl_spec formats codec env request l hreads hanswer
    rw [ctlRequest_payload hreads.request_eq hsmall, lift_ok_bind]
    cases hrun : clientControl formats (MainLoop.socket formats codec env) request l with
    | ok reply l' =>
        obtain ⟨hbody, hfits, rfl, rfl⟩ := wp_of_ok hspec hrun
        rw [if_neg (not_lt.mpr hbody), if_neg (not_lt.mpr hfits)]
    | error e l' =>
        rcases wp_of_error hspec hrun with ⟨hbody, rfl⟩ | ⟨hbody, hfits, rfl⟩
        · rw [if_pos hbody]
        · rw [if_neg (not_lt.mpr hbody), if_pos hfits]
  · have hbody : maxControl < request.body.length := by
      unfold maxControl
      omega
    have hrefused : ctlRequest formats ["--request".toList, payload request] =
        .error "invalid control payload" := by
      rw [ctlRequest, if_pos rfl]
      exact if_neg hsmall
    rw [if_pos hbody, hrefused]
    rfl

/-! ## The page and the daemon -/

def shown : Except String ControlReply → Except RpcError Value
  | .ok reply => .ok reply.value
  | .error error => if error = "" then .error .failed else .error (.backend error)

theorem rpcReply_printed (result : Except String ControlReply) :
    rpcReply (printed (response result)) (some (response result)) = shown result := by
  cases result with
  | ok reply => rfl
  | error error =>
      by_cases hempty : error = ""
      · simp [rpcReply, printed, response, Value.field, shown, hempty]
      · simp [rpcReply, printed, response, Value.field, shown, hempty]

theorem printed_visible (result : Except String ControlReply) :
    isBlankText (printed (response result)).stdout = false := by
  apply List.all_eq_false.mpr
  refine ⟨'{', ?_, by decide⟩
  cases result <;> simp [printed, response, Value.text]

theorem rpc_of_exec {σ : Type} {exec : Text → σ → Output × σ} {s s' : σ} {output : Output}
    (hexec : exec (command (payload request)) s = (output, s')) :
    rpc formats exec request s =
      (ensure (isBlankText output.stdout = false) .noService >>= fun _ =>
        lift (rpcReply output (formats.page output.stdout))) s' := by
  have hencoded : payload request ≠ [] ∧ Base64.isUrlSafe (payload request) = true :=
    ⟨Base64.urlEncode_ne_nil (body_ne_nil request),
      Base64.isUrlSafe_iff.mpr (Base64.urlEncode_safe _)⟩
  have hensure : (ensure (payload request ≠ [] ∧ Base64.isUrlSafe (payload request) = true)
      RpcError.encodingFailed : EStateM RpcError σ Unit) = pure () := if_pos hencoded
  rw [rpc, hensure, pure_bind]
  change (ensure (isBlankText (exec (command (payload request)) s).1.stdout = false)
    .noService >>= fun _ => lift (rpcReply _ (formats.page _))) _ = _
  rw [hexec]

/-- A request of the page does on the device exactly what it asks for, once, and the page
gets exactly the answer; a request or an answer over its limit is reported as a
missing service. -/
theorem webui_exchange (other : Text → MainLoop → Output × MainLoop)
    (hreads : formats.Reads request (answer env request l))
    (hanswer : (toBytes (answer env request l).text).length < 2 ^ 32) :
    Shell.words none false (command (payload request)) =
        some [binary, "ctl".toList, "--request".toList, payload request] ∧
      rpc formats (exec formats (MainLoop.socket formats codec env) other) request l =
        if maxControl < request.body.length then .error .noService l
        else if maxResponse < (toBytes (answer env request l).text).length then
          .error .noService (l.step codec env (.control request))
        else lift (shown (outcome (l.daemon.control env request)))
          (l.step codec env (.control request)) := by
  have hwords := command_words request
  refine ⟨hwords, ?_⟩
  have hexec : exec formats (MainLoop.socket formats codec env) other
      (command (payload request)) l = ctl formats (MainLoop.socket formats codec env)
        ["--request".toList, payload request] l := by
    rw [exec, hwords]
    exact if_pos ⟨rfl, rfl⟩
  rw [ctl_spec hreads hanswer] at hexec
  have hsilent : ∀ l' : MainLoop, (ensure (isBlankText (⟨[], 1⟩ : Output).stdout = false)
      .noService >>= fun _ => lift (rpcReply ⟨[], 1⟩ (formats.page []))) l' =
      .error .noService l' := fun _ => rfl
  by_cases hbody : maxControl < request.body.length
  · rw [if_pos hbody] at hexec ⊢
    rw [rpc_of_exec hexec]
    exact hsilent l
  · rw [if_neg hbody] at hexec ⊢
    by_cases hfits : maxResponse < (toBytes (answer env request l).text).length
    · rw [if_pos hfits] at hexec ⊢
      rw [rpc_of_exec hexec]
      exact hsilent _
    · rw [if_neg hfits] at hexec ⊢
      have hvisible : isBlankText (printed (answer env request l)).stdout = false :=
        printed_visible _
      rw [rpc_of_exec hexec, ensure, if_pos hvisible, pure_bind]
      change lift (rpcReply (printed (answer env request l)) (formats.page
        ((answer env request l).text ++ ['\n']))) _ = _
      rw [hreads.page_eq, answer, rpcReply_printed]

/-! ## Readers of compact texts -/

def PortMode.ofValue : Value → Option PortMode
  | .string name =>
      if name = "random" then some .random else if name = "fixed" then some .fixed else none
  | _ => none

def Config.ofFields : List (String × Value) → Option Config
  | [(enabled, .bool e), (portMode, mode), (fixedPort, .nat port), (adb, .bool a),
      (shell, .bool s)] =>
      if [enabled, portMode, fixedPort, adb, shell] =
          ["enabled", "port_mode", "fixed_port", "allow_adb_root", "allow_shell_root"] ∧
          port < 65536 then
        (PortMode.ofValue mode).map fun mode => ⟨e, mode, UInt16.ofNat port, a, s⟩
      else none
  | _ => none

def Control.ofValue : Value → Option Control
  | .object [(tag, .string op)] =>
      if tag ≠ "op" then none
      else if op = "status" then some .status
      else if op = "pair_start" then some .pairStart
      else if op = "pair_stop" then some .pairStop
      else if op = "logs" then some .logs
      else if op = "stop" then some .stop
      else none
  | .object [(tag, .string op), (name, .object fields)] =>
      if [tag, op, name] = ["op", "configure", "config"] then
        (Config.ofFields fields).map .configure
      else none
  | .object [(tag, .string op), (name, .string fingerprint)] =>
      if [tag, op, name] = ["op", "revoke", "fingerprint"] then some (.revoke fingerprint)
      else none
  | _ => none

theorem Control.ofValue_value (request : Control) :
    Control.ofValue request.value = some request := by
  cases request with
  | configure config =>
      obtain ⟨enabled, portMode, fixedPort, adb, shell⟩ := config
      have hport := fixedPort.toNat_lt
      cases portMode <;>
        simp [Control.value, Control.ofValue, Config.fields, Config.ofFields, PortMode.value,
          PortMode.ofValue, hport]
  | revoke fingerprint => rfl
  | _ => rfl

/-- Readers of the texts that the program itself writes; the page gets a line. -/
def compact : Formats where
  request bytes :=
    match ((ofBytes bytes).bind Value.parse).bind Control.ofValue with
    | some request => .ok request
    | none => .error "expected value"
  reply bytes :=
    match (ofBytes bytes).bind Value.parse with
    | some value => .ok value
    | none => .error "expected value"
  page text := Value.parse text.dropLast

theorem compact_reads (request : Control) (reply : Value) : compact.Reads request reply where
  request_eq := by
    rw [Control.body, compact]
    dsimp only
    rw [ofBytes_toBytes, Option.bind_some, Value.parse_text, Option.bind_some,
      Control.ofValue_value]
  reply_eq := by
    rw [compact]
    dsimp only
    rw [ofBytes_toBytes, Option.bind_some, Value.parse_text]
  page_eq := by
    rw [compact]
    dsimp only
    rw [List.dropLast_concat, Value.parse_text]

/-- A supervisor that serves a host, seen from the page. -/
def pageLoop : MainLoop := MainLoop.afterSections 0 MainLoop.servingSections

theorem webui_exchange_revoke :
    rpc compact (exec compact (MainLoop.socket compact MainLoop.constantCodec
        (MainLoop.cooperative 1)) fun _ l => (⟨[], 127⟩, l)) (.revoke "aa") pageLoop =
      lift (shown (outcome (pageLoop.daemon.control (MainLoop.cooperative 1) (.revoke "aa"))))
        (pageLoop.step MainLoop.constantCodec (MainLoop.cooperative 1)
          (.control (.revoke "aa"))) := by
  have hsize : (toBytes (answer (MainLoop.cooperative 1) (.revoke "aa") pageLoop).text).length ≤
      maxResponse := by
    rw [length_toBytes]
    decide +kernel
  have hlt : (toBytes (answer (MainLoop.cooperative 1) (.revoke "aa") pageLoop).text).length <
      2 ^ 32 := hsize.trans_lt (by decide)
  have h := @webui_exchange compact MainLoop.constantCodec _ _ _ (fun _ l => (⟨[], 127⟩, l))
    (compact_reads _ _) hlt
  rw [if_neg (by decide +kernel), if_neg (not_lt.mpr hsize)] at h
  exact h.2

end Altdb
