import Winsmux.Json

/-!
# Messages of the remote helper

The message type with the two directions of its derived serde code: the JSON
value a message is written as, and the reading of a parsed JSON value. Every
variant is an object tagged by `type`; unknown fields are refused, except beside
a unit variant, where serde skips them.
-/
namespace Winsmux.RemoteHelper
open Json

structure AgentResolution where
  absolutePath : Option Text
  userCandidates : List Text
  deriving DecidableEq

inductive RejectCode where
  | versionMismatch
  | unknownType
  | malformed
  | oversized
  | peerLimit
  | unsupported
  | sessionNotFound
  | controllerBusy
  | notController
  | spawnFailed
  deriving DecidableEq

inductive Message where
  | hello (protocolVersion : UInt16) (clientVersion nonce : Text) (capabilities : List Text)
      (peerFrameLimit : UInt32)
  | welcome (protocolVersion : UInt16) (nonce : Text) (capabilities : List Text)
      (peerFrameLimit : UInt32)
  | reject (code : RejectCode) (detail : Text)
  | ptyStart (executable : Text) (resolution : Option AgentResolution) (argv : List Text)
      (cols rows : UInt16)
  | ptyStarted (sessionId : Text) (childPid : UInt32) (resolvedExecutable : Option Text)
  | ptyStartAck (sessionId : Text)
  | ptyExited (sessionId : Text)
  | ptyAttach (sessionId : Text)
  | ptyAttached (sessionId : Text) (childPid : UInt32)
  | ptyDetach
  | ptyDetached
  | ptyStop (sessionId : Text)
  | ptyStopped
  | ptyInput (dataB64 : Text)
  | ptyOutput (dataB64 : Text)
  | ptyResize (cols rows : UInt16)
  deriving DecidableEq

def RejectCode.name : RejectCode → Text
  | .versionMismatch => utf8 "version_mismatch"
  | .unknownType => utf8 "unknown_type"
  | .malformed => utf8 "malformed"
  | .oversized => utf8 "oversized"
  | .peerLimit => utf8 "peer_limit"
  | .unsupported => utf8 "unsupported"
  | .sessionNotFound => utf8 "session_not_found"
  | .controllerBusy => utf8 "controller_busy"
  | .notController => utf8 "not_controller"
  | .spawnFailed => utf8 "spawn_failed"

/-- The sixteen variants, by name. -/
inductive Kind where
  | hello
  | welcome
  | reject
  | ptyStart
  | ptyStarted
  | ptyStartAck
  | ptyExited
  | ptyAttach
  | ptyAttached
  | ptyDetach
  | ptyDetached
  | ptyStop
  | ptyStopped
  | ptyInput
  | ptyOutput
  | ptyResize
  deriving DecidableEq

def Kind.all : List Kind :=
  [.hello, .welcome, .reject, .ptyStart, .ptyStarted, .ptyStartAck, .ptyExited, .ptyAttach,
    .ptyAttached, .ptyDetach, .ptyDetached, .ptyStop, .ptyStopped, .ptyInput, .ptyOutput,
    .ptyResize]

/-- The `type` tag of a variant. -/
def Kind.tag : Kind → Text
  | .hello => utf8 "hello"
  | .welcome => utf8 "welcome"
  | .reject => utf8 "reject"
  | .ptyStart => utf8 "pty-start"
  | .ptyStarted => utf8 "pty-started"
  | .ptyStartAck => utf8 "pty-start-ack"
  | .ptyExited => utf8 "pty-exited"
  | .ptyAttach => utf8 "pty-attach"
  | .ptyAttached => utf8 "pty-attached"
  | .ptyDetach => utf8 "pty-detach"
  | .ptyDetached => utf8 "pty-detached"
  | .ptyStop => utf8 "pty-stop"
  | .ptyStopped => utf8 "pty-stopped"
  | .ptyInput => utf8 "pty-input"
  | .ptyOutput => utf8 "pty-output"
  | .ptyResize => utf8 "pty-resize"

def Kind.ofTag (tag : Text) : Option Kind := Kind.all.find? fun k => k.tag = tag

def Message.kind : Message → Kind
  | .hello .. => .hello
  | .welcome .. => .welcome
  | .reject .. => .reject
  | .ptyStart .. => .ptyStart
  | .ptyStarted .. => .ptyStarted
  | .ptyStartAck .. => .ptyStartAck
  | .ptyExited .. => .ptyExited
  | .ptyAttach .. => .ptyAttach
  | .ptyAttached .. => .ptyAttached
  | .ptyDetach => .ptyDetach
  | .ptyDetached => .ptyDetached
  | .ptyStop .. => .ptyStop
  | .ptyStopped => .ptyStopped
  | .ptyInput .. => .ptyInput
  | .ptyOutput .. => .ptyOutput
  | .ptyResize .. => .ptyResize

def textArray (items : List Text) : Value := .arr (items.map .str)

/-- A field that is skipped when absent. -/
def optionalField (key : Text) : Option Text → List (Text × Value)
  | some s => [(key, .str s)]
  | none => []

def AgentResolution.toValue (r : AgentResolution) : Value :=
  .obj (optionalField (utf8 "absolute_path") r.absolutePath ++
    [(utf8 "user_candidates", textArray r.userCandidates)])

/-- The fields of a message after its tag, in declaration order. -/
def Message.fields : Message → List (Text × Value)
  | .hello version client nonce capabilities limit =>
      [(utf8 "protocol_version", .num version.toNat), (utf8 "client_version", .str client),
        (utf8 "nonce", .str nonce), (utf8 "capabilities", textArray capabilities),
        (utf8 "peer_frame_limit", .num limit.toNat)]
  | .welcome version nonce capabilities limit =>
      [(utf8 "protocol_version", .num version.toNat), (utf8 "nonce", .str nonce),
        (utf8 "capabilities", textArray capabilities), (utf8 "peer_frame_limit", .num limit.toNat)]
  | .reject code detail => [(utf8 "code", .str code.name), (utf8 "detail", .str detail)]
  | .ptyStart executable resolution argv cols rows =>
      (utf8 "executable", .str executable) ::
        ((match resolution with
          | some r => [(utf8 "resolution", r.toValue)]
          | none => []) ++
        [(utf8 "argv", textArray argv), (utf8 "cols", .num cols.toNat),
          (utf8 "rows", .num rows.toNat)])
  | .ptyStarted sessionId childPid resolved =>
      (utf8 "session_id", .str sessionId) :: (utf8 "child_pid", .num childPid.toNat) ::
        optionalField (utf8 "resolved_executable") resolved
  | .ptyStartAck sessionId | .ptyExited sessionId | .ptyAttach sessionId | .ptyStop sessionId =>
      [(utf8 "session_id", .str sessionId)]
  | .ptyAttached sessionId childPid =>
      [(utf8 "session_id", .str sessionId), (utf8 "child_pid", .num childPid.toNat)]
  | .ptyDetach | .ptyDetached | .ptyStopped => []
  | .ptyInput data | .ptyOutput data => [(utf8 "data_b64", .str data)]
  | .ptyResize cols rows => [(utf8 "cols", .num cols.toNat), (utf8 "rows", .num rows.toNat)]

def Message.toValue (m : Message) : Value := .obj ((utf8 "type", .str m.kind.tag) :: m.fields)

def readU16 : Value → Option UInt16
  | .num n => if n < 2 ^ 16 then some (UInt16.ofNat n) else none
  | _ => none

def readU32 : Value → Option UInt32
  | .num n => if n < 2 ^ 32 then some (UInt32.ofNat n) else none
  | _ => none

def readTexts : Value → Option (List Text)
  | .arr items => items.mapM Value.asStr
  | _ => none

/-- `Option<String>`: `null` reads as absent. -/
def readOptionText : Value → Option (Option Text)
  | .null => some none
  | v => v.asStr.map some

/-- A field with `serde(default)`. -/
def readDefault {α : Type} (read : Value → Option (Option α)) (v : Value) (key : Text) :
    Option (Option α) :=
  match v.get key with
  | none => some none
  | some field => read field

/-- `deny_unknown_fields`: the object has no key outside `known`. -/
def knownFields (known : List Text) : Value → Bool
  | .obj entries => entries.all fun e => e.1 ∈ known
  | _ => false

/-- A struct is read from an object, or from the sequence of its fields. -/
def readResolution : Value → Option AgentResolution
  | .obj entries => do
    guard (knownFields [utf8 "absolute_path", utf8 "user_candidates"] (.obj entries))
    let path ← readDefault readOptionText (.obj entries) (utf8 "absolute_path")
    let candidates ← ((Value.obj entries).get (utf8 "user_candidates")).bind readTexts
    some ⟨path, candidates⟩
  | .arr [path, candidates] => do
    let path ← readOptionText path
    let candidates ← readTexts candidates
    some ⟨path, candidates⟩
  | _ => none

def readOptionResolution : Value → Option (Option AgentResolution)
  | .null => some none
  | v => (readResolution v).map some

/-- The code a name stands for. -/
def codeOfName (name : Text) : Option RejectCode :=
  [.versionMismatch, .unknownType, .malformed, .oversized, .peerLimit, .unsupported,
    .sessionNotFound, .controllerBusy, .notController, .spawnFailed].find? fun c => c.name = name

/-- A unit variant is read from its name, or from the map of its name to `null`. -/
def readCode : Value → Option RejectCode
  | .str name => codeOfName name
  | .obj [(name, .null)] => codeOfName name
  | _ => none

/-- The fields of an object by name, with the read of each. -/
def readField {α : Type} (read : Value → Option α) (v : Value) (key : String) : Option α :=
  (v.get (utf8 key)).bind read

def readSession (make : Text → Message) (v : Value) : Option Message := do
  guard (knownFields [utf8 "type", utf8 "session_id"] v)
  let sessionId ← readField Value.asStr v "session_id"
  some (make sessionId)

def readData (make : Text → Message) (v : Value) : Option Message := do
  guard (knownFields [utf8 "type", utf8 "data_b64"] v)
  let data ← readField Value.asStr v "data_b64"
  some (make data)

/-- Reading one variant out of the tagged object `v`. -/
def readVariant (v : Value) : Kind → Option Message
  | .hello => do
    guard (knownFields [utf8 "type", utf8 "protocol_version", utf8 "client_version", utf8 "nonce",
      utf8 "capabilities", utf8 "peer_frame_limit"] v)
    let version ← readField readU16 v "protocol_version"
    let client ← readField Value.asStr v "client_version"
    let nonce ← readField Value.asStr v "nonce"
    let capabilities ← readField readTexts v "capabilities"
    let limit ← readField readU32 v "peer_frame_limit"
    some (.hello version client nonce capabilities limit)
  | .welcome => do
    guard (knownFields [utf8 "type", utf8 "protocol_version", utf8 "nonce", utf8 "capabilities",
      utf8 "peer_frame_limit"] v)
    let version ← readField readU16 v "protocol_version"
    let nonce ← readField Value.asStr v "nonce"
    let capabilities ← readField readTexts v "capabilities"
    let limit ← readField readU32 v "peer_frame_limit"
    some (.welcome version nonce capabilities limit)
  | .reject => do
    guard (knownFields [utf8 "type", utf8 "code", utf8 "detail"] v)
    let code ← readField readCode v "code"
    let detail ← readField Value.asStr v "detail"
    some (.reject code detail)
  | .ptyStart => do
    guard (knownFields [utf8 "type", utf8 "executable", utf8 "resolution", utf8 "argv",
      utf8 "cols", utf8 "rows"] v)
    let executable ← readField Value.asStr v "executable"
    let resolution ← readDefault readOptionResolution v (utf8 "resolution")
    let argv ← readField readTexts v "argv"
    let cols ← readField readU16 v "cols"
    let rows ← readField readU16 v "rows"
    some (.ptyStart executable resolution argv cols rows)
  | .ptyStarted => do
    guard (knownFields [utf8 "type", utf8 "session_id", utf8 "child_pid",
      utf8 "resolved_executable"] v)
    let sessionId ← readField Value.asStr v "session_id"
    let childPid ← readField readU32 v "child_pid"
    let resolved ← readDefault readOptionText v (utf8 "resolved_executable")
    some (.ptyStarted sessionId childPid resolved)
  | .ptyAttached => do
    guard (knownFields [utf8 "type", utf8 "session_id", utf8 "child_pid"] v)
    let sessionId ← readField Value.asStr v "session_id"
    let childPid ← readField readU32 v "child_pid"
    some (.ptyAttached sessionId childPid)
  | .ptyResize => do
    guard (knownFields [utf8 "type", utf8 "cols", utf8 "rows"] v)
    let cols ← readField readU16 v "cols"
    let rows ← readField readU16 v "rows"
    some (.ptyResize cols rows)
  | .ptyStartAck => readSession .ptyStartAck v
  | .ptyExited => readSession .ptyExited v
  | .ptyAttach => readSession .ptyAttach v
  | .ptyStop => readSession .ptyStop v
  | .ptyInput => readData .ptyInput v
  | .ptyOutput => readData .ptyOutput v
  | .ptyDetach => some .ptyDetach
  | .ptyDetached => some .ptyDetached
  | .ptyStopped => some .ptyStopped

def fromValue (v : Value) : Option Message := do
  let tag ← v.get (utf8 "type")
  let name ← tag.asStr
  let kind ← Kind.ofTag name
  readVariant v kind

@[simp] theorem readU16_num (n : UInt16) : readU16 (.num n.toNat) = some n := by
  have := n.toNat_lt
  simp [readU16, this]

@[simp] theorem readU32_num (n : UInt32) : readU32 (.num n.toNat) = some n := by
  have := n.toNat_lt
  simp [readU32, this]

@[simp] theorem readTexts_textArray (ss : List Text) : readTexts (textArray ss) = some ss := by
  simp only [readTexts, textArray]
  induction ss with
  | nil => rfl
  | cons s ss ih => simp [Value.asStr, ih]

@[simp] theorem codeOfName_name (c : RejectCode) : codeOfName c.name = some c := by
  cases c <;> decide

@[simp] theorem ofTag_tag (k : Kind) : Kind.ofTag k.tag = some k := by
  cases k <;> decide

@[simp] theorem asStr_str (s : Text) : (Value.str s).asStr = some s := rfl

@[simp] theorem readOptionText_str (s : Text) : readOptionText (.str s) = some (some s) := rfl

@[simp] theorem readCode_name (c : RejectCode) : readCode (.str c.name) = some c :=
  codeOfName_name c

@[simp] theorem readResolution_toValue (r : AgentResolution) :
    readOptionResolution r.toValue = some (some r) := by
  obtain ⟨path, candidates⟩ := r
  cases path with
  | none =>
    change ((do
      let candidates ← readTexts (textArray candidates)
      some ⟨none, candidates⟩ : Option AgentResolution).map some) = _
    simp
  | some path =>
    change ((do
      let path ← readOptionText (.str path)
      let candidates ← readTexts (textArray candidates)
      some ⟨path, candidates⟩ : Option AgentResolution).map some) = _
    simp

/-- The tag of a written message selects its variant. -/
theorem fromValue_eq_readVariant (m : Message) :
    fromValue m.toValue = readVariant m.toValue m.kind := by
  simp [fromValue, Message.toValue, Value.get]

/-- Reading a message back from the value it is written as gives the message. -/
theorem fromValue_toValue (m : Message) : fromValue m.toValue = some m := by
  rw [fromValue_eq_readVariant]
  -- the keys are closed texts, so each variant's reads are its fields' reads by computation
  cases m with
  | hello version client nonce capabilities limit =>
    change (do
      let version ← readU16 (.num version.toNat)
      let capabilities ← readTexts (textArray capabilities)
      let limit ← readU32 (.num limit.toNat)
      some (Message.hello version client nonce capabilities limit)) = _
    simp
  | welcome version nonce capabilities limit =>
    change (do
      let version ← readU16 (.num version.toNat)
      let capabilities ← readTexts (textArray capabilities)
      let limit ← readU32 (.num limit.toNat)
      some (Message.welcome version nonce capabilities limit)) = _
    simp
  | reject code detail =>
    change (do
      let code ← readCode (.str code.name)
      some (Message.reject code detail)) = _
    simp
  | ptyStart executable resolution argv cols rows =>
    cases resolution with
    | none =>
      change (do
        let argv ← readTexts (textArray argv)
        let cols ← readU16 (.num cols.toNat)
        let rows ← readU16 (.num rows.toNat)
        some (Message.ptyStart executable none argv cols rows)) = _
      simp
    | some r =>
      change (do
        let resolution ← readOptionResolution r.toValue
        let argv ← readTexts (textArray argv)
        let cols ← readU16 (.num cols.toNat)
        let rows ← readU16 (.num rows.toNat)
        some (Message.ptyStart executable resolution argv cols rows)) = _
      simp
  | ptyStarted sessionId childPid resolved =>
    cases resolved with
    | none =>
      change (do
        let childPid ← readU32 (.num childPid.toNat)
        some (Message.ptyStarted sessionId childPid none)) = _
      simp
    | some path =>
      change (do
        let childPid ← readU32 (.num childPid.toNat)
        some (Message.ptyStarted sessionId childPid (some path))) = _
      simp
  | ptyAttached sessionId childPid =>
    change (do
      let childPid ← readU32 (.num childPid.toNat)
      some (Message.ptyAttached sessionId childPid)) = _
    simp
  | ptyResize cols rows =>
    change (do
      let cols ← readU16 (.num cols.toNat)
      let rows ← readU16 (.num rows.toNat)
      some (Message.ptyResize cols rows)) = _
    simp
  | _ => rfl

end Winsmux.RemoteHelper
