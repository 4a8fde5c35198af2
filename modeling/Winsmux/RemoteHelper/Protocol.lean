import Mathlib
import Winsmux.RemoteHelper.Base64
import Winsmux.RemoteHelper.Message

/-!
# The length-prefixed protocol

Payload checks, the frame codec and the negotiation of the helper. Parsing of
JSON text is the business of `serde_json`: wherever the source parses a payload,
the function here takes what the parser made of it.
-/
namespace Winsmux.RemoteHelper
open Json

def maxFrameLen : ℕ := 13915
def protocolVersion : UInt16 := 1
def prefixLen : ℕ := 4
def maxClientVersionBytes : ℕ := 64
def nonceHexLen : ℕ := 64
def maxCapabilityLen : ℕ := 32
def maxCapabilities : ℕ := 8
def maxRejectDetailBytes : ℕ := 128
def maxExecutableBytes : ℕ := 256
def maxArgvCount : ℕ := 8
def maxArgvElemBytes : ℕ := 256
def maxSessionIdHex : ℕ := 32
def maxPtyIoChunk : ℕ := 256
def maxPtyCols : UInt16 := 512
def maxPtyRows : UInt16 := 512

def supportedCapabilities : List Text :=
  [utf8 "frame-v1", utf8 "pty-v1", utf8 "agent-path-v1", utf8 "session-lifecycle-v1"]

/-- Whether a byte offset of a UTF-8 text falls between two characters. -/
def isCharBoundary (s : Text) (i : ℕ) : Bool :=
  i = 0 ∨ i = s.length ∨ (∃ c ∈ s[i]?, c < 0x80 ∨ 0xc0 ≤ c)

/-- The last character boundary at or before `end`. -/
def floorBoundary (s : Text) : ℕ → ℕ
  | 0 => 0
  | i + 1 => if isCharBoundary s (i + 1) then i + 1 else floorBoundary s i

def truncateDetail (detail : Text) : Text :=
  if detail.length ≤ maxRejectDetailBytes then detail
  else detail.take (floorBoundary detail maxRejectDetailBytes)

/-- `Message::reject`. -/
def rejectWith (code : RejectCode) (detail : Text) : Message := .reject code (truncateDetail detail)

def isAsciiDigit (c : UInt8) : Bool := 0x30 ≤ c ∧ c ≤ 0x39
def isAsciiLowercase (c : UInt8) : Bool := 0x61 ≤ c ∧ c ≤ 0x7a
def isAsciiUppercase (c : UInt8) : Bool := 0x41 ≤ c ∧ c ≤ 0x5a
def isAsciiHexdigit (c : UInt8) : Bool :=
  isAsciiDigit c || (0x61 ≤ c ∧ c ≤ 0x66) || (0x41 ≤ c ∧ c ≤ 0x46)

def dimensionsAreLegal (cols rows : UInt16) : Except Text Unit :=
  if cols = 0 ∨ maxPtyCols < cols ∨ rows = 0 ∨ maxPtyRows < rows then
    .error (utf8 "PTY dimensions are illegal")
  else .ok ()

def unixAbsolutePathIsLegal (path : Text) : Bool :=
  path ≠ [] && path.length ≤ maxExecutableBytes && path.head? = some 0x2f && 0 ∉ path &&
    (path.splitOn 0x2f).all fun component => component ≠ [0x2e] ∧ component ≠ [0x2e, 0x2e]

def sessionIdIsLegal (sessionId : Text) : Except Text Unit :=
  if sessionId.length ≠ maxSessionIdHex ∨
      ¬ sessionId.all fun c => isAsciiDigit c || (0x61 ≤ c ∧ c ≤ 0x66) then
    .error (utf8 "session_id is illegal")
  else .ok ()

def nonceIsLegal (nonce : Text) : Bool := nonce.length = nonceHexLen && nonce.all isAsciiHexdigit

def capabilityIsLegal (item : Text) : Bool :=
  item.all fun c => isAsciiLowercase c || isAsciiDigit c || c = 0x2d

def clientVersionIsLegal (version : Text) : Bool :=
  0 < version.length && version.length ≤ maxClientVersionBytes &&
    version.all fun c => isAsciiLowercase c || isAsciiUppercase c || isAsciiDigit c ||
      c = 0x2e || c = 0x5f || c = 0x2d

def resolutionIsLegal (executable : Text) (argv : List Text) (r : AgentResolution) :
    Except Text Unit :=
  if executable ≠ utf8 "claude" ∧ executable ≠ utf8 "codex" then
    .error (utf8 "resolution executable is illegal")
  else if (r.absolutePath.any fun path => ! unixAbsolutePathIsLegal path) ||
      r.userCandidates.any fun path => ! unixAbsolutePathIsLegal path then
    .error (utf8 "resolution path is illegal")
  else
    let combinedLimit := if r.absolutePath.isSome then maxArgvCount - 1 else maxArgvCount
    if combinedLimit < argv.length + r.userCandidates.length then
      .error (utf8 "resolution argv and candidates are illegal")
    else .ok ()

def childPidIsLegal (childPid : UInt32) : Except Text Unit :=
  if childPid = 0 then .error (utf8 "child_pid is illegal") else .ok ()

def dataIsLegal (data : Text) : Except Text Unit :=
  match decodeBase64 data with
  | none => .error (utf8 "data_b64 is illegal")
  | some decoded =>
    if decoded = [] ∨ maxPtyIoChunk < decoded.length then
      .error (utf8 "data_b64 decoded length is illegal")
    else .ok ()

def validateMessage : Message → Except Text Unit
  | .ptyStart executable resolution argv cols rows => do
    if executable = [] ∨ maxExecutableBytes < executable.length ∨ 0 ∈ executable then
      .error (utf8 "executable is illegal")
    else if maxArgvCount < argv.length ∨
        argv.any fun argument => maxArgvElemBytes < argument.length ∨ 0 ∈ argument then
      .error (utf8 "argv is illegal")
    else
      match resolution with
      | some r => resolutionIsLegal executable argv r
      | none => .ok ()
      dimensionsAreLegal cols rows
  | .ptyStarted sessionId childPid resolved => do
    sessionIdIsLegal sessionId
    childPidIsLegal childPid
    if resolved.any fun path => ! unixAbsolutePathIsLegal path then
      .error (utf8 "resolved_executable is illegal")
    else .ok ()
  | .ptyAttached sessionId childPid => do
    sessionIdIsLegal sessionId
    childPidIsLegal childPid
  | .ptyStartAck sessionId | .ptyExited sessionId | .ptyAttach sessionId | .ptyStop sessionId =>
    sessionIdIsLegal sessionId
  | .ptyInput data | .ptyOutput data => dataIsLegal data
  | .ptyResize cols rows => dimensionsAreLegal cols rows
  | .reject _ detail =>
    if maxRejectDetailBytes < detail.length then .error (utf8 "reject detail is illegal") else .ok ()
  | .hello .. | .welcome .. | .ptyDetach | .ptyDetached | .ptyStopped => .ok ()

def encodePayload (m : Message) : List UInt8 := m.toValue.toVec

/-- `u32::to_be_bytes` of a payload length. -/
def toBeBytes (n : ℕ) : List UInt8 :=
  [(n / 2 ^ 24).toUInt8, (n / 2 ^ 16).toUInt8, (n / 2 ^ 8).toUInt8, n.toUInt8]

def frameOfPayload (payload : List UInt8) : List UInt8 := toBeBytes payload.length ++ payload

/-- `None` is the `InvalidData` error of a payload over the ceiling. -/
def encodeFrame (m : Message) : Option (List UInt8) :=
  let payload := encodePayload m
  if maxFrameLen < payload.length then none else some (frameOfPayload payload)

/-- What one call of `read_frame` returns. -/
inductive FrameRead where
  | payload (bytes : List UInt8)
  | rejected (reject : Message)
  | unexpectedEof
  deriving DecidableEq

/-- Read one frame off the bytes that arrive before the end of the stream; the
second part is what is left unread. -/
def readFrame : List UInt8 → FrameRead × List UInt8
  | b0 :: b1 :: b2 :: b3 :: rest =>
    let declared := b0.toNat * 2 ^ 24 + b1.toNat * 2 ^ 16 + b2.toNat * 2 ^ 8 + b3.toNat
    if maxFrameLen < declared then
      (.rejected (rejectWith .oversized (utf8 "frame payload larger than MAX_FRAME_LEN")), rest)
    else if declared = 0 then
      (.rejected (rejectWith .malformed (utf8 "frame payload length is zero")), rest)
    else if rest.length < declared then
      (.rejected (rejectWith .malformed (utf8 "truncated frame payload")), [])
    else (.payload (rest.take declared), rest.drop declared)
  | _ => (.unexpectedEof, [])

/-- `decode_payload` after `serde_json::from_slice`; `none` is a payload that is
not JSON. -/
def decodeValue : Option Value → Except Message Message
  | none => .error (rejectWith .malformed (utf8 "payload is not JSON"))
  | some value =>
    match (value.get (utf8 "type")).bind Value.asStr with
    | none => .error (rejectWith .malformed (utf8 "payload type is missing"))
    | some kind =>
      match Kind.ofTag kind with
      | none =>
        .error (rejectWith .unknownType (utf8 "unknown type '" ++ kind ++ utf8 "'"))
      | some _ =>
        match fromValue value with
        | none => .error (rejectWith .malformed (utf8 "payload fields are invalid"))
        | some message =>
          match validateMessage message with
          | .error detail => .error (rejectWith .malformed detail)
          | .ok () => .ok message

/-- `decode_payload` over a JSON parser. -/
def decodePayload (fromSlice : List UInt8 → Option Value) (payload : List UInt8) :
    Except Message Message := decodeValue (fromSlice payload)

theorem decodeValue_error {value : Option Value} {m : Message} (h : decodeValue value = .error m) :
    ∃ code detail, m = rejectWith code detail := by
  unfold decodeValue at h
  split at h
  · exact ⟨_, _, (Except.error.inj h).symm⟩
  split at h
  · exact ⟨_, _, (Except.error.inj h).symm⟩
  split at h
  · exact ⟨_, _, (Except.error.inj h).symm⟩
  split at h
  · exact ⟨_, _, (Except.error.inj h).symm⟩
  split at h
  · exact ⟨_, _, (Except.error.inj h).symm⟩
  · cases h

def selectedCapabilities (capabilities : List Text) : List Text :=
  supportedCapabilities.filter fun supported => supported ∈ capabilities

def welcomeFor (nonce : Text) (capabilities : List Text) : Message :=
  .welcome protocolVersion nonce (selectedCapabilities capabilities) (UInt32.ofNat maxFrameLen)

def negotiate : Message → Message
  | .hello version clientVersion nonce capabilities peerFrameLimit =>
    if version ≠ protocolVersion then
      rejectWith .versionMismatch
        (utf8 "unsupported protocol_version " ++ decimal version.toNat)
    else if ! clientVersionIsLegal clientVersion then
      rejectWith .malformed (utf8 "client_version is illegal")
    else if ! nonceIsLegal nonce then
      rejectWith .malformed (utf8 "nonce must be 32-byte hex")
    else if maxCapabilities < capabilities.length ∨ capabilities.any fun item =>
        item = [] ∨ maxCapabilityLen < item.length ∨ ! capabilityIsLegal item then
      rejectWith .malformed (utf8 "capabilities are illegal")
    else
      let welcome := welcomeFor nonce capabilities
      if peerFrameLimit.toNat < (encodePayload welcome).length then
        rejectWith .peerLimit (utf8 "peer_frame_limit cannot carry Welcome")
      else welcome
  | _ => rejectWith .unknownType (utf8 "first frame must be hello")

end Winsmux.RemoteHelper
