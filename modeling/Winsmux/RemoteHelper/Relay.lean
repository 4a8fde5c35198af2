import Winsmux.RemoteHelper.Protocol
import Winsmux.Transition

/-!
# The stdio relay

Frames from stdin go to the broker socket, one at a time; what the socket sends goes to stdout.
Each step of the machine is a stretch of the loop with at most one system call, so that its
states are all the moments of a run. The answers of the calls are given from outside: any
readiness, any partial read or write, any error.
-/
namespace Winsmux.RemoteHelper.Relay
open Json

inductive ErrorKind where
  | unexpectedEof
  | invalidData
  | writeZero
  | invalidInput
  | other
  deriving DecidableEq

/-- An error of the operating system, or one with a text of its own. -/
inductive RelayError where
  | os
  | message (kind : ErrorKind) (text : String)
  deriving DecidableEq

inductive StdinState where
  | «open»
  | eofClean
  | eofTruncated
  deriving DecidableEq

inductive SocketRxState where
  | «open»
  | eof
  deriving DecidableEq

inductive SocketTx where
  | collecting
  | queued (bytes : List UInt8) (offset : ℕ)
  | closed
  deriving DecidableEq

inductive StdoutTx where
  | empty
  | queued (bytes : List UInt8) (offset : ℕ)
  deriving DecidableEq

structure RelayState where
  stdin : StdinState
  socketRx : SocketRxState
  stdinFrame : List UInt8
  toSocket : SocketTx
  toStdout : StdoutTx

def RelayState.new : RelayState := ⟨.open, .open, [], .collecting, .empty⟩

def RelayState.wantsStdinRead (s : RelayState) : Bool :=
  s.stdin = .open && s.toSocket = .collecting

def SocketTx.isQueued : SocketTx → Bool
  | .queued _ _ => true
  | _ => false

def StdoutTx.isQueued : StdoutTx → Bool
  | .queued _ _ => true
  | .empty => false

/-- `relay_stdin_frame_len`: the length of the frame that begins so. -/
def relayStdinFrameLen : List UInt8 → Except RelayError ℕ
  | b0 :: b1 :: b2 :: b3 :: _ =>
    let declared := b0.toNat * 2 ^ 24 + b1.toNat * 2 ^ 16 + b2.toNat * 2 ^ 8 + b3.toNat
    if maxFrameLen < declared then
      .error (.message .invalidData "stdin relay frame exceeds MAX_FRAME_LEN")
    else .ok (prefixLen + declared)
  | _ => .ok prefixLen

/-- `queue_complete_stdin_frame` -/
def RelayState.queueCompleteStdinFrame (s : RelayState) : Except RelayError RelayState :=
  if s.toSocket ≠ .collecting ∨ s.stdinFrame.length < prefixLen then .ok s
  else
    match relayStdinFrameLen s.stdinFrame with
    | .error e => .error e
    | .ok frameLen =>
      if s.stdinFrame.length = frameLen then
        .ok { s with stdinFrame := [], toSocket := .queued s.stdinFrame 0 }
      else .ok s

/-- The events of a descriptor. -/
structure Events where
  input : Bool
  output : Bool
  err : Bool
  hup : Bool
  nval : Bool
  deriving DecidableEq

def Events.none : Events := ⟨false, false, false, false, false⟩

def Events.isReadable (e : Events) : Bool := e.input || e.hup

/-- What `poll` may report of what happened: the events asked for, and the three it always
reports. -/
def Events.reported (happened requested : Events) : Events :=
  { happened with
    input := happened.input && requested.input, output := happened.output && requested.output }

/-- What a stream answers to a read. -/
inductive ReadAnswer where
  | bytes (first : UInt8) (rest : List UInt8)
  | ended
  | retry
  | failed

inductive ReadResult where
  | data (bytes : List UInt8)
  | retry
  | failed

/-- `read`: no more than the limit; an empty answer is the end of the stream. -/
def sysRead (answer : ReadAnswer) (limit : ℕ) : ReadResult :=
  match answer with
  | .bytes first rest => .data ((first :: rest).take limit)
  | .ended => .data []
  | .retry => .retry
  | .failed => .failed

inductive WriteAnswer where
  | takes (n : ℕ)
  | retry
  | failed

/-- `relay_write_once`: the new offset. -/
def relayWriteOnce (answer : WriteAnswer) (bytes : List UInt8) (offset : ℕ) :
    Except RelayError ℕ :=
  match answer with
  | .takes n =>
    let written := min n (bytes.length - offset)
    if 0 < written then .ok (offset + written)
    else .error (.message .writeZero "relay write made no progress")
  | .retry => .ok offset
  | .failed => .error .os

inductive PollAnswer where
  | interrupted
  | failed
  | ready (stdin socket stdout : Events)

/-- What the system answers, whichever call a step makes. -/
structure Answers where
  nonblocking : Bool
  shutdown : Bool
  poll : PollAnswer
  read : ReadAnswer
  write : WriteAnswer

/-- The streams of the process. -/
structure World where
  /-- The bytes read from stdin, and whether it has ended behind them. -/
  stdin : List UInt8
  stdinEnded : Bool
  socketOut : List UInt8
  writeShut : Bool
  /-- The bytes read from the socket, and whether it has ended behind them. -/
  socketIn : List UInt8
  socketEnded : Bool
  stdout : List UInt8

/-- What the loop does next. -/
inductive Phase where
  | setup
  | queue
  | shutdown
  | poll
  | writeStdout
  | readSocket
  | writeSocket
  | readStdin
  | finished (result : Except RelayError Unit)

structure Machine where
  phase : Phase
  state : RelayState
  stdinEvents : Events
  socketEvents : Events
  stdoutEvents : Events
  world : World

def Machine.start : Machine :=
  ⟨.setup, .new, .none, .none, .none, ⟨[], false, [], false, [], false, []⟩⟩

def Machine.fail (m : Machine) (e : RelayError) : Machine :=
  { m with phase := .finished (.error e) }

/-- `relay_reject_poll_error` -/
def relayRejectPollError (label : String) (e : Events) : Except RelayError Unit :=
  if e.nval then .error (.message .invalidInput ("relay " ++ label ++ " poll reported POLLNVAL"))
  else if e.err then .error (.message .other ("relay " ++ label ++ " poll reported POLLERR"))
  else .ok ()

def rejectPollErrors (stdin socket stdout : Events) : Except RelayError Unit := do
  relayRejectPollError "stdin" stdin
  relayRejectPollError "socket" socket
  relayRejectPollError "stdout" stdout

/-- `socket_events`; nothing is asked of a socket that has ended. -/
def RelayState.socketEvents (s : RelayState) : Events :=
  if s.socketRx = .eof then .none
  else { Events.none with input := s.toStdout = .empty, output := s.toSocket.isQueued }

/-- The events of a descriptor that is polled; one that is not reports nothing. -/
def polled (wanted : Bool) (happened requested : Events) : Events :=
  if wanted then happened.reported requested else .none

/-- A complete frame is queued, and a truncated one refused. -/
def Machine.queueStep (m : Machine) : Machine :=
  match m.state.queueCompleteStdinFrame with
  | .error e => m.fail e
  | .ok s =>
    if s.stdin = .eofTruncated then
      { m with state := s }.fail (.message .unexpectedEof "truncated stdin relay frame")
    else { m with state := s, phase := .shutdown }

def Machine.shutdownStep (m : Machine) (a : Answers) : Machine :=
  if m.state.stdin = .eofClean ∧ m.state.toSocket = .collecting then
    if a.shutdown then
      { m with
        state := { m.state with toSocket := .closed }
        world := { m.world with writeShut := true }
        phase := .poll }
    else m.fail .os
  else { m with phase := .poll }

def Machine.pollStep (m : Machine) (a : Answers) : Machine :=
  if m.state.socketRx = .eof ∧ m.state.toStdout = .empty then
    { m with phase := .finished (.ok ()) }
  else
    match a.poll with
    | .interrupted => { m with phase := .queue }
    | .failed => m.fail .os
    | .ready stdin socket stdout =>
      let stdinEvents :=
        polled m.state.wantsStdinRead stdin { Events.none with input := true }
      let socketEvents :=
        polled (m.state.socketEvents ≠ .none) socket m.state.socketEvents
      let stdoutEvents :=
        polled m.state.toStdout.isQueued stdout { Events.none with output := true }
      match rejectPollErrors stdinEvents socketEvents stdoutEvents with
      | .error e => m.fail e
      | .ok () =>
        { m with
          stdinEvents := stdinEvents, socketEvents := socketEvents, stdoutEvents := stdoutEvents
          phase := .writeStdout }

def Machine.writeStdoutStep (m : Machine) (a : Answers) : Machine :=
  match m.stdoutEvents.output, m.state.toStdout with
  | true, .queued bytes offset =>
    match relayWriteOnce a.write bytes offset with
    | .error e => m.fail e
    | .ok next =>
      { m with
        state := { m.state with
          toStdout := if next = bytes.length then .empty else .queued bytes next }
        world := { m.world with
          stdout := m.world.stdout ++ (bytes.drop offset).take (next - offset) }
        phase := .readSocket }
  | _, _ => { m with phase := .readSocket }

/-- The buffer of both reads. -/
def bufLen : ℕ := 8192

def Machine.readSocketStep (m : Machine) (a : Answers) : Machine :=
  if m.socketEvents.isReadable ∧ m.state.toStdout = .empty then
    match sysRead a.read bufLen with
    | .data [] =>
      { m with
        state := { m.state with socketRx := .eof }
        world := { m.world with socketEnded := true }
        phase := .writeSocket }
    | .data (b :: bytes) =>
      { m with
        state := { m.state with toStdout := .queued (b :: bytes) 0 }
        world := { m.world with socketIn := m.world.socketIn ++ b :: bytes }
        phase := .writeSocket }
    | .retry => { m with phase := .writeSocket }
    | .failed => m.fail .os
  else { m with phase := .writeSocket }

def Machine.writeSocketStep (m : Machine) (a : Answers) : Machine :=
  if m.state.socketRx = .open ∧ m.socketEvents.output then
    match m.state.toSocket with
    | .queued bytes offset =>
      match relayWriteOnce a.write bytes offset with
      | .error e => m.fail e
      | .ok next =>
        { m with
          state := { m.state with
            toSocket := if next = bytes.length then .collecting else .queued bytes next }
          world := { m.world with
            socketOut := m.world.socketOut ++ (bytes.drop offset).take (next - offset) }
          phase := .readStdin }
    | _ => { m with phase := .readStdin }
  else { m with phase := .readStdin }

/-- `read_stdin_once`; no bytes are taken for the end of the stream. -/
def Machine.readStdinOnce (m : Machine) (a : Answers) : Machine :=
  match relayStdinFrameLen m.state.stdinFrame with
  | .error e => m.fail e
  | .ok frameLen =>
    let remaining := frameLen - m.state.stdinFrame.length
    match sysRead a.read (min remaining bufLen) with
    | .data [] =>
      { m with
        state := { m.state with
          stdin := if m.state.stdinFrame = [] then .eofClean else .eofTruncated }
        world := { m.world with
          stdinEnded := match a.read with
            | .ended => true
            | _ => m.world.stdinEnded }
        phase := .queue }
    | .data (b :: bytes) =>
      { m with
        state := { m.state with stdinFrame := m.state.stdinFrame ++ b :: bytes }
        world := { m.world with stdin := m.world.stdin ++ b :: bytes }
        phase := .queue }
    | .retry => { m with phase := .queue }
    | .failed => m.fail .os

def Machine.readStdinStep (m : Machine) (a : Answers) : Machine :=
  if m.stdinEvents.isReadable then m.readStdinOnce a else { m with phase := .queue }

/-- `relay_stdio`, up to its next moment. -/
def Machine.step (m : Machine) (a : Answers) : Machine :=
  match m.phase with
  | .setup => if a.nonblocking then { m with phase := .queue } else m.fail .os
  | .queue => m.queueStep
  | .shutdown => m.shutdownStep a
  | .poll => m.pollStep a
  | .writeStdout => m.writeStdoutStep a
  | .readSocket => m.readSocketStep a
  | .writeSocket => m.writeSocketStep a
  | .readStdin => m.readStdinStep a
  | .finished _ => m

/-- The relay under every schedule. -/
def relay : Transition.System Machine Answers where
  init := .start
  enabled _ _ := True
  next := Machine.step

end Winsmux.RemoteHelper.Relay
