import Winsmux.RemoteHelper.Protocol
import Winsmux.Transition

/-!
# The broker and its threads

One step is one critical section on `BrokerState.inner`, one frame write on a
frontend's writer, or one wait that returns. A frontend's handler, the watcher
and the output reader of a session are threads of their own; every interleaving
of their steps is a run. Maps are lookup functions. The test gates and hooks of
the source are absent outside its tests and are not modelled, and `waitpid` on an
agent that only its watcher waits for is taken to succeed.
-/
namespace Winsmux.RemoteHelper
open Json Transition

inductive WritePhase where
  | pending
  | writing
  | written
  | abandoned
  deriving DecidableEq

/-- The lease on a session. The writer is the stream of the frontend, so the
frontend's id stands for both; `lease` numbers the installations and is ghost. -/
structure Controller where
  frontendId : ℕ
  active : Bool
  peerFrameLimit : UInt32
  lifecycleEnabled : Bool
  lease : ℕ
  deriving DecidableEq

/-- A session of the map; `starter` is ghost. The process group, the guardian and
the completion are found under the session's id. -/
structure Session where
  childPid : UInt32
  controller : Option Controller
  agentExited : Bool
  writePhase : WritePhase
  startConfirmed : Bool
  stopInFlight : Bool
  starter : ℕ
  deriving DecidableEq

/-- What a frame says besides its message, for the statements only: the lease it
grants or reports the end of, or the session whose bytes it carries. -/
inductive Mark where
  | plain
  | lease (n : ℕ)
  | bytesOf (sessionId : Text)
  deriving DecidableEq

structure Sent where
  message : Message
  mark : Mark
  deriving DecidableEq

/-- The process group of an agent. -/
inductive Group where
  | absent
  | running
  | signalled
  | exited
  | reaped
  deriving DecidableEq

structure ExitNotification where
  frontendId : ℕ
  lease : ℕ
  deriving DecidableEq

/-- What the wait for an agent's group ends with; the text is the error's. -/
abbrev Outcome := Except Text Unit

instance : DecidableEq Outcome
  | .ok (), .ok () => .isTrue rfl
  | .error a, .error b => decidable_of_iff (a = b) (by simp)
  | .ok (), .error _ => .isFalse (by simp)
  | .error _, .ok () => .isFalse (by simp)

inductive Watcher where
  | absent
  | waiting
  | reaping (note : Option ExitNotification)
  | notifying (note : ExitNotification) (result : Outcome)
  | finishing (result : Outcome)
  | done
  deriving DecidableEq

/-- Bytes of an agent and the controller they were read for. -/
structure Outgoing where
  chunk : List UInt8
  frontendId : ℕ
  peerFrameLimit : UInt32
  deriving DecidableEq

inductive Reader where
  | absent
  | gated
  | reading
  | read (chunk : List UInt8)
  | locking (out : Outgoing)
  | holding (out : Outgoing)
  | checked (out : Outgoing) (stillActive : Bool)
  | done
  deriving DecidableEq

/-- What a handler does after it has written its reply. -/
inductive After where
  | idle
  | close
  deriving DecidableEq

/-- Why a handler stops an agent's group and waits for the watcher. -/
inductive Cause where
  /-- PtyStarted could not be written. -/
  | failedStart
  /-- The output reader could not be spawned. -/
  | noReader (error : Text)
  | detach
  | stop
  /-- The frontend is gone; `rest` is still to be reaped. -/
  | gone (rest : List Text)
  deriving DecidableEq

/-- An inserted session on its way to PtyStarted; `lease` is ghost. -/
structure Starting where
  id : Text
  childPid : UInt32
  resolved : Option Text
  lease : ℕ
  deriving DecidableEq

/-- Where a frontend's handler thread is. -/
inductive Pc where
  | absent
  | greeting
  | idle
  | replying (reply : Message) (after : After)
  | startDraw (resolved : Option Text)
  | startSpawn (id : Text) (resolved : Option Text)
  | startInsert (id : Text) (pid : UInt32) (resolved : Option Text)
  | startWatcher (st : Starting)
  | startForget (id : Text) (error : Text)
  | startReader (st : Starting)
  | startCheck (st : Starting)
  | startClaim (st : Starting)
  | startSend (st : Starting)
  | startFinish (st : Starting) (written : Bool)
  | attachSend (id : Text) (pid : UInt32) (lease : ℕ)
  | attachActivate (id : Text)
  | signalling (id : Text) (cause : Cause)
  | awaiting (id : Text) (cause : Cause)
  | closing
  | closed
  deriving DecidableEq

structure Handler where
  pc : Pc
  controlledSession : Option Text
  peerFrameLimit : UInt32
  agentPathEnabled : Bool
  lifecycleEnabled : Bool
  deriving DecidableEq

/-- The broker, the agents and the bytes on the way to the frontends. `drawn` and
`leases` are ghost: the session ids `getrandom` has given and how many leases were
installed. -/
structure State where
  nextFrontendId : ℕ
  sessions : Text → Option Session
  handler : ℕ → Handler
  watcher : Text → Watcher
  reader : Text → Reader
  group : Text → Group
  completion : Text → Option Outcome
  gateOpen : Text → Bool
  writerLock : ℕ → Option Text
  broken : ℕ → Bool
  stream : ℕ → List Sent
  drawn : List Text
  leases : ℕ

def Handler.new (pc : Pc) : Handler := ⟨pc, none, 0, false, false⟩

/-- The broker at its first poll: the frontend that spawned it is registered as 1. -/
def State.start : State where
  nextFrontendId := 2
  sessions := fun _ => none
  handler := fun f => if f = 1 then .new .greeting else .new .absent
  watcher := fun _ => .absent
  reader := fun _ => .absent
  group := fun _ => .absent
  completion := fun _ => none
  gateOpen := fun _ => false
  writerLock := fun _ => none
  broken := fun _ => false
  stream := fun _ => []
  drawn := []
  leases := 0

namespace State

def setHandler (s : State) (f : ℕ) (h : Handler) : State :=
  { s with handler := Function.update s.handler f h }

def setPc (s : State) (f : ℕ) (pc : Pc) : State :=
  { s with handler := Function.update s.handler f { s.handler f with pc := pc } }

def setSession (s : State) (id : Text) (session : Option Session) : State :=
  { s with sessions := Function.update s.sessions id session }

def setWatcher (s : State) (id : Text) (w : Watcher) : State :=
  { s with watcher := Function.update s.watcher id w }

def setReader (s : State) (id : Text) (r : Reader) : State :=
  { s with reader := Function.update s.reader id r }

def setGroup (s : State) (id : Text) (g : Group) : State :=
  { s with group := Function.update s.group id g }

def openGate (s : State) (id : Text) : State :=
  { s with gateOpen := Function.update s.gateOpen id true }

def setWriterLock (s : State) (f : ℕ) (holder : Option Text) : State :=
  { s with writerLock := Function.update s.writerLock f holder }

/-- One frame write. A payload over the ceiling fails in `encode_frame` and leaves
the stream as it is; any other failure means that the connection is lost. -/
def write (s : State) (f : ℕ) (frame : Sent) (ok : Bool) : State :=
  { s with
    stream := if ok then Function.update s.stream f (s.stream f ++ [frame]) else s.stream
    broken :=
      if ok ∨ maxFrameLen < (encodePayload frame.message).length then s.broken
      else Function.update s.broken f true }

/-- The writer is free, and `ok` is a possible outcome of writing the message. -/
def canWrite (s : State) (f : ℕ) (m : Message) (ok : Bool) : Prop :=
  s.writerLock f = none ∧
    (ok = true → s.broken f = false ∧ (encodePayload m).length ≤ maxFrameLen)

instance (s : State) (f : ℕ) (m : Message) (ok : Bool) : Decidable (s.canWrite f m ok) :=
  inferInstanceAs (Decidable (_ ∧ (_ → _ ∧ _)))

/-- `SIGTERM` and `SIGKILL` to the whole group. -/
def stopGroup (s : State) (id : Text) : State :=
  s.setGroup id (if s.group id = .running then .signalled else s.group id)

/-- The session's controller is this frontend. -/
def Controls (s : State) (f : ℕ) (id : Text) : Prop :=
  ∃ session c, s.sessions id = some session ∧ session.controller = some c ∧ c.frontendId = f

end State

def Session.controlledBy (session : Session) (f : ℕ) : Bool :=
  session.controller.any fun c => c.frontendId = f

/-- A started session whose start its own frontend has not acknowledged. -/
def Session.unconfirmedBy (session : Session) (f : ℕ) : Bool :=
  session.writePhase = .written && !session.startConfirmed &&
    session.controller.any fun c => c.frontendId = f && c.lifecycleEnabled

def Session.release (session : Session) : Session := { session with controller := none }

def reject (code : RejectCode) (detail : String) : Pc :=
  .replying (rejectWith code (utf8 detail)) .idle

/-- A frame as the handler's `read_frame` and the JSON parser deliver it. -/
inductive Input where
  | frame (value : Option Value)
  | badFrame (reject : Message)
  | eof

/-- The rejects `read_frame` answers with. -/
def frameRejects : List Message :=
  [rejectWith .oversized (utf8 "frame payload larger than MAX_FRAME_LEN"),
    rejectWith .malformed (utf8 "frame payload length is zero"),
    rejectWith .malformed (utf8 "truncated frame payload")]

/-- What the file system and the terminal answer while one message is handled:
the path `resolve_agent` selects, and whether a write to the terminal succeeds. -/
structure Surroundings where
  resolved : Option Text
  terminalOk : Bool

def welcomeHas (capability : String) : Message → Bool
  | .welcome _ _ capabilities _ => utf8 capability ∈ capabilities
  | _ => false

def helloLimit : Message → UInt32
  | .hello _ _ _ _ limit => limit
  | _ => 0

namespace State

/-- The first frame of a frontend. -/
@[grind =] def greet (s : State) (f : ℕ) : Input → State
  | .eof => s.setPc f .closing
  | .badFrame reject => s.setPc f (.replying reject .close)
  | .frame value =>
    match decodeValue value with
    | .error reject => s.setPc f (.replying reject .close)
    | .ok hello =>
      let reply := negotiate hello
      s.setHandler f
        { pc := .replying reply (if reply.kind = .welcome then .idle else .close)
          controlledSession := none
          peerFrameLimit := helloLimit hello
          agentPathEnabled := welcomeHas "agent-path-v1" reply
          lifecycleEnabled := welcomeHas "session-lifecycle-v1" reply }

def dispatchStart (s : State) (f : ℕ) (resolution : Option AgentResolution)
    (around : Surroundings) : State :=
  let h := s.handler f
  let controlled :=
    if h.lifecycleEnabled ∧ (h.controlledSession.any fun id => (s.sessions id).isNone) then none
    else h.controlledSession
  let s := s.setHandler f { h with controlledSession := controlled }
  if controlled.isSome then
    s.setPc f (reject .controllerBusy "frontend already controls a session")
  else if resolution.isSome ∧ h.agentPathEnabled = false then
    s.setPc f (reject .unsupported "agent-path-v1 was not negotiated")
  else if resolution.isSome then
    match around.resolved with
    | some path => s.setPc f (.startDraw (some path))
    | none => s.setPc f (reject .spawnFailed "no executable candidate found")
  else s.setPc f (.startDraw none)

@[grind =] def dispatchStartAck (s : State) (f : ℕ) (id : Text) : State :=
  let h := s.handler f
  if h.lifecycleEnabled = false then
    s.setPc f (reject .unsupported "session-lifecycle-v1 was not negotiated")
  else
    match s.sessions id with
    | none => s.setPc f (reject .sessionNotFound "session does not exist")
    | some session =>
      if session.agentExited then s.setPc f (reject .sessionNotFound "Agent has exited")
      else if session.writePhase ≠ .written then
        s.setPc f (reject .sessionNotFound "Agent has exited")
      else if h.controlledSession ≠ some id ∨
          ¬ session.controller.any (fun c => c.frontendId = f && c.lifecycleEnabled) then
        s.setPc f (reject .notController "frontend does not own the controller lease")
      else (s.setSession id (some { session with startConfirmed := true })).setPc f .idle

@[grind =] def dispatchAttach (s : State) (f : ℕ) (id : Text) : State :=
  let h := s.handler f
  if h.controlledSession.isSome then
    s.setPc f (reject .controllerBusy "frontend already controls a session")
  else
    match s.sessions id with
    | none => s.setPc f (reject .sessionNotFound "session does not exist")
    | some session =>
      if session.agentExited then s.setPc f (reject .sessionNotFound "Agent has exited")
      else if session.controller.isSome then
        s.setPc f (reject .controllerBusy "session already has a controller")
      else
        let controller : Controller :=
          ⟨f, false, h.peerFrameLimit, h.lifecycleEnabled, s.leases⟩
        { s.setSession id (some { session with controller := some controller }) with
          leases := s.leases + 1 }.setHandler f
          { h with controlledSession := some id, pc := .attachSend id session.childPid s.leases }

@[grind =] def dispatchDetach (s : State) (f : ℕ) : State :=
  let h := s.handler f
  match h.controlledSession with
  | none => s.setPc f (reject .notController "frontend has no controller lease")
  | some id =>
    let s := s.setHandler f { h with controlledSession := none }
    match s.sessions id with
    | none => s.setPc f (.replying .ptyDetached .idle)
    | some session =>
      if session.unconfirmedBy f then (s.setSession id none).setPc f (.signalling id .detach)
      else if session.controlledBy f then
        (s.setSession id (some session.release)).setPc f (.replying .ptyDetached .idle)
      else s.setPc f (.replying .ptyDetached .idle)

@[grind =] def dispatchStop (s : State) (f : ℕ) (id : Text) : State :=
  let h := s.handler f
  let refuse (code : RejectCode) (detail : String) : State :=
    s.setHandler f { h with controlledSession := none, pc := reject code detail }
  if h.controlledSession ≠ some id then
    s.setPc f (reject .notController "pty-stop requires the controller lease")
  else
    match s.sessions id with
    | none => refuse .sessionNotFound "session does not exist"
    | some session =>
      if session.agentExited then refuse .sessionNotFound "Agent has exited"
      else if session.controlledBy f = false then
        refuse .notController "frontend does not own the controller lease"
      else
        let controller := session.controller.map fun c => { c with active := false }
        (s.setSession id (some { session with controller := controller, stopInFlight := true })).setPc
          f (.signalling id .stop)

/-- `controller_master`: the terminal of a session the frontend controls. -/
def controllerMaster (s : State) (f : ℕ) (id : Text) : Except Pc Unit :=
  match s.sessions id with
  | none => .error (reject .sessionNotFound "session does not exist")
  | some session =>
    if session.agentExited then .error (reject .sessionNotFound "Agent has exited")
    else if session.controlledBy f = false then
      .error (reject .notController "frontend does not own the controller lease")
    else .ok ()

/-- PtyInput and PtyResize: they touch the terminal and none of the shared state. -/
def dispatchTerminal (s : State) (f : ℕ) (name : String) (around : Surroundings) : State :=
  match (s.handler f).controlledSession with
  | none => s.setPc f (reject .notController name)
  | some id =>
    match s.controllerMaster f id with
    | .error refusal => s.setPc f refusal
    | .ok () => s.setPc f (if around.terminalOk then .idle else .closing)

def dispatchMessage (s : State) (f : ℕ) (around : Surroundings) : Message → State
  | .ptyStart _ resolution _ _ _ => s.dispatchStart f resolution around
  | .ptyStartAck id => s.dispatchStartAck f id
  | .ptyAttach id => s.dispatchAttach f id
  | .ptyDetach => s.dispatchDetach f
  | .ptyStop id => s.dispatchStop f id
  | .ptyInput _ => s.dispatchTerminal f "pty-input requires the controller lease" around
  | .ptyResize _ _ => s.dispatchTerminal f "pty-resize requires the controller lease" around
  | .hello .. | .welcome .. | .reject .. =>
    s.setPc f (reject .unknownType "handshake message is not accepted after Welcome")
  | .ptyStarted .. | .ptyExited _ | .ptyAttached .. | .ptyDetached | .ptyStopped | .ptyOutput _ =>
    s.setPc f (reject .unknownType "server-only message is not accepted from the peer")

/-- One round of the handler's loop up to its reply. -/
def receive (s : State) (f : ℕ) (around : Surroundings) : Input → State
  | .eof => s.setPc f .closing
  | .badFrame reject =>
    s.setPc f (.replying reject (if reject = frameRejects.head (by decide) then .close else .idle))
  | .frame value =>
    match decodeValue value with
    | .error reject => s.setPc f (.replying reject .idle)
    | .ok message => s.dispatchMessage f around message

def hexDigit (n : ℕ) : UInt8 := (if n < 10 then 0x30 + n else 0x61 + (n - 10)).toUInt8

/-- The text of 16 random bytes. -/
def sessionIdOf (bytes : List UInt8) : Text :=
  bytes.flatMap fun b => [hexDigit (b.toNat / 16), hexDigit (b.toNat % 16)]

def startedProbe (id : Text) (resolved : Option Text) : ℕ :=
  (encodePayload (.ptyStarted id (UInt32.ofNat (2 ^ 32 - 1)) resolved)).length

/-- One round of `unique_session_id` and, once the id is new to the map, the probe
for the frame that will announce it. -/
def drawId (s : State) (f : ℕ) (resolved : Option Text) (bytes : List UInt8) : State :=
  let id := sessionIdOf bytes
  let s := { s with drawn := id :: s.drawn }
  if (s.sessions id).isSome then s
  else if min maxFrameLen (s.handler f).peerFrameLimit.toNat < startedProbe id resolved then
    s.setPc f (reject .peerLimit "peer_frame_limit cannot carry PtyStarted")
  else s.setPc f (.startSpawn id resolved)

/-- The agent and its guardian; `cleaned` is whether a group that could not be
announced was cleaned up. -/
@[grind =] def spawnAgent (s : State) (f : ℕ) (id : Text) (resolved : Option Text)
    (spawned : Except Text UInt32) (cleaned : Bool) : State :=
  match spawned with
  | .error error => s.setPc f (.replying (rejectWith .spawnFailed error) .idle)
  | .ok pid =>
    let actual := (encodePayload (.ptyStarted id pid resolved)).length
    if startedProbe id resolved < actual ∨ (s.handler f).peerFrameLimit.toNat < actual then
      s.setPc f (.replying
        (rejectWith .peerLimit (utf8 "peer_frame_limit cannot carry PtyStarted"))
        (if cleaned then .idle else .close))
    else (s.setGroup id .running).setPc f (.startInsert id pid resolved)

def insertSession (s : State) (f : ℕ) (id : Text) (pid : UInt32) (resolved : Option Text) : State :=
  let h := s.handler f
  let session : Session :=
    { childPid := pid
      controller := some ⟨f, false, h.peerFrameLimit, h.lifecycleEnabled, s.leases⟩
      agentExited := false
      writePhase := .pending
      startConfirmed := false
      stopInFlight := false
      starter := f }
  { s.setSession id (some session) with leases := s.leases + 1 }.setPc f
    (.startWatcher ⟨id, pid, resolved, s.leases⟩)

/-- `spawn_agent_watcher`; without a watcher the handler stops and reaps the group. -/
@[grind =] def spawnWatcher (s : State) (f : ℕ) (st : Starting) (spawned : Outcome) (cleaned : Bool) : State :=
  match spawned with
  | .ok () => (s.setWatcher st.id .waiting).setPc f (.startReader st)
  | .error error =>
    (s.setGroup st.id (if cleaned then .reaped else s.group st.id)).setPc f
      (.startForget st.id error)

/-- The rest of that path: the session leaves the map and nobody waits for it. -/
def forget (s : State) (f : ℕ) (id error : Text) : State :=
  (s.setSession id none).setPc f (.replying (rejectWith .spawnFailed error) .idle)

def spawnReader (s : State) (f : ℕ) (st : Starting) (spawned : Outcome) : State :=
  match spawned with
  | .ok () => (s.setReader st.id .gated).setPc f (.startCheck st)
  | .error error => s.setPc f (.signalling st.id (.noReader error))

def Startable (s : State) (id : Text) : Prop :=
  ∃ session, s.sessions id = some session ∧ session.writePhase = .pending ∧
    session.agentExited = false

instance (s : State) (id : Text) : Decidable (s.Startable id) :=
  match h : s.sessions id with
  | none => .isFalse (by simp [Startable, h])
  | some session =>
    decidable_of_iff (session.writePhase = .pending ∧ session.agentExited = false)
      (by simp [Startable, h])

/-- The answer to a start whose agent is already gone. -/
def exitedFirst (s : State) (f : ℕ) (id : Text) : State :=
  (s.openGate id).setPc f (reject .spawnFailed "Agent exited before PtyStarted")

def checkStartable (s : State) (f : ℕ) (st : Starting) : State :=
  if s.Startable st.id then s.setPc f (.startClaim st) else s.exitedFirst f st.id

@[grind =] def claim (s : State) (f : ℕ) (st : Starting) : State :=
  match s.sessions st.id with
  | some session =>
    if session.writePhase ≠ .pending ∨ session.agentExited then s.exitedFirst f st.id
    else (s.setSession st.id (some { session with writePhase := .writing })).setPc f (.startSend st)
  | none => s.exitedFirst f st.id

def startedFrame (st : Starting) : Sent := ⟨.ptyStarted st.id st.childPid st.resolved, .lease st.lease⟩

def sendStarted (s : State) (f : ℕ) (st : Starting) (ok : Bool) : State :=
  let h := s.handler f
  (s.write f (startedFrame st) ok).setHandler f
    { h with
      controlledSession := if ok then some st.id else h.controlledSession
      pc := .startFinish st ok }

def finishStart (s : State) (f : ℕ) (st : Starting) (written : Bool) : State :=
  let s := s.openGate st.id
  match s.sessions st.id with
  | none => s.setPc f (if written then .idle else .closing)
  | some session =>
    if written then
      let controller := session.controller.map fun c =>
        if c.frontendId = f then { c with active := true } else c
      (s.setSession st.id (some { session with
        writePhase := .written
        startConfirmed := !(s.handler f).lifecycleEnabled
        controller := controller })).setPc f .idle
    else
      let controller := session.controller.map fun c => { c with active := false }
      (s.setSession st.id (some { session with
        writePhase := .abandoned
        controller := controller })).setPc f (.signalling st.id .failedStart)

def sendReply (s : State) (f : ℕ) (m : Message) (after : After) (ok : Bool) : State :=
  (s.write f ⟨m, .plain⟩ ok).setPc f (if ok ∧ after = .idle then .idle else .closing)

def attachedFrame (id : Text) (pid : UInt32) (lease : ℕ) : Sent := ⟨.ptyAttached id pid, .lease lease⟩

def sendAttached (s : State) (f : ℕ) (id : Text) (pid : UInt32) (lease : ℕ) (ok : Bool) : State :=
  (s.write f (attachedFrame id pid lease) ok).setPc f (if ok then .attachActivate id else .closing)

def activateController (s : State) (f : ℕ) (id : Text) : State :=
  match s.sessions id with
  | none => s.setPc f .idle
  | some session =>
    let controller := session.controller.map fun c =>
      if c.frontendId = f then { c with active := true } else c
    (s.setSession id (some { session with controller := controller })).setPc f .idle

/-- The next of a lost frontend's groups to reap. -/
def reapNext : List Text → Pc
  | [] => .closed
  | id :: rest => .signalling id (.gone rest)

/-- `request_process_group_stop`. -/
@[grind =] def requestStop (s : State) (f : ℕ) (id : Text) (cause : Cause) (ok : Bool) : State :=
  if ok then (s.stopGroup id).setPc f (.awaiting id cause)
  else
    match cause with
    | .gone rest => s.setPc f (reapNext rest)
    | _ => s.setPc f .closing

/-- What follows `Completion::wait`. -/
@[grind =] def completed (s : State) (f : ℕ) (cause : Cause) (result : Outcome) : State :=
  match cause with
  | .failedStart => s.setPc f .closing
  | .noReader error => s.setPc f (.replying (rejectWith .spawnFailed error) .idle)
  | .detach =>
    match result with
    | .ok () => s.setPc f (.replying .ptyDetached .idle)
    | .error _ => s.setPc f .closing
  | .stop =>
    let reply := match result with
      | .ok () => Message.ptyStopped
      | .error detail => rejectWith .spawnFailed detail
    s.setHandler f { s.handler f with controlledSession := none, pc := .replying reply .idle }
  | .gone rest => s.setPc f (reapNext rest)

/-- A session after one critical section of `disconnect_frontend`. -/
def afterDisconnect (f : ℕ) (session : Session) : Option Session :=
  if session.unconfirmedBy f then none
  else if session.controlledBy f then some session.release
  else some session

/-- The ids that `disconnect_frontend` removes, in some order. -/
def unconfirmed (s : State) (f : ℕ) : List Text :=
  s.drawn.filter fun id => (s.sessions id).any fun session => session.unconfirmedBy f

def disconnectFrontend (s : State) (f : ℕ) : State :=
  { s with sessions := fun id => (s.sessions id).bind (afterDisconnect f) }.setPc f
    (reapNext (s.unconfirmed f))

/-- `remove_after_agent_exit`, once the session is not being announced. -/
def exitNotification (session : Session) : Option ExitNotification :=
  if session.writePhase = .written ∧ session.stopInFlight = false then
    (session.controller.filter fun c => c.lifecycleEnabled).map fun c => ⟨c.frontendId, c.lease⟩
  else none

def removeAfterAgentExit (s : State) (id : Text) : State :=
  (s.setSession id none).setWatcher id (.reaping ((s.sessions id).bind exitNotification))

/-- The rest of `wait_for_agent_group`: stop, reap and prove the group gone. -/
def reapGroup (s : State) (id : Text) (note : Option ExitNotification) (result : Outcome) : State :=
  (s.setGroup id (if result = .ok () then .reaped else s.group id)).setWatcher id
    (match note with
      | some note => .notifying note result
      | none => .finishing result)

def exitedFrame (id : Text) (note : ExitNotification) : Sent := ⟨.ptyExited id, .lease note.lease⟩

def notifyExit (s : State) (id : Text) (note : ExitNotification) (result : Outcome) (ok : Bool) :
    State :=
  (s.write note.frontendId (exitedFrame id note) ok).setWatcher id (.finishing result)

/-- `result.and(guardian_result)`. -/
def bothOutcomes : Outcome → Outcome → Outcome
  | .ok (), guardian => guardian
  | .error error, _ => .error error

def finishCompletion (s : State) (id : Text) (result guardian : Outcome) : State :=
  { s with completion := Function.update s.completion id (some (bothOutcomes result guardian)) }.setWatcher
    id .done

/-- The active controller of a session, as the reader copies it. -/
def activeController (s : State) (id : Text) : Option Controller :=
  ((s.sessions id).bind Session.controller).filter Controller.active

def snapshotController (s : State) (id : Text) (chunk : List UInt8) : State :=
  s.setReader id (match s.activeController id with
    | some c => .locking ⟨chunk, c.frontendId, c.peerFrameLimit⟩
    | none => .reading)

def lockWriter (s : State) (id : Text) (out : Outgoing) : State :=
  (s.setWriterLock out.frontendId (some id)).setReader id (.holding out)

def stillActive (s : State) (id : Text) (f : ℕ) : Bool :=
  (s.activeController id).any fun c => c.frontendId = f

def recheck (s : State) (id : Text) (out : Outgoing) : State :=
  s.setReader id (.checked out (s.stillActive id out.frontendId))

def outputMessage (out : Outgoing) : Message := .ptyOutput (encodeBase64 out.chunk)

def outputFrame (id : Text) (out : Outgoing) : Sent := ⟨outputMessage out, .bytesOf id⟩

/-- Whether the reader writes at all under the lock it holds. -/
def willWrite (out : Outgoing) (stillActive : Bool) : Bool :=
  stillActive && (encodePayload (outputMessage out)).length ≤ out.peerFrameLimit.toNat

def writeOutput (s : State) (id : Text) (out : Outgoing) (stillActive ok : Bool) : State :=
  let s := if willWrite out stillActive then s.write out.frontendId (outputFrame id out) ok else s
  (s.setWriterLock out.frontendId none).setReader id .reading

end State

/-- The steps of the broker. A label carries what the thread knows at its place, so
that its guard is an equation, and what the environment answers. -/
inductive Label where
  | accept
  | greet (f : ℕ) (input : Input)
  | receive (f : ℕ) (input : Input) (around : Surroundings)
  | sendReply (f : ℕ) (m : Message) (after : After) (ok : Bool)
  | drawId (f : ℕ) (resolved : Option Text) (bytes : List UInt8)
  | drawFailed (f : ℕ) (resolved : Option Text)
  | spawnAgent (f : ℕ) (id : Text) (resolved : Option Text) (spawned : Except Text UInt32)
      (cleaned : Bool)
  | insertSession (f : ℕ) (id : Text) (pid : UInt32) (resolved : Option Text)
  | spawnWatcher (f : ℕ) (st : Starting) (spawned : Outcome) (cleaned : Bool)
  | forget (f : ℕ) (id error : Text)
  | spawnReader (f : ℕ) (st : Starting) (spawned : Outcome)
  | checkStartable (f : ℕ) (st : Starting)
  | claim (f : ℕ) (st : Starting)
  | sendStarted (f : ℕ) (st : Starting) (ok : Bool)
  | finishStart (f : ℕ) (st : Starting) (written : Bool)
  | sendAttached (f : ℕ) (id : Text) (pid : UInt32) (lease : ℕ) (ok : Bool)
  | activate (f : ℕ) (id : Text)
  | signal (f : ℕ) (id : Text) (cause : Cause) (ok : Bool)
  | completed (f : ℕ) (id : Text) (cause : Cause) (result : Outcome)
  | disconnect (f : ℕ)
  | agentExit (id : Text)
  | agentKilled (id : Text)
  | classify (id : Text)
  | reapGroup (id : Text) (note : Option ExitNotification) (result : Outcome)
  | notifyExit (id : Text) (note : ExitNotification) (result : Outcome) (ok : Bool)
  | finish (id : Text) (result guardian : Outcome)
  | passGate (id : Text)
  | readChunk (id : Text) (chunk : List UInt8)
  | readEnd (id : Text)
  | snapshot (id : Text) (chunk : List UInt8)
  | lockWriter (id : Text) (out : Outgoing)
  | recheck (id : Text) (out : Outgoing)
  | writeOutput (id : Text) (out : Outgoing) (stillActive ok : Bool)

/-- The frontend whose handler takes the step. -/
@[grind =] def Label.actor : Label → Option ℕ
  | .greet f _ | .receive f _ _ | .sendReply f _ _ _ | .drawId f _ _ | .drawFailed f _
  | .spawnAgent f _ _ _ _ | .insertSession f _ _ _ | .spawnWatcher f _ _ _ | .forget f _ _
  | .spawnReader f _ _ | .checkStartable f _ | .claim f _ | .sendStarted f _ _
  | .finishStart f _ _ | .sendAttached f _ _ _ _ | .activate f _ | .signal f _ _ _
  | .completed f _ _ _ | .disconnect f => some f
  | .accept | .agentExit _ | .agentKilled _ | .classify _ | .reapGroup .. | .notifyExit ..
  | .finish .. | .passGate _ | .readChunk .. | .readEnd _ | .snapshot .. | .lockWriter ..
  | .recheck .. | .writeOutput .. => none

/-- The session whose agent or watcher the step moves. -/
@[grind =] def Label.agent : Label → Option Text
  | .spawnWatcher _ st _ _ => some st.id
  | .spawnAgent _ id _ _ _ | .signal _ id _ _ | .agentExit id | .agentKilled id | .classify id
  | .reapGroup id _ _ | .notifyExit id _ _ _ | .finish id _ _ => some id
  | _ => none

/-- The session whose output reader takes the step or is spawned by it. -/
def Label.reads : Label → Option Text
  | .spawnReader _ st _ => some st.id
  | .passGate id | .readChunk id _ | .readEnd id | .snapshot id _ | .lockWriter id _
  | .recheck id _ | .writeOutput id _ _ _ => some id
  | _ => none

/-- What `read_frame` can return. -/
def Input.Legal : Input → Prop
  | .badFrame reject => reject ∈ frameRejects
  | _ => True

instance : ∀ input : Input, Decidable input.Legal
  | .badFrame reject => inferInstanceAs (Decidable (reject ∈ frameRejects))
  | .frame _ | .eof => .isTrue trivial

namespace State

def At (s : State) (f : ℕ) (pc : Pc) : Prop := (s.handler f).pc = pc

instance (s : State) (f : ℕ) (pc : Pc) : Decidable (s.At f pc) :=
  inferInstanceAs (Decidable (_ = _))

/-- The session is not between the claim of its PtyStarted and the end of the write. -/
def announced (s : State) (id : Text) : Bool :=
  (s.sessions id).all fun session => session.writePhase ≠ .writing

@[grind =] def enabled (s : State) : Label → Prop
  | .accept => True
  | .greet f input => s.At f .greeting ∧ input.Legal
  | .receive f input _ => s.At f .idle ∧ input.Legal
  | .sendReply f m after ok => s.At f (.replying m after) ∧ s.canWrite f m ok
  | .drawId f resolved bytes => s.At f (.startDraw resolved) ∧ bytes.length = 16
  | .drawFailed f resolved => s.At f (.startDraw resolved)
  | .spawnAgent f id resolved spawned _ =>
    s.At f (.startSpawn id resolved) ∧ spawned ≠ .ok 0
  | .insertSession f id pid resolved => s.At f (.startInsert id pid resolved)
  | .spawnWatcher f st _ _ => s.At f (.startWatcher st)
  | .forget f id error => s.At f (.startForget id error)
  | .spawnReader f st _ => s.At f (.startReader st)
  | .checkStartable f st => s.At f (.startCheck st)
  | .claim f st => s.At f (.startClaim st)
  | .sendStarted f st ok => s.At f (.startSend st) ∧ s.canWrite f (startedFrame st).message ok
  | .finishStart f st written => s.At f (.startFinish st written)
  | .sendAttached f id pid lease ok =>
    s.At f (.attachSend id pid lease) ∧ s.canWrite f (.ptyAttached id pid) ok
  | .activate f id => s.At f (.attachActivate id)
  | .signal f id cause _ => s.At f (.signalling id cause)
  | .completed f id cause result => s.At f (.awaiting id cause) ∧ s.completion id = some result
  | .disconnect f => s.At f .closing
  | .agentExit id => s.group id = .running
  | .agentKilled id => s.group id = .signalled
  | .classify id => s.watcher id = .waiting ∧ s.group id = .exited ∧ s.announced id
  | .reapGroup id note _ => s.watcher id = .reaping note
  | .notifyExit id note result ok =>
    s.watcher id = .notifying note result ∧ s.canWrite note.frontendId (.ptyExited id) ok
  | .finish id result _ => s.watcher id = .finishing result
  | .passGate id => s.reader id = .gated ∧ s.gateOpen id
  | .readChunk id chunk => s.reader id = .reading ∧ 0 < chunk.length ∧ chunk.length ≤ maxPtyIoChunk
  | .readEnd id => s.reader id = .reading
  | .snapshot id chunk => s.reader id = .read chunk
  | .lockWriter id out => s.reader id = .locking out ∧ s.writerLock out.frontendId = none
  | .recheck id out => s.reader id = .holding out
  | .writeOutput id out stillActive ok =>
    s.reader id = .checked out stillActive ∧ (willWrite out stillActive = true → ok = true →
      s.broken out.frontendId = false ∧ (encodePayload (outputMessage out)).length ≤ maxFrameLen)

instance decidableEnabled (s : State) (l : Label) : Decidable (s.enabled l) := by
  cases l <;> dsimp only [enabled] <;> infer_instance

@[grind =] def next (s : State) : Label → State
  | .accept =>
    { s with nextFrontendId := s.nextFrontendId + 1 }.setHandler s.nextFrontendId (.new .greeting)
  | .greet f input => s.greet f input
  | .receive f input around => s.receive f around input
  | .sendReply f m after ok => s.sendReply f m after ok
  | .drawId f resolved bytes => s.drawId f resolved bytes
  | .drawFailed f _ => s.setPc f .closing
  | .spawnAgent f id resolved spawned cleaned => s.spawnAgent f id resolved spawned cleaned
  | .insertSession f id pid resolved => s.insertSession f id pid resolved
  | .spawnWatcher f st spawned cleaned => s.spawnWatcher f st spawned cleaned
  | .forget f id error => s.forget f id error
  | .spawnReader f st spawned => s.spawnReader f st spawned
  | .checkStartable f st => s.checkStartable f st
  | .claim f st => s.claim f st
  | .sendStarted f st ok => s.sendStarted f st ok
  | .finishStart f st written => s.finishStart f st written
  | .sendAttached f id pid lease ok => s.sendAttached f id pid lease ok
  | .activate f id => s.activateController f id
  | .signal f id cause ok => s.requestStop f id cause ok
  | .completed f _ cause result => s.completed f cause result
  | .disconnect f => s.disconnectFrontend f
  | .agentExit id | .agentKilled id => s.setGroup id .exited
  | .classify id => s.removeAfterAgentExit id
  | .reapGroup id note result => s.reapGroup id note result
  | .notifyExit id note result ok => s.notifyExit id note result ok
  | .finish id result guardian => s.finishCompletion id result guardian
  | .passGate id => s.setReader id .reading
  | .readChunk id chunk => s.setReader id (.read chunk)
  | .readEnd id => s.setReader id .done
  | .snapshot id chunk => s.snapshotController id chunk
  | .lockWriter id out => s.lockWriter id out
  | .recheck id out => s.recheck id out
  | .writeOutput id out stillActive ok => s.writeOutput id out stillActive ok

end State

def broker : System State Label where
  init := .start
  enabled := State.enabled
  next := State.next

instance (s : State) (l : Label) : Decidable (broker.enabled s l) :=
  inferInstanceAs (Decidable (s.enabled l))

/-- `getrandom` never gives the same 16 bytes twice. -/
def FreshIds (s : State) : Label → Prop
  | .drawId _ _ bytes => State.sessionIdOf bytes ∉ s.drawn
  | _ => True

instance (s : State) (l : Label) : Decidable (FreshIds s l) := by
  cases l <;> dsimp only [FreshIds] <;> infer_instance

/-- Signals to a process group are delivered, and the group is gone after them. -/
def SignalsSucceed (_ : State) : Label → Prop
  | .signal _ _ _ ok => ok = true
  | .reapGroup _ _ result => result = .ok ()
  | .spawnWatcher _ _ _ cleaned => cleaned = true
  | _ => True

instance (s : State) (l : Label) : Decidable (SignalsSucceed s l) := by
  cases l <;> dsimp only [SignalsSucceed] <;> infer_instance

end Winsmux.RemoteHelper
