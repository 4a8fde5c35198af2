import Std.Data.TreeMap.Lemmas
import Winsmux.Decimal
import Winsmux.Transition
import Winsmux.Utf8

/-!
# Output for control clients

A thread for each pane puts what the pane's process writes in a ring. The server loop drains
the rings and sends what it finds, decoded, through a channel of its own to each control
client, where another thread writes it as a line. Times are in nanoseconds.
-/
namespace Winsmux.Control
open Json Transition Utf8

def escapeOutputByte (c : UInt8) : Text :=
  if c = 0x5c then utf8 "\\134"
  else if 0x20 ≤ c ∧ c ≤ 0x7e then [c]
  else if c = 0x09 then [c]
  else [0x5c, 0x30 + c / 64, 0x30 + c / 8 % 8, 0x30 + c % 8]

def escapeOutput (data : Text) : Text := data.flatMap escapeOutputByte

/-- What a client reads in the data of a line. -/
def unescapeOutput : Text → Text
  | [] => []
  | c :: t =>
    if c ≠ 0x5c then c :: unescapeOutput t else
    match t with
    | c :: d :: e :: t => ((c - 0x30) * 64 + (d - 0x30) * 8 + (e - 0x30)) :: unescapeOutput t
    | _ => []

inductive ControlNotification where
  | output (paneId : ℕ) (data : Text)
  | extendedOutput (paneId ageMs : ℕ) (data : Text)
  | pause (paneId : ℕ)
  | continue_ (paneId : ℕ)
  /-- Any other notification, as its line. -/
  | other (line : Text)

def formatNotification : ControlNotification → Text
  | .output paneId data => utf8 "%output %" ++ (decimal paneId ++ 0x20 :: escapeOutput data)
  | .extendedOutput paneId ageMs data =>
    utf8 "%extended-output %" ++ (decimal paneId ++ 0x20 :: (decimal ageMs ++ utf8 " : " ++ escapeOutput data))
  | .pause paneId => utf8 "%pause %" ++ decimal paneId
  | .continue_ paneId => utf8 "%continue %" ++ decimal paneId
  | .other line => line

namespace ControlNotification

/-- The output of a pane that a notification is about. -/
def dataFor (paneId : ℕ) : ControlNotification → Option Text
  | output id data | extendedOutput id _ data => if id = paneId then some data else none
  | _ => none

/-- The last field of its line, where that is the output of a pane. -/
def fieldFor (paneId : ℕ) (n : ControlNotification) : Option Text := (n.dataFor paneId).map escapeOutput

end ControlNotification

structure Pane where
  id : ℕ
  outputRing : Text

def maxRing : ℕ := 65536

/-- What does not fit pushes the oldest bytes out. -/
def appendToOutputRing (ring bytes : Text) : Text :=
  let space := maxRing - ring.length
  if bytes.length ≤ space then ring ++ bytes
  else ring.drop (min (bytes.length - space) ring.length) ++ bytes

structure ControlClient where
  clientId : ℕ
  /-- What is in the channel. -/
  notificationTx : List ControlNotification
  /-- What was taken from the channel and written as lines. -/
  lines : List ControlNotification
  pausedPanes : List ℕ
  pauseAfterSecs : Option ℕ
  outputPausedPanes : List ℕ
  paneLastOutput : Std.TreeMap ℕ ℕ

def channelBound : ℕ := 4096

namespace ControlClient

def trySend (n : ControlNotification) (client : ControlClient) : ControlClient :=
  if client.notificationTx.length < channelBound then
    { client with notificationTx := client.notificationTx ++ [n] }
  else client

/-- The output of one pane, sent to one client. -/
def dispatch (now : ℕ) (client : ControlClient) (output : ℕ × Text) : ControlClient :=
  let (paneId, data) := output
  if paneId ∈ client.pausedPanes ∨ paneId ∈ client.outputPausedPanes then client
  else
    match client.pauseAfterSecs with
    | none => client.trySend (.output paneId data)
    | some pauseSecs =>
      let age := now - client.paneLastOutput.getD paneId now
      let client := { client with paneLastOutput := client.paneLastOutput.insert paneId now }
      if pauseSecs ≤ age / 10 ^ 9 then
        { client with outputPausedPanes := paneId :: client.outputPausedPanes }.trySend (.pause paneId)
      else client.trySend (.extendedOutput paneId (age / 10 ^ 6) data)

/-- The thread of the client writes the next line. -/
def deliver (client : ControlClient) : ControlClient :=
  match client.notificationTx with
  | [] => client
  | n :: rest => { client with notificationTx := rest, lines := client.lines ++ [n] }

def setPauseAfter (pauseAfterSecs : Option ℕ) (client : ControlClient) : ControlClient :=
  if pauseAfterSecs.isNone then { client with pauseAfterSecs, outputPausedPanes := [], paneLastOutput := ∅ }
  else { client with pauseAfterSecs }

def continuePane (paneId : ℕ) (client : ControlClient) : ControlClient :=
  if paneId ∈ client.outputPausedPanes then
    { client with outputPausedPanes := client.outputPausedPanes.filter (· ≠ paneId) }.trySend (.continue_ paneId)
  else client

def registered (clientId : ℕ) : ControlClient := ⟨clientId, [], [], [], none, [], ∅⟩

end ControlClient

structure AppState where
  /-- The panes of all windows. -/
  panes : List Pane
  controlClients : List ControlClient

namespace AppState

def pane (app : AppState) (paneId : ℕ) : Option Pane := app.panes.find? (·.id = paneId)

def client (app : AppState) (clientId : ℕ) : Option ControlClient :=
  app.controlClients.find? (·.clientId = clientId)

def updateClient (clientId : ℕ) (f : ControlClient → ControlClient) (app : AppState) : AppState :=
  { app with controlClients := app.controlClients.map fun k => if k.clientId = clientId then f k else k }

/-- The reader of a pane got some bytes. -/
def read (paneId : ℕ) (bytes : Text) (app : AppState) : AppState :=
  { app with panes := app.panes.map fun q =>
      if q.id = paneId then { q with outputRing := appendToOutputRing q.outputRing bytes } else q }

/-- What the rings hold, decoded pane by pane. -/
def paneOutputs (app : AppState) : List (ℕ × Text) :=
  (app.panes.filter (·.outputRing ≠ [])).map fun q => (q.id, fromUtf8Lossy q.outputRing)

/-- The loop finds data ready: all rings are drained, each client is sent all outputs. -/
def drain (now : ℕ) (app : AppState) : AppState :=
  if app.controlClients.isEmpty then app
  else
    { panes := app.panes.map fun q => { q with outputRing := [] }
      controlClients := app.controlClients.map fun k => app.paneOutputs.foldl (·.dispatch now ·) k }

end AppState

inductive Event where
  | read (paneId : ℕ) (bytes : Text)
  | drain (now : ℕ)
  | deliver (clientId : ℕ)
  | controlRegister (clientId : ℕ)
  | controlDeregister (clientId : ℕ)
  | controlSetPauseAfter (clientId : ℕ) (pauseAfterSecs : Option ℕ)
  | controlContinuePane (clientId paneId : ℕ)
  /-- A notification that is not about output. -/
  | notify (clientId : ℕ) (line : Text)

namespace AppState

def next (app : AppState) : Event → AppState
  | .read paneId bytes => app.read paneId bytes
  | .drain now => app.drain now
  | .deliver clientId => app.updateClient clientId (·.deliver)
  | .controlRegister clientId => { app with controlClients := app.controlClients ++ [.registered clientId] }
  | .controlDeregister clientId =>
    { app with controlClients := app.controlClients.filter (·.clientId ≠ clientId) }
  | .controlSetPauseAfter clientId secs => app.updateClient clientId (·.setPauseAfter secs)
  | .controlContinuePane clientId paneId => app.updateClient clientId (·.continuePane paneId)
  | .notify clientId line => app.updateClient clientId (·.trySend (.other line))

/-- The buffer of a reader is as long as a ring; the ids of clients come from a counter. -/
def allows (app : AppState) : Event → Bool
  | .read _ bytes => bytes ≠ [] && bytes.length ≤ maxRing
  | .controlRegister clientId => (app.client clientId).isNone
  | _ => true

end AppState

/-- The server, what the process of one pane has written, and what the drains took of it. -/
structure Watched where
  app : AppState
  written : Text
  pieces : List Text

namespace AppState

def ring (app : AppState) (paneId : ℕ) : Text := (app.pane paneId).elim [] Pane.outputRing

/-- The data of a pane in the lines of a client, those in its channel too, read back. -/
def shown (app : AppState) (clientId paneId : ℕ) : Text :=
  match app.client clientId with
  | none => []
  | some k => ((k.lines ++ k.notificationTx).filterMap (·.fieldFor paneId)).flatMap unescapeOutput

/-- Neither ring nor channel is full, and the pane is not paused for the client. -/
def calm (clientId paneId : ℕ) (app : AppState) : Bool :=
  (app.ring paneId).length < maxRing &&
    (app.client clientId).any fun k => k.notificationTx.length < channelBound &&
      paneId ∉ k.pausedPanes && paneId ∉ k.outputPausedPanes

end AppState

namespace Watched

def next (paneId : ℕ) (w : Watched) (e : Event) : Watched where
  app := w.app.next e
  written :=
    match e with
    | .read id bytes => if id = paneId then w.written ++ bytes else w.written
    | _ => w.written
  pieces :=
    match e with
    | .drain _ =>
      if w.app.controlClients.isEmpty ∨ w.app.ring paneId = [] then w.pieces
      else w.pieces ++ [w.app.ring paneId]
    | _ => w.pieces

end Watched

/-- A server with one client and what was written before it came. -/
def startWatch (panes : List Pane) (clientId paneId : ℕ) : Watched :=
  let app : AppState := ⟨panes, [.registered clientId]⟩
  ⟨app, app.ring paneId, []⟩

/-- The runs in which ring and channel are never full and the pane is never paused. -/
def watch (panes : List Pane) (clientId paneId : ℕ) : System Watched Event where
  init := startWatch panes clientId paneId
  enabled w e := w.app.allows e ∧ (w.app.next e).calm clientId paneId
  next := Watched.next paneId

instance watch.decidable (panes : List Pane) (clientId paneId : ℕ) (w : Watched) (e : Event) :
    Decidable ((watch panes clientId paneId).enabled w e) :=
  inferInstanceAs (Decidable (w.app.allows e = true ∧ (w.app.next e).calm clientId paneId = true))

end Winsmux.Control
