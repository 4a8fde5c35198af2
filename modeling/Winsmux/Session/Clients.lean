import Std.Data.TreeMap.Lemmas
import Winsmux.Transition

/-!
# Attached clients

A connection attaches, resizes and detaches by requests in one channel, which the server
answers in order. The server counts attached clients, keeps a registry and a table of sizes
and remembers the client seen last, each updated by itself in every handler. A control
client is registered under an id from a counter of its own.
-/
namespace Winsmux.Clients
open Transition

structure ClientInfo where
  id : ℕ
  width : ℕ
  height : ℕ
  isControl : Bool

inductive WindowSize where
  | smallest
  | largest
  | latest

structure AppState where
  attachedClients : ℕ
  clientRegistry : Std.TreeMap ℕ ClientInfo
  clientSizes : Std.TreeMap ℕ (ℕ × ℕ)
  latestClientId : Option ℕ
  lastWindowArea : ℕ × ℕ
  windowSize : WindowSize
  mouseEnabled : Bool
  destroyUnattached : Bool

inductive CtrlReq where
  | clientAttach (cid : ℕ)
  | clientDetach (cid : ℕ)
  | forceDetachClient (cid : ℕ)
  | clientSize (cid width height : ℕ)
  /-- A mouse event of a client. -/
  | mouse (cid : ℕ)
  | controlRegister (clientId : ℕ)
  | controlDeregister (clientId : ℕ)
  | setDestroyUnattached (on : Bool)
  | setMouse (on : Bool)
  | setWindowSize (size : WindowSize)

namespace AppState

/-- The size in effect, where any client has told its own. -/
def computeEffectiveClientSize (app : AppState) : Option (ℕ × ℕ) :=
  let sizes := app.clientSizes.values
  let smallest := do (← (sizes.map Prod.fst).min?, ← (sizes.map Prod.snd).min?)
  match app.windowSize with
  | .smallest => smallest
  | .largest => do (← (sizes.map Prod.fst).max?, ← (sizes.map Prod.snd).max?)
  | .latest => (app.latestClientId.bind (app.clientSizes[·]?)).or smallest

def fitArea (app : AppState) : AppState :=
  { app with lastWindowArea := app.computeEffectiveClientSize.getD app.lastWindowArea }

def info (app : AppState) (cid : ℕ) (isControl : Bool) : ClientInfo :=
  ⟨cid, app.lastWindowArea.1, app.lastWindowArea.2, isControl⟩

def clientAttach (cid : ℕ) (app : AppState) : AppState :=
  { app with
    attachedClients := app.attachedClients + 1
    latestClientId := some cid
    clientRegistry := app.clientRegistry.insertIfNew cid (app.info cid false) }

def clientDetach (cid : ℕ) (app : AppState) : AppState :=
  fitArea { app with
    attachedClients := app.attachedClients - 1
    clientSizes := app.clientSizes.erase cid
    clientRegistry := app.clientRegistry.erase cid
    latestClientId := if app.latestClientId = some cid then none else app.latestClientId }

def forceDetachClient (cid : ℕ) (app : AppState) : AppState :=
  let clientRegistry := app.clientRegistry.erase cid
  fitArea { app with
    attachedClients := if cid ∈ app.clientRegistry then app.attachedClients - 1 else app.attachedClients
    clientSizes := app.clientSizes.erase cid
    clientRegistry
    latestClientId := if app.latestClientId = some cid then clientRegistry.maxKey? else app.latestClientId }

def clientSize (cid width height : ℕ) (app : AppState) : AppState :=
  let app :=
    { app with
      clientSizes := app.clientSizes.insert cid (width, height)
      latestClientId := some cid
      clientRegistry := app.clientRegistry.modify cid fun info => { info with width, height } }
  { app with lastWindowArea := app.computeEffectiveClientSize.getD (width, height) }

def mouse (cid : ℕ) (app : AppState) : AppState :=
  if app.mouseEnabled then { app with latestClientId := some cid } else app

def controlRegister (clientId : ℕ) (app : AppState) : AppState :=
  { app with
    clientRegistry := app.clientRegistry.insert clientId (app.info clientId true)
    attachedClients := app.attachedClients + 1 }

def controlDeregister (clientId : ℕ) (app : AppState) : AppState :=
  { app with
    clientRegistry := app.clientRegistry.erase clientId
    attachedClients := app.attachedClients - 1 }

def handle : CtrlReq → AppState → AppState
  | .clientAttach cid => clientAttach cid
  | .clientDetach cid => clientDetach cid
  | .forceDetachClient cid => forceDetachClient cid
  | .clientSize cid width height => clientSize cid width height
  | .mouse cid => mouse cid
  | .controlRegister clientId => controlRegister clientId
  | .controlDeregister clientId => controlDeregister clientId
  | .setDestroyUnattached on => fun app => { app with destroyUnattached := on }
  | .setMouse on => fun app => { app with mouseEnabled := on }
  | .setWindowSize size => fun app => { app with windowSize := size }

end AppState

/-- A detach destroys the session where the count comes to zero. -/
def CtrlReq.detaches : CtrlReq → Bool
  | clientDetach _ | forceDetachClient _ => true
  | _ => false

def destroys (req : CtrlReq) (app : AppState) : Bool :=
  req.detaches && (app.handle req).attachedClients = 0 && (app.handle req).destroyUnattached

/-- A connection; the client id is its place, a control client has another id besides. -/
structure Connection where
  control : Option ℕ
  attachedSent : Bool
  ended : Bool

inductive Line where
  | clientAttach
  | clientDetach
  | detachClient (target : Option ℕ)
  | clientSize (width height : ℕ)
  | mouse
  | setDestroyUnattached (on : Bool)
  | setMouse (on : Bool)
  | setWindowSize (size : WindowSize)

/-- What a line sends, and whether the connection counts as attached after it. -/
def Line.send (cid : ℕ) (attachedSent : Bool) : Line → List CtrlReq × Bool
  | clientAttach => (if attachedSent then [] else [.clientAttach cid], true)
  | clientDetach => ([.clientDetach cid], false)
  | detachClient (some target) => ([.forceDetachClient target], attachedSent)
  | detachClient none => ([.clientDetach cid], false)
  | clientSize width height => ([.clientSize cid width height], attachedSent)
  | mouse => ([.mouse cid], attachedSent)
  | setDestroyUnattached on => ([.setDestroyUnattached on], attachedSent)
  | setMouse on => ([.setMouse on], attachedSent)
  | setWindowSize size => ([.setWindowSize size], attachedSent)

structure World where
  app : AppState
  exited : Bool
  channel : List CtrlReq
  connections : List Connection
  nextControlClientId : ℕ

inductive Action where
  | connect
  | connectControl
  /-- A connection reads a line. -/
  | line (i : ℕ) (l : Line)
  /-- The stream of a connection ends. -/
  | endOfStream (i : ℕ)
  /-- The server takes the next request. -/
  | serve

namespace World

def connect (w : World) : World := { w with connections := w.connections ++ [⟨none, false, false⟩] }

def connectControl (w : World) : World :=
  { w with
    channel := w.channel ++ [.controlRegister w.nextControlClientId]
    connections := w.connections ++ [⟨some w.nextControlClientId, false, false⟩]
    nextControlClientId := w.nextControlClientId + 1 }

def line (i : ℕ) (l : Line) (w : World) : World :=
  match w.connections[i]? with
  | none => w
  | some c =>
    let (reqs, attachedSent) := l.send (i + 1) c.attachedSent
    { w with
      channel := w.channel ++ reqs
      connections := w.connections.set i { c with attachedSent } }

/-- An attached connection detaches, a control client deregisters. -/
def endOfStream (i : ℕ) (w : World) : World :=
  match w.connections[i]? with
  | none => w
  | some c =>
    let reqs :=
      match c.control with
      | some id => [.controlDeregister id]
      | none => if c.attachedSent then [.clientDetach (i + 1)] else []
    { w with
      channel := w.channel ++ reqs
      connections := w.connections.set i { c with ended := true } }

def serve (w : World) : World :=
  match w.channel with
  | [] => w
  | req :: channel => { w with app := w.app.handle req, exited := destroys req w.app, channel }

/-- A control connection reads commands of its own, none of which is about clients. -/
def reads (w : World) (i : ℕ) : Bool := w.connections[i]?.any fun c => c.control.isNone && !c.ended

def next (w : World) : Action → World
  | .connect => w.connect
  | .connectControl => w.connectControl
  | .line i l => w.line i l
  | .endOfStream i => w.endOfStream i
  | .serve => w.serve

def allows (w : World) : Action → Bool
  | .connect | .connectControl => !w.exited
  | .line i _ => !w.exited && w.reads i
  | .endOfStream i => !w.exited && w.connections[i]?.any (!·.ended)
  | .serve => !w.exited && w.channel ≠ []

end World

/-- A server without clients. -/
def start (area : ℕ × ℕ) (windowSize : WindowSize) (mouseEnabled destroyUnattached : Bool) : World where
  app := ⟨0, ∅, ∅, none, area, windowSize, mouseEnabled, destroyUnattached⟩
  exited := false
  channel := []
  connections := []
  nextControlClientId := 1

def server (w : World) : System World Action where
  init := w
  enabled w a := w.allows a
  next := World.next

instance server.decidable (w0 w : World) (a : Action) : Decidable ((server w0).enabled w a) :=
  inferInstanceAs (Decidable (w.allows a = true))

end Winsmux.Clients
