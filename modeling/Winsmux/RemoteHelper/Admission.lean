import Winsmux.Transition

/-!
# Admission to the broker

Frontend processes and broker processes around `broker.lock` and `broker.sock`.
The lock belongs to an open file description; the name belongs to the broker that
bound it and stays behind when that broker dies. Processes may be killed, or leave
by an error, at every point. Frontends, brokers and connections are numbered.
-/
namespace Winsmux.RemoteHelper.Admission
open Transition

/-- The file description that holds `broker.lock`: a frontend's, the copy its child
has not closed yet, the one of a shutdown attempt or of the thread that waits. -/
inductive Holder where
  | frontend (f : ℕ)
  | child (b : ℕ)
  | broker (b : ℕ)
  | waiter (b : ℕ)
  deriving DecidableEq

/-- The loop variables of `serve_brokered_stdio`. -/
structure Round where
  attempt : ℕ
  spawnAttempted : Bool
  deriving DecidableEq

def handshakeAttempts : ℕ := 3

/-- Where a frontend process is. -/
inductive Front where
  | waiting (r : Round)
  | locked (r : Round)
  /-- The name is there and nobody listens. -/
  | refused (r : Round)
  /-- There is no name. -/
  | unbound (r : Round)
  | spawning (r : Round) (broker connection : ℕ)
  | reaping (broker : ℕ)
  | originated (r : Round) (connection : ℕ)
  | handshake (r : Round) (connection : ℕ) (originator : Bool)
  | answered (connection : ℕ) (originator : Bool)
  | failed (r : Round) (connection : ℕ) (originator retryable : Bool)
  | dropped (r : Round) (originator retryable : Bool)
  | relaying (connection : ℕ)
  | gone
  deriving DecidableEq

/-- Where the main thread of a broker process is. -/
inductive Main where
  | unborn
  | forked
  | starting
  | bound
  /-- The wake pipe could not be made, and the name is taken away again. -/
  | unlinked
  | ready
  | polling
  | accepting
  | checking
  | idle
  | contended
  | draining (accepted : ℕ)
  | drained
  | unlocking
  | removing
  | exiting
  | dead
  deriving DecidableEq

/-- The thread that `arm_shutdown_lock_release_waiter` spawns. -/
inductive Waiter where
  | absent
  | waiting
  | holding
  deriving DecidableEq

/-- `first` is the connection of the socketpair; `frontends` of the source is the
length of `served`. -/
structure Broker where
  main : Main
  first : ℕ
  acked : Bool
  backlog : List ℕ
  served : List ℕ
  sessions : ℕ
  waiter : Waiter
  deriving DecidableEq

/-- `closed` and `cut` are the two ends of a connection: the frontend's and the broker's. -/
structure State where
  lock : Option Holder
  sock : Option ℕ
  front : ℕ → Front
  broker : ℕ → Broker
  target : ℕ → ℕ
  closed : ℕ → Bool
  cut : ℕ → Bool
  replied : ℕ → Bool
  nextBroker : ℕ
  nextConnection : ℕ

def State.start : State where
  lock := none
  sock := none
  front := fun _ => .waiting ⟨0, false⟩
  broker := fun _ => ⟨.unborn, 0, false, [], [], 0, .absent⟩
  target := fun _ => 0
  closed := fun _ => false
  cut := fun _ => false
  replied := fun _ => false
  nextBroker := 0
  nextConnection := 0

/-- The connection a frontend has and has not done the handshake on. -/
def Front.handshaking : Front → Option ℕ
  | .spawning _ _ c | .originated _ c | .handshake _ c _ | .failed _ c _ _ => some c
  | _ => none

def Front.connection : Front → Option ℕ
  | .answered c _ | .relaying c => some c
  | front => front.handshaking

/-- The frontend is between its `lock_exclusive` and its `unlock`. -/
def Front.holds : Front → Bool
  | .locked _ | .refused _ | .unbound _ | .spawning .. | .reaping _ | .originated .. => true
  | .handshake _ _ originator | .answered _ originator | .failed _ _ originator _
  | .dropped _ originator _ => !originator
  | .waiting _ | .relaying _ | .gone => false

/-- The process lives and has its listener open. -/
def Main.listening : Main → Bool
  | .unborn | .forked | .starting | .dead => false
  | _ => true

/-- It listens and has not taken its name away. -/
def Main.named (m : Main) : Bool := m.listening && m ≠ .unlinked && m ≠ .exiting

/-- Before `BrokerState::new`. -/
def Main.early : Main → Bool
  | .forked | .starting | .bound | .unlinked => true
  | _ => false

/-- Inside `accept_available`. -/
def Main.accepts : Main → Bool
  | .accepting | .draining _ => true
  | _ => false

/-- Inside `attempt_shutdown`, with the lock. -/
def Main.holds : Main → Bool
  | .draining _ | .drained | .unlocking | .removing | .exiting => true
  | _ => false

def Broker.isIdle (b : Broker) : Bool := b.served = [] && b.sessions = 0

namespace State

def setFront (s : State) (f : ℕ) (front : Front) : State :=
  { s with front := Function.update s.front f front }

def setBroker (s : State) (b : ℕ) (broker : Broker) : State :=
  { s with broker := Function.update s.broker b broker }

def setMain (s : State) (b : ℕ) (main : Main) : State :=
  s.setBroker b { s.broker b with main := main }

/-- `flock(LOCK_UN)`, or the last close, of one file description. -/
def unlock (s : State) (h : Holder) : State :=
  { s with lock := if s.lock = some h then none else s.lock }

/-- The stream of a frontend is dropped. -/
def closeConnection (s : State) (f : ℕ) : State :=
  { s with closed := match (s.front f).connection with
      | some c => Function.update s.closed c true
      | none => s.closed }

/-- `connect_under_lock`. -/
def connect (s : State) (f : ℕ) (r : Round) : State :=
  match s.sock with
  | none => s.setFront f (.unbound r)
  | some b =>
    if (s.broker b).main.listening then
      let c := s.nextConnection
      { (s.setBroker b { s.broker b with backlog := (s.broker b).backlog ++ [c] }).setFront f
          (.handshake r c false) with
        target := Function.update s.target c b
        nextConnection := c + 1 }
    else s.setFront f (.refused r)

/-- The fork of `spawn_broker`; the child inherits the descriptor of the lock. -/
def spawnBroker (s : State) (f : ℕ) (r : Round) : State :=
  let b := s.nextBroker
  let c := s.nextConnection
  { (s.setBroker b ⟨.forked, c, false, [], [], 0, .absent⟩).setFront f
      (.spawning { r with spawnAttempted := true } b c) with
    target := Function.update s.target c b
    nextBroker := b + 1
    nextConnection := c + 1 }

/-- The next round of the loop, or its end. -/
def nextRound (r : Round) (retryable : Bool) : Front :=
  if retryable ∧ r.attempt + 1 < handshakeAttempts then
    .waiting { r with attempt := r.attempt + 1 }
  else .gone

/-- Who keeps the lock when frontend `f` ends: a child that has not closed its copy,
or nobody. -/
def heir (s : State) (f : ℕ) : Option Holder :=
  match s.front f with
  | .spawning _ b _ => if (s.broker b).main = .forked then some (.child b) else none
  | _ => none

/-- The frontend returns an error or is killed. -/
def leave (s : State) (f : ℕ) : State :=
  { s.closeConnection f with
    lock := if s.lock = some (Holder.frontend f) then s.heir f else s.lock }.setFront f .gone

/-- The end of a broker process; its name stays where it is. -/
def endBroker (s : State) (b : ℕ) : State :=
  { s.setBroker b { s.broker b with
        main := .dead
        backlog := []
        served := []
        sessions := 0
        waiter := .absent } with
    cut := fun c => s.cut c || s.target c = b
    lock := if s.lock ∈ [some (Holder.child b), some (.broker b), some (.waiter b)] then none
      else s.lock }

/-- `UnixListener::bind` fails on a name that exists. -/
def bind (s : State) (b : ℕ) : State :=
  if s.sock = none then { s.setMain b .bound with sock := some b } else s.endBroker b

/-- One round of `accept_available`; `valid` is whether the peer's euid is ours. -/
def accept (s : State) (b c : ℕ) (valid : Bool) : State :=
  let broker := s.broker b
  if valid then
    let main := match broker.main with
      | .draining accepted => .draining (accepted + 1)
      | main => main
    s.setBroker b { broker with
      main := main
      backlog := broker.backlog.tail
      served := c :: broker.served }
  else
    { s.setBroker b { broker with backlog := broker.backlog.tail } with
      cut := Function.update s.cut c true }

def tryLock (s : State) (b : ℕ) : State :=
  if s.lock = none then { s.setMain b (.draining 0) with lock := some (.broker b) }
  else s.setMain b .contended

def armWaiter (s : State) (b : ℕ) : State :=
  let broker := s.broker b
  s.setBroker b { broker with
    main := .polling
    waiter := if broker.isIdle ∧ broker.waiter = .absent then .waiting else broker.waiter }

/-- The handler of a connection ends: `disconnect_frontend` takes `removed` sessions along. -/
def hangUp (s : State) (b c removed : ℕ) : State :=
  let broker := s.broker b
  { s.setBroker b { broker with
      served := broker.served.erase c
      sessions := broker.sessions - removed } with
    cut := Function.update s.cut c true }

end State

inductive Label where
  | lockExclusive (f : ℕ) (r : Round)
  | connect (f : ℕ) (r : Round)
  | removeStale (f : ℕ) (r : Round)
  | spawnBroker (f : ℕ) (r : Round)
  | readAck (f : ℕ) (r : Round) (b c : ℕ)
  | ackFailed (f : ℕ) (r : Round) (b c : ℕ)
  | unlockOriginator (f : ℕ) (r : Round) (c : ℕ)
  | receiveReply (f : ℕ) (r : Round) (c : ℕ) (originator : Bool)
  | handshakeFails (f : ℕ) (r : Round) (c : ℕ) (originator retryable : Bool)
  | dropStream (f : ℕ) (r : Round) (c : ℕ) (originator retryable : Bool)
  | retry (f : ℕ) (r : Round) (originator retryable : Bool)
  | finish (f c : ℕ) (originator : Bool)
  | leave (f : ℕ)
  | closeLockCopy (b : ℕ)
  | bind (b : ℕ)
  | pipeFails (b : ℕ)
  | newState (b : ℕ)
  | writeAck (b : ℕ)
  | poll (b : ℕ) (pollin : Bool)
  | accept (b c : ℕ) (valid : Bool)
  | acceptWouldBlock (b : ℕ)
  | checkIdle (b : ℕ)
  | tryLock (b : ℕ)
  | armWaiter (b : ℕ)
  | waiterLock (b : ℕ)
  | waiterUnlock (b : ℕ)
  | drained (b accepted : ℕ)
  | recheckIdle (b : ℕ)
  | unlockBroker (b : ℕ)
  | removeName (b : ℕ)
  | shutdownExit (b : ℕ)
  | die (b : ℕ)
  | reply (b c : ℕ)
  | startSession (b c : ℕ)
  | endSession (b : ℕ)
  | hangUp (b c removed : ℕ)

namespace State

def enabled (s : State) : Label → Prop
  | .lockExclusive f r => s.front f = .waiting r ∧ s.lock = none
  | .connect f r => s.front f = .locked r
  | .removeStale f r => s.front f = .refused r
  | .spawnBroker f r => s.front f = .unbound r ∧ r.spawnAttempted = false
  | .readAck f r b c => s.front f = .spawning r b c ∧ (s.broker b).acked
  | .ackFailed f r b c => s.front f = .spawning r b c ∧ (s.broker b).acked = false
  | .unlockOriginator f r c => s.front f = .originated r c
  | .receiveReply f r c originator => s.front f = .handshake r c originator ∧ s.replied c
  | .handshakeFails f r c originator _ => s.front f = .handshake r c originator
  | .dropStream f r c originator retryable => s.front f = .failed r c originator retryable
  | .retry f r originator retryable => s.front f = .dropped r originator retryable
  | .finish f c originator => s.front f = .answered c originator
  | .leave f => s.front f ≠ .gone
  | .closeLockCopy b => (s.broker b).main = .forked
  | .bind b => (s.broker b).main = .starting
  | .pipeFails b => (s.broker b).main = .bound
  | .newState b => (s.broker b).main = .bound
  | .writeAck b => (s.broker b).main = .ready
  | .poll b _ => (s.broker b).main = .polling
  | .accept b c _ => (s.broker b).main.accepts ∧ (s.broker b).backlog.head? = some c
  | .acceptWouldBlock b => (s.broker b).main = .accepting ∧ (s.broker b).backlog = []
  | .checkIdle b => (s.broker b).main = .checking
  | .tryLock b => (s.broker b).main = .idle
  | .armWaiter b => (s.broker b).main = .contended
  | .waiterLock b => (s.broker b).waiter = .waiting ∧ s.lock = none
  | .waiterUnlock b => (s.broker b).waiter = .holding
  | .drained b accepted => (s.broker b).main = .draining accepted ∧ (s.broker b).backlog = []
  | .recheckIdle b => (s.broker b).main = .drained
  | .unlockBroker b => (s.broker b).main = .unlocking
  | .removeName b => (s.broker b).main = .removing
  | .shutdownExit b => (s.broker b).main = .exiting
  | .die b => (s.broker b).main ≠ .unborn ∧ (s.broker b).main ≠ .dead
  | .reply b c => c ∈ (s.broker b).served
  | .startSession b c => c ∈ (s.broker b).served
  | .endSession b => 0 < (s.broker b).sessions
  | .hangUp b c _ => c ∈ (s.broker b).served

instance decidableEnabled (s : State) (l : Label) : Decidable (s.enabled l) := by
  cases l <;> dsimp only [enabled] <;> infer_instance

def next (s : State) : Label → State
  | .lockExclusive f r => { s.setFront f (.locked r) with lock := some (.frontend f) }
  | .connect f r => s.connect f r
  | .removeStale f r => { s.setFront f (.unbound r) with sock := none }
  | .spawnBroker f r => s.spawnBroker f r
  | .readAck f r _ c => s.setFront f (.originated r c)
  | .ackFailed f _ b _ => (s.closeConnection f).setFront f (.reaping b)
  | .unlockOriginator f r c => (s.unlock (.frontend f)).setFront f (.handshake r c true)
  | .receiveReply f _ c originator => s.setFront f (.answered c originator)
  | .handshakeFails f r c originator retryable => s.setFront f (.failed r c originator retryable)
  | .dropStream f r _ originator retryable =>
    (s.closeConnection f).setFront f (.dropped r originator retryable)
  | .retry f r originator retryable =>
    (if originator then s else s.unlock (.frontend f)).setFront f (nextRound r retryable)
  | .finish f c originator =>
    (if originator then s else s.unlock (.frontend f)).setFront f (.relaying c)
  | .leave f => s.leave f
  | .closeLockCopy b => (s.unlock (.child b)).setMain b .starting
  | .bind b => s.bind b
  | .pipeFails b => { s.setMain b .unlinked with sock := none }
  | .newState b => s.setBroker b { s.broker b with main := .ready, served := [(s.broker b).first] }
  | .writeAck b => s.setBroker b { s.broker b with main := .polling, acked := true }
  | .poll b pollin => s.setMain b (if pollin then .accepting else .checking)
  | .accept b c valid => s.accept b c valid
  | .acceptWouldBlock b => s.setMain b .checking
  | .checkIdle b => s.setMain b (if (s.broker b).isIdle then .idle else .polling)
  | .tryLock b => s.tryLock b
  | .armWaiter b => s.armWaiter b
  | .waiterLock b =>
    { s.setBroker b { s.broker b with waiter := .holding } with lock := some (.waiter b) }
  | .waiterUnlock b => (s.unlock (.waiter b)).setBroker b { s.broker b with waiter := .absent }
  | .drained b accepted => s.setMain b (if 0 < accepted then .unlocking else .drained)
  | .recheckIdle b => s.setMain b (if (s.broker b).isIdle then .removing else .unlocking)
  | .unlockBroker b => (s.unlock (.broker b)).setMain b .polling
  | .removeName b => { s.setMain b .exiting with sock := none }
  | .shutdownExit b | .die b => s.endBroker b
  | .reply _ c => { s with replied := Function.update s.replied c true }
  | .startSession b _ => s.setBroker b { s.broker b with sessions := (s.broker b).sessions + 1 }
  | .endSession b => s.setBroker b { s.broker b with sessions := (s.broker b).sessions - 1 }
  | .hangUp b c removed => s.hangUp b c removed

end State

def admission : System State Label where
  init := .start
  enabled := State.enabled
  next := State.next

instance (s : State) (l : Label) : Decidable (admission.enabled s l) :=
  inferInstanceAs (Decidable (s.enabled l))

end Winsmux.RemoteHelper.Admission
