import Winsmux.TextLines
import Winsmux.Decimal
import Winsmux.Transition

/-!
# Cleanup of stale sessions

A cleanup goes through the port files of the session directory and removes the files of
every server that it takes for dead. What it knows it reads file by file and probe by probe
while servers start, write their files and die; each of these is one step of its own. The
age of a file, the time and programs that are no servers are seen from outside.
-/
namespace Winsmux.Stale
open Json Transition

/-- The processes of the machine by pid, each with the time it was started. Elsewhere than
on Windows the time cannot be asked for. -/
structure Host where
  windows : Bool
  running : ℕ → Option ℕ

namespace Host

def processIdIsAlive (host : Host) (pid : ℕ) : Bool := (host.running pid).isSome

def processStartedAtMillisForPid (host : Host) (pid : ℕ) : Option ℕ :=
  if host.windows then host.running pid else none

end Host

def isWarmSession (base : Text) : Bool := base = utf8 "__warm__" || (utf8 "____warm__").isSuffixOf base

def sessionRegistryOwner (base : Text) : Text := if isWarmSession base then utf8 "warm" else utf8 "normal"

/-- What stands before and behind the first two underscores. -/
def splitUnderscores : Text → Option (Text × Text)
  | 0x5f :: 0x5f :: t => some ([], t)
  | c :: t => (splitUnderscores t).map fun (front, back) => (c :: front, back)
  | [] => none

def sessionNamespaceFromBase (base : Text) : Option Text :=
  (splitUnderscores base).bind fun (ns, name) =>
    if ns = [] || name = [] || isWarmSession base then none else some ns

def asU64 : Value → Option ℕ
  | .num n => if n < 2 ^ 64 then some n else none
  | _ => none

def registryU128 (registry : Value) (key : Text) : Option ℕ := (registry.get key).bind asU64

def registryStr (registry : Value) (key : Text) : Option Text := (registry.get key).bind Value.asStr

def registryIsForBase (registry : Value) (base : Text) : Bool :=
  registryU128 registry (utf8 "protocol_version") = some 1 && registryStr registry (utf8 "session") = some base

def registryServerExeMatchesCurrent (registry : Value) (currentExe : Option Text) : Bool :=
  match registryStr registry (utf8 "server_exe") with
  | none => false
  | some serverExe => currentExe = some serverExe

def registryOwnerMatchesBase (registry : Value) (base : Text) : Bool :=
  registryStr registry (utf8 "owner") = some (sessionRegistryOwner base)

def registryHasCleanupOwnershipEvidence (registry : Value) (base : Text) (currentExe : Option Text) : Bool :=
  registryIsForBase registry base && registryOwnerMatchesBase registry base &&
    (registryU128 registry (utf8 "server_pid")).any (· > 0) &&
    (registryU128 registry (utf8 "process_started_at")).isSome &&
    (registryStr registry (utf8 "instance_nonce")).any (trim · ≠ []) &&
    registryServerExeMatchesCurrent registry currentExe

def registryProcessStartedAtMatchesPid (host : Host) (registry : Value) (pid : ℕ) : Bool :=
  match registryU128 registry (utf8 "process_started_at") with
  | none => false
  | some expected =>
    match host.processStartedAtMillisForPid pid with
    | none => !host.windows && host.processIdIsAlive pid
    | some actual => actual = expected

def registryServerPid (host : Host) (registry : Value) (base : Text) (currentExe : Option Text) : Option ℕ :=
  if registryIsForBase registry base && registryOwnerMatchesBase registry base &&
      registryServerExeMatchesCurrent registry currentExe then
    (registryU128 registry (utf8 "server_pid")).filter fun pid =>
      0 < pid && pid < 2 ^ 32 && registryProcessStartedAtMatchesPid host registry pid
  else none

/-- A minute in milliseconds. -/
def sessionRegistryStartupDeadline : ℕ := 60000

def registryIsWithinStartupDeadline (host : Host) (now : ℕ) (registry : Value) (base : Text)
    (currentExe : Option Text) : Bool :=
  registryIsForBase registry base && registryOwnerMatchesBase registry base &&
    registryStr registry (utf8 "state") = some (utf8 "starting") &&
    match registryU128 registry (utf8 "created_at") with
    | none => false
    | some createdAt =>
      (registryServerPid host registry base currentExe).isSome &&
        now - createdAt < sessionRegistryStartupDeadline

/-- The session directory, by base. What a registry file holds is the value its text stands
for, where it does. -/
structure Dir where
  port : Text → Option Text
  key : Text → Option Text
  registry : Text → Option (Option Value)
  registryTmp : Text → Option (Option Value)

namespace Dir

def empty : Dir := ⟨fun _ => none, fun _ => none, fun _ => none, fun _ => none⟩

def setPort (base : Text) (contents : Option Text) (dir : Dir) : Dir :=
  { dir with port := Function.update dir.port base contents }

def setKey (base : Text) (contents : Option Text) (dir : Dir) : Dir :=
  { dir with key := Function.update dir.key base contents }

def setRegistry (base : Text) (contents : Option (Option Value)) (dir : Dir) : Dir :=
  { dir with registry := Function.update dir.registry base contents }

def setRegistryTmp (base : Text) (contents : Option (Option Value)) (dir : Dir) : Dir :=
  { dir with registryTmp := Function.update dir.registryTmp base contents }

def readSessionRegistry (base : Text) (dir : Dir) : Option Value := (dir.registry base).join

/-- The record put in place, where it is still there. -/
def renameRegistry (base : Text) (dir : Dir) : Option Dir :=
  (dir.registryTmp base).map fun record => (dir.setRegistryTmp base none).setRegistry base (some record)

end Dir

/-- What a step sees beside the files. -/
structure Sight where
  now : ℕ
  /-- The port file is a few seconds old at most. -/
  recent : Bool
  /-- A server lets the key in. -/
  answered : Bool
  /-- Something listens at the port. -/
  opened : Bool

/-- The port file that is looked at, the registry read for it, and the bases still to do. -/
structure Entry where
  base : Text
  registry : Option Value
  rest : List Text

/-- The next thing to do about an entry; `allowed` says whether its files may be removed. -/
inductive Point where
  | checkStartup
  | checkAlive
  | legacyRecent
  | legacyExists
  | readPort (allowed : Bool)
  | readKey (allowed : Bool) (port : ℕ)
  | probe (allowed : Bool) (port : ℕ) (key : Text)
  | probeOpen (allowed : Bool) (port : ℕ)
  | removePort
  | removeKey
  | removeRegistry
  | removeTmp

inductive Cleanup where
  | next (todo : List Text)
  | busy (e : Entry) (p : Point)

def portFileIsRecent (dir : Dir) (sight : Sight) (base : Text) : Bool :=
  (dir.port base).isSome && sight.recent

namespace Cleanup

def skip (e : Entry) : Cleanup := .next e.rest

def removeIf (allowed : Bool) (e : Entry) : Cleanup := if allowed then .busy e .removePort else skip e

/-- One step: the directory after it and what comes next. -/
def step (host : Host) (currentExe : Option Text) (sight : Sight) (dir : Dir) : Cleanup → Dir × Cleanup
  | .next [] => (dir, .next [])
  | .next (base :: rest) => (dir, .busy ⟨base, dir.readSessionRegistry base, rest⟩ .checkStartup)
  | .busy e p =>
    match p with
    | .checkStartup =>
      match e.registry with
      | some registry =>
        if registryIsWithinStartupDeadline host sight.now registry e.base currentExe then (dir, skip e)
        else (dir, .busy e .checkAlive)
      | none => if portFileIsRecent dir sight e.base then (dir, skip e) else (dir, .busy e .checkAlive)
    | .checkAlive =>
      match e.registry with
      | some registry =>
        if (registryServerPid host registry e.base currentExe).any host.processIdIsAlive then (dir, skip e)
        else
          (dir, .busy e (.readPort (registryHasCleanupOwnershipEvidence registry e.base currentExe)))
      | none => (dir, .busy e .legacyRecent)
    | .legacyRecent =>
      (dir, .busy e (if portFileIsRecent dir sight e.base then .readPort false else .legacyExists))
    | .legacyExists => (dir, .busy e (.readPort (dir.registry e.base).isNone))
    | .readPort allowed =>
      match (dir.port e.base).bind fun text => parseUnsigned (2 ^ 16) (trim text) with
      | some port => (dir, .busy e (.readKey allowed port))
      | none => (dir, removeIf allowed e)
    | .readKey allowed port =>
      match (dir.key e.base).map trim with
      | none | some [] => (dir, .busy e (.probeOpen allowed port))
      | some key => (dir, .busy e (.probe allowed port key))
    | .probe allowed port _ =>
      if sight.answered then (dir, skip e) else (dir, .busy e (.probeOpen allowed port))
    | .probeOpen allowed _ =>
      if sight.opened && e.registry.isNone then (dir, skip e) else (dir, removeIf allowed e)
    | .removePort => (dir.setPort e.base none, .busy e .removeKey)
    | .removeKey => (dir.setKey e.base none, .busy e .removeRegistry)
    | .removeRegistry => (dir.setRegistry e.base none, .busy e .removeTmp)
    | .removeTmp => (dir.setRegistryTmp e.base none, skip e)

end Cleanup

/-- A server process: its name, its port and key, and what its records say of it. -/
structure Launch where
  base : Text
  port : ℕ
  key : Text
  pid : ℕ
  startedAt : ℕ
  createdAt : ℕ
  nonce : Text
  exe : Option Text
  port_lt : port < 2 ^ 16
  key_trim : trim key = key
  pid_pos : 0 < pid
  pid_lt : pid < 2 ^ 32
  startedAt_lt : startedAt < 2 ^ 64
  createdAt_lt : createdAt < 2 ^ 64
  nonce_trim : trim nonce ≠ []

/-- How far a server has come. -/
inductive Stage where
  | unborn
  | bound
  | wrotePort
  | wroteKey
  | wroteTmp
  | starting
  | truncated
  | rewritten
  | accepting
  | readyTmp
  | ready
  | refreshTmp
  deriving DecidableEq

namespace Launch

/-- The payload of a registry record. -/
def record (l : Launch) (windows : Bool) (state : Text) (readyAt : Option ℕ) (restore : Option Value) : Value :=
  .obj ([
    (utf8 "protocol_version", .num 1),
    (utf8 "session", .str l.base),
    (utf8 "namespace", match sessionNamespaceFromBase l.base with | some ns => .str ns | none => .null),
    (utf8 "server_pid", .num l.pid),
    (utf8 "process_started_at", .num (if windows then l.startedAt else l.createdAt)),
    (utf8 "server_exe", match l.exe with | some exe => .str exe | none => .null),
    (utf8 "instance_nonce", .str l.nonce),
    (utf8 "port", .num l.port),
    (utf8 "state", .str state),
    (utf8 "owner", .str (sessionRegistryOwner l.base)),
    (utf8 "created_at", .num l.createdAt),
    (utf8 "ready_at", match readyAt with | some t => .num t | none => .null)] ++
    (restore.map fun restore => (utf8 "restore", restore)).toList)

/-- A step of a server: the directory and the stage after it; `none` where it fails and ends. -/
def advance (l : Launch) (windows : Bool) (readyAt : ℕ) (restore : Option Value) (dir : Dir) :
    Stage → Option (Dir × Stage)
  | .unborn => none
  | .bound => some (dir.setPort l.base (some (decimal l.port)), .wrotePort)
  | .wrotePort => some (dir.setKey l.base (some l.key), .wroteKey)
  | .wroteKey =>
    some (dir.setRegistryTmp l.base (some (l.record windows (utf8 "starting") none restore)), .wroteTmp)
  | .wroteTmp => (dir.renameRegistry l.base).map fun dir => (dir, .starting)
  | .starting => if windows then some (dir.setKey l.base (some []), .truncated) else some (dir, .accepting)
  | .truncated => some (dir.setKey l.base (some l.key), .rewritten)
  | .rewritten => some (dir, .accepting)
  | .accepting =>
    some (dir.setRegistryTmp l.base (some (l.record windows (utf8 "ready") (some readyAt) restore)), .readyTmp)
  | .readyTmp => (dir.renameRegistry l.base).map fun dir => (dir, .ready)
  | .ready =>
    some (dir.setRegistryTmp l.base (some (l.record windows (utf8 "ready") (some readyAt) restore)), .refreshTmp)
  -- a refresh that fails is reported and left
  | .refreshTmp => some ((dir.renameRegistry l.base).getD dir, .ready)

end Launch

/-- The server processes and the cleanups there will be, and what is there before them. Keys
are drawn at random: no two are the same. -/
structure Setting (ι κ : Type) where
  launch : ι → Launch
  exe : κ → Option Text
  windows : Bool
  running : ℕ → Option ℕ
  dir : Dir
  keys_injective : ∀ i j, (launch i).key = (launch j).key → i = j
  leftover_keys : ∀ base key, dir.key base = some key → ∀ i, trim key ≠ (launch i).key

structure World (ι κ : Type) where
  dir : Dir
  host : Host
  stage : ι → Stage
  alive : ι → Bool
  cleanups : κ → Cleanup

inductive Label (ι κ : Type) where
  /-- A server process starts and binds its port. -/
  | launch (i : ι)
  | server (i : ι) (readyAt : ℕ) (restore : Option Value)
  | die (i : ι)
  /-- Any other process. -/
  | spawn (pid startedAt : ℕ)
  | exit (pid : ℕ)
  | call (c : κ) (bases : List Text)
  | cleanup (c : κ) (sight : Sight)

def Stage.accepts : Stage → Bool
  | .accepting | .readyTmp | .ready | .refreshTmp => true
  | _ => false

namespace Setting
variable {ι κ : Type} [DecidableEq ι] [DecidableEq κ] (P : Setting ι κ)

def start : World ι κ where
  dir := P.dir
  host := ⟨P.windows, P.running⟩
  stage _ := .unborn
  alive _ := false
  cleanups _ := .next []

/-- A server lets a key in once it accepts connections. -/
def Answers (w : World ι κ) (port : ℕ) (key : Text) : Prop :=
  ∃ j, w.alive j = true ∧ (w.stage j).accepts = true ∧ (P.launch j).port = port ∧ (P.launch j).key = key

/-- A server listens at its port from when it is bound. -/
def Listens (w : World ι κ) (port : ℕ) : Prop := ∃ j, w.alive j = true ∧ (P.launch j).port = port

/-- What a cleanup sees is so. -/
def Truthful (w : World ι κ) (sight : Sight) : Cleanup → Prop
  | .busy _ (.probe _ port key) => sight.answered = true ↔ P.Answers w port key
  | .busy _ (.probeOpen _ port) => P.Listens w port → sight.opened = true
  | _ => True

def enabled (w : World ι κ) : Label ι κ → Prop
  | .launch i => w.stage i = .unborn ∧ w.host.running (P.launch i).pid = none ∧
    ¬ P.Listens w (P.launch i).port
  | .server i _ _ => w.alive i = true
  | .die i => w.alive i = true
  | .spawn pid _ => w.host.running pid = none
  | .exit pid => (w.host.running pid).isSome ∧ ∀ i, w.alive i = true → (P.launch i).pid ≠ pid
  | .call c bases => w.cleanups c = .next [] ∧ ∀ base ∈ bases, (w.dir.port base).isSome
  | .cleanup c sight => w.cleanups c ≠ .next [] ∧ P.Truthful w sight (w.cleanups c)

/-- The process with a pid is gone. -/
def ended (pid : ℕ) (host : Host) : Host := { host with running := Function.update host.running pid none }

def started (pid startedAt : ℕ) (host : Host) : Host :=
  { host with running := Function.update host.running pid (some startedAt) }

def died (i : ι) (w : World ι κ) : World ι κ :=
  { w with alive := Function.update w.alive i false, host := ended (P.launch i).pid w.host }

def next (w : World ι κ) : Label ι κ → World ι κ
  | .launch i =>
    { w with
      stage := Function.update w.stage i .bound
      alive := Function.update w.alive i true
      host := started (P.launch i).pid (P.launch i).startedAt w.host }
  | .server i readyAt restore =>
    match (P.launch i).advance P.windows readyAt restore w.dir (w.stage i) with
    | some (dir, stage) => { w with dir, stage := Function.update w.stage i stage }
    | none => P.died i w
  | .die i => P.died i w
  | .spawn pid startedAt => { w with host := started pid startedAt w.host }
  | .exit pid => { w with host := ended pid w.host }
  | .call c bases => { w with cleanups := Function.update w.cleanups c (.next bases) }
  | .cleanup c sight =>
    let (dir, cleanup) := (w.cleanups c).step w.host (P.exe c) sight w.dir
    { w with dir, cleanups := Function.update w.cleanups c cleanup }

/-- Servers and cleanups in any order. -/
def system : System (World ι κ) (Label ι κ) where
  init := P.start
  enabled := P.enabled
  next := P.next

-- runs of concrete settings are checked step by step

section Decide
variable [Fintype ι] (w : World ι κ)

instance decidableAnswers (port : ℕ) (key : Text) : Decidable (P.Answers w port key) :=
  inferInstanceAs (Decidable (∃ j, w.alive j = true ∧ (w.stage j).accepts = true ∧
    (P.launch j).port = port ∧ (P.launch j).key = key))

instance decidableListens (port : ℕ) : Decidable (P.Listens w port) :=
  inferInstanceAs (Decidable (∃ j, w.alive j = true ∧ (P.launch j).port = port))

instance decidableTruthful (sight : Sight) : ∀ pc, Decidable (P.Truthful w sight pc)
  | .busy _ (.probe _ port key) =>
    inferInstanceAs (Decidable (sight.answered = true ↔ P.Answers w port key))
  | .busy _ (.probeOpen _ port) => inferInstanceAs (Decidable (P.Listens w port → sight.opened = true))
  | .next _ | .busy _ .checkStartup | .busy _ .checkAlive | .busy _ .legacyRecent | .busy _ .legacyExists
  | .busy _ (.readPort _) | .busy _ (.readKey _ _) | .busy _ .removePort | .busy _ .removeKey
  | .busy _ .removeRegistry | .busy _ .removeTmp => .isTrue trivial

instance decidableDone : ∀ pc : Cleanup, Decidable (pc = .next [])
  | .next [] => .isTrue rfl
  | .next (_ :: _) | .busy _ _ => .isFalse nofun

instance decidableEnabled (l : Label ι κ) : Decidable (P.enabled w l) :=
  match l with
  | .launch i => inferInstanceAs (Decidable (w.stage i = .unborn ∧
      w.host.running (P.launch i).pid = none ∧ ¬ P.Listens w (P.launch i).port))
  | .server i _ _ | .die i => inferInstanceAs (Decidable (w.alive i = true))
  | .spawn pid _ => inferInstanceAs (Decidable (w.host.running pid = none))
  | .exit pid => inferInstanceAs (Decidable ((w.host.running pid).isSome ∧
      ∀ i, w.alive i = true → (P.launch i).pid ≠ pid))
  | .call c bases => inferInstanceAs (Decidable (w.cleanups c = .next [] ∧
      ∀ base ∈ bases, (w.dir.port base).isSome))
  | .cleanup c sight => inferInstanceAs (Decidable (w.cleanups c ≠ .next [] ∧
      P.Truthful w sight (w.cleanups c)))

instance (l : Label ι κ) : Decidable (P.system.enabled w l) := P.decidableEnabled w l

end Decide

end Setting
end Winsmux.Stale
