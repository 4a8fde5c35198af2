import Winsmux.HostProfile.KnownHosts
import Winsmux.Transition

/-!
# Host trust

A record for each alias, in a file that is named by the alias. `check` makes a record and
compares it with what the computer reports, `register` confirms the one key that it finds.
-/
namespace Winsmux.HostProfile
open Json Transition

inductive TrustState where
  | pending
  | registered
  | blocked
  deriving DecidableEq

structure HostProfileRecord where
  aliasName : Text
  hostname : Text
  port : ℕ
  user : Text
  proxyjump : Option Text
  confirmedFingerprint : Option Text
  state : TrustState

/-- What a command reports: the record, and the fingerprint that `check` was presented. -/
structure Report where
  record : HostProfileRecord
  presented : Option Text

def validateAlias (aliasName : Text) : Bool :=
  match aliasName with
  | [] => false
  | first :: rest => alphanumeric first && rest.all fun c => alphanumeric c || c = 0x2e || c = 0x5f || c = 0x2d
where
  alphanumeric (c : UInt8) : Bool :=
    0x30 ≤ c && c ≤ 0x39 || 0x41 ≤ c && c ≤ 0x5a || 0x61 ≤ c && c ≤ 0x7a

def nextState (record : HostProfileRecord) (presented : PresentedFingerprint) : TrustState :=
  match record.state, record.confirmedFingerprint, presented with
  | _, _, .revoked => .blocked
  | _, some _, .ambiguous => .blocked
  | state, some confirmed, .unique presented =>
    if confirmed ≠ presented then .blocked
    else
      match state with
      | .blocked => .blocked
      | .registered => .registered
      | .pending => .pending
  | .blocked, _, _ => .blocked
  | .registered, some _, .none => .registered
  | _, _, _ => .pending

namespace HostProfileRecord

/-- The record with the endpoint that the alias resolves to. -/
def withEndpoint (record : HostProfileRecord) (resolved : ResolvedHost) : HostProfileRecord :=
  { record with
    hostname := resolved.hostname
    port := resolved.port
    user := resolved.user
    proxyjump := resolved.proxyjump }

def block (record : HostProfileRecord) : HostProfileRecord := { record with state := .blocked }

/-- The alias of a confirmed record resolves to another host or port. -/
def retargeted (record : HostProfileRecord) (resolved : ResolvedHost) : Bool :=
  record.confirmedFingerprint.isSome && (record.hostname ≠ resolved.hostname || record.port ≠ resolved.port)

/-- The record of an alias that has none. -/
def fresh (aliasName : Text) (resolved : ResolvedHost) : HostProfileRecord :=
  ⟨aliasName, resolved.hostname, resolved.port, resolved.user, resolved.proxyjump, none, .pending⟩

end HostProfileRecord

def PresentedFingerprint.unique? : PresentedFingerprint → Option Text
  | .unique fingerprint => some fingerprint
  | _ => Option.none

section Commands
variable (sha256 : Text → Text)

/-- What a command answers, and the record it leaves in the file; `none` leaves the file. -/
abbrev Answer := Except HostProfileError Report × Option HostProfileRecord

def checkAlias (aliasName : Text) (env : Env) (stored : Option HostProfileRecord) : Answer :=
  match resolveSshG aliasName env.ssh with
  | .error e => (.error e, none)
  | .ok (_, resolved) =>
    let record := stored.getD (.fresh aliasName resolved)
    match knownHostsFingerprint sha256 env resolved record.confirmedFingerprint with
    | .error e => (.error e, none)
    | .ok presented =>
      if record.retargeted resolved then (.ok ⟨record.block, none⟩, some record.block)
      else
        let record := record.withEndpoint resolved
        let record := { record with state := nextState record presented }
        (.ok ⟨record, presented.unique?⟩, some record)

/-- `register` with a key: the record is confirmed, or the key is not the confirmed one. -/
def registerKey (resolved : ResolvedHost) (presented : Text) (record : HostProfileRecord) : Answer :=
  if nextState record (.unique presented) = .blocked ∨
      record.confirmedFingerprint.isSome ∧ record.confirmedFingerprint ≠ some presented then
    (.error .fingerprintChanged, some record.block)
  else if record.state = .registered ∧ record.confirmedFingerprint = some presented then
    (.ok ⟨record, none⟩, none)
  else
    let record :=
      { record.withEndpoint resolved with confirmedFingerprint := some presented, state := .registered }
    (.ok ⟨record, none⟩, some record)

def registerAlias (aliasName : Text) (env : Env) (stored : Option HostProfileRecord) : Answer :=
  match resolveSshG aliasName env.ssh with
  | .error e => (.error e, none)
  | .ok (_, resolved) =>
    match stored with
    | none => (.error .noPendingRecord, none)
    | some record =>
      if record.retargeted resolved then (.error .endpointChanged, some record.block)
      else
        match knownHostsFingerprint sha256 env resolved record.confirmedFingerprint with
        | .error e => (.error e, none)
        | .ok .ambiguous | .ok .revoked =>
          (.error .ambiguousOrRevoked, if record.confirmedFingerprint.isSome then some record.block else none)
        | .ok .none => (.error .noKey, none)
        | .ok (.unique presented) => registerKey resolved presented record

inductive Action where
  | check
  | register
  deriving DecidableEq

structure HostCommand where
  action : Action
  aliasName : Text
  /-- What the computer is like while the command runs. -/
  env : Env

def HostCommand.answer (cmd : HostCommand) (stored : Option HostProfileRecord) : Answer :=
  if validateAlias cmd.aliasName then
    match cmd.action with
    | .check => checkAlias sha256 cmd.aliasName cmd.env stored
    | .register => registerAlias sha256 cmd.aliasName cmd.env stored
  else (.error .invalidAlias, none)

/-- Windows takes names that differ in case for one. -/
def fileName (windows : Bool) (aliasName : Text) : Text :=
  (if windows then toAsciiLowercase aliasName else aliasName) ++ utf8 ".json"

/-- A command that ran, and whether it succeeded. -/
structure Done where
  action : Action
  aliasName : Text
  ok : Bool

structure Profiles where
  records : Text → Option HostProfileRecord
  done : List Done

def isRegisteredAlias (windows : Bool) (aliasName : Text) (w : Profiles) : Except HostProfileError Bool :=
  if validateAlias aliasName then
    .ok ((w.records (fileName windows aliasName)).any (·.state = .registered))
  else .error .invalidAlias

namespace Profiles

def next (windows : Bool) (w : Profiles) (cmd : HostCommand) : Profiles :=
  let name := fileName windows cmd.aliasName
  let (result, saved) := cmd.answer sha256 (w.records name)
  { records := fun n => if n = name then saved.or (w.records n) else w.records n
    done := ⟨cmd.action, cmd.aliasName, result.isOk⟩ :: w.done }

end Profiles

/-- Commands one after another, from no records. -/
def machine (windows : Bool) : System Profiles HostCommand where
  init := ⟨fun _ => none, []⟩
  enabled _ _ := True
  next := Profiles.next sha256 windows

end Commands
end Winsmux.HostProfile
