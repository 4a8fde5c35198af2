import Winsmux.Ledger.Runs

/-!
# The explain view of a run

One run in full: its panes, the inbox items and events that belong to it, and the
newest verdicts its events carry. The view matches panes, items and events against the
digest entry of the run, by predicates of its own.
-/
namespace Winsmux.Ledger
open Json

/-- `event_data_value`: a member, `null` where it is missing. -/
def eventDataValue (data : Value) (key : String) : Value := (data.get (utf8 key)).getD .null

/-- `value_field_string`: a member that is a string, blank or not. -/
def valueFieldString (value : Value) (key : String) : Text :=
  ((value.get (utf8 key)).bind Value.asStr).getD []

def firstNonNullValue (values : List Value) : Value :=
  (values.find? fun v => !v.isNull).getD .null

def firstNonEmpty (primary fallback : Text) : Text := if isBlank primary then fallback else primary

def paneMatchesDigestItem (pane : Pane) (item : DigestItem) : Bool :=
  runIdFromPane pane = item.runId ||
    !isBlank pane.taskId && pane.taskId = item.taskId ||
    !isBlank pane.branch && pane.branch = item.branch ||
    !isBlank pane.headSha && pane.headSha = item.headSha ||
    !isBlank pane.label && pane.label = item.label ||
    !isBlank pane.paneId && pane.paneId = item.paneId

def inboxItemMatchesDigestItem (item : InboxItem) (digest : DigestItem) : Bool :=
  if !isBlank item.taskId then !isBlank digest.taskId && item.taskId = digest.taskId
  else
    !isBlank item.branch && item.branch = digest.branch ||
      !isBlank item.headSha && item.headSha = digest.headSha ||
      !isBlank item.label && item.label = digest.label ||
      !isBlank item.paneId && item.paneId = digest.paneId

def inboxItemMatchesExplainRun (item : InboxItem) (digest : DigestItem) (panes : List Pane) :
    Bool :=
  if inboxItemMatchesDigestItem item digest then true
  else if !isBlank item.taskId then false
  else
    panes.any fun pane =>
      !isBlank item.paneId && item.paneId = pane.paneId ||
        !isBlank item.label && item.label = pane.label

def eventMatchesDigestItem (event : EventRecord) (digest : DigestItem) : Bool :=
  let eventRunId := eventDataString event.data "run_id"
  let eventTaskId := eventDataString event.data "task_id"
  if !isBlank eventRunId then eventRunId = digest.runId
  else if !isBlank eventTaskId then !isBlank digest.taskId && eventTaskId = digest.taskId
  else if !isBlank event.paneId then event.paneId = digest.paneId
  else if !isBlank event.label then event.label = digest.label
  else if !isBlank (eventBranch event) && !isBlank digest.branch then
    eventBranch event = digest.branch
  else !isBlank (eventHeadSha event) && eventHeadSha event = digest.headSha

def eventMatchesExplainRun (event : EventRecord) (digest : DigestItem) (panes : List Pane) :
    Bool :=
  if eventMatchesDigestItem event digest then true
  else if !isBlank (eventDataString event.data "task_id") ||
      !isBlank (eventDataString event.data "run_id") then false
  else
    panes.any fun pane =>
      !isBlank event.paneId && event.paneId = pane.paneId ||
        !isBlank event.label && event.label = pane.label

structure ExplainActionItem where
  kind : InboxKind
  message : Text
  event : Text
  timestamp : Text
  source : InboxSource
  deriving DecidableEq

def explainActionItemFromInbox (item : InboxItem) : ExplainActionItem :=
  ⟨item.kind, item.message, item.event, item.timestamp, item.source⟩

/-- Texts that are not blank, each once, in order. -/
def uniqueSorted (values : List Text) : List Text :=
  (values.filter fun v => !isBlank v).dedup.insertionSort fun a b => rank a ≤ rank b

/-- The member of the newest verification event that tells how it was verified. -/
def verificationEvidenceField (data : Value) (key : String) : Value :=
  let nested (container : String) : Option Value :=
    (data.get (utf8 container)).bind fun v => v.get (utf8 key)
  ((nested "verification_evidence").or <| (nested "verification_result").or <|
    nested "verification_contract").getD (eventDataValue data key)

/-- The parts of `verification_evidence_value` that the gates read. -/
structure VerificationEvidence where
  contextMode : Text
  contextForkReason : Text
  deriving DecidableEq

def verificationEvidenceValue (data : Value) : Option VerificationEvidence :=
  if data.isObject then
    some
      { contextMode := ((verificationEvidenceField data "context_mode").asStr).getD []
        contextForkReason := ((verificationEvidenceField data "context_fork_reason").asStr).getD [] }
  else none

def verificationEvidenceFromEventRecords (events : List (ℕ × EventRecord)) :
    Option VerificationEvidence :=
  ((events.filter fun e => isVerificationEvent e.2.event).map fun e =>
    verificationEvidenceValue e.2.data).findSome? id

/-- `event_data_string_list_option`: a list of texts, or one text with its parts between bars. -/
def eventDataStringList (data : Value) (key : String) : Option (List Text) :=
  match data.get (utf8 key) with
  | some (.arr items) => some ((items.filterMap Value.asStr).filter fun t => !isBlank t)
  | some (.str t) => some (((t.splitOn 0x7c).map trim).filter fun part => part ≠ [])
  | _ => none

/-- What the events of a run say of its experiment, the newest that says anything first. -/
structure ExperimentPacket where
  hypothesis : Text
  testPlan : List Text
  result : Text
  confidence : Option Text
  nextAction : Text
  observationPackRef : Text
  consultationRef : Text
  runId : Text
  slot : Text
  branch : Text
  worktree : Text
  envFingerprint : Text
  commandHash : Text
  deriving DecidableEq

namespace ExperimentPacket

def empty : ExperimentPacket := ⟨[], [], [], none, [], [], [], [], [], [], [], [], []⟩

def addEvent (packet : ExperimentPacket) (event : EventRecord) : ExperimentPacket :=
  let orEvent (target : Text) (key : String) : Text := setIfEmpty target (eventDataString event.data key)
  { hypothesis := orEvent packet.hypothesis "hypothesis"
    testPlan :=
      if packet.testPlan = [] then (eventDataStringList event.data "test_plan").getD []
      else packet.testPlan
    result := orEvent packet.result "result"
    confidence := packet.confidence.or (eventDataNumber event.data "confidence")
    nextAction := orEvent packet.nextAction "next_action"
    observationPackRef := orEvent packet.observationPackRef "observation_pack_ref"
    consultationRef := orEvent packet.consultationRef "consultation_ref"
    runId := orEvent packet.runId "run_id"
    slot := orEvent packet.slot "slot"
    branch := setIfEmpty packet.branch (eventBranch event)
    worktree := orEvent packet.worktree "worktree"
    envFingerprint := orEvent packet.envFingerprint "env_fingerprint"
    commandHash := orEvent packet.commandHash "command_hash" }

end ExperimentPacket

def explainExperimentPacket (events : List EventRecord) (digest : DigestItem) : ExperimentPacket :=
  let packet := events.foldl ExperimentPacket.addEvent .empty
  { packet with
    hypothesis := firstNonEmpty packet.hypothesis digest.hypothesis
    confidence := packet.confidence.or digest.confidence
    nextAction := firstNonEmpty packet.nextAction digest.nextAction
    observationPackRef := firstNonEmpty packet.observationPackRef digest.observationPackRef
    consultationRef := firstNonEmpty packet.consultationRef digest.consultationRef
    branch := firstNonEmpty packet.branch digest.branch }

/-- What an event says about the security of its run, under either name. -/
def eventSecurityVerdict (event : EventRecord) : Value :=
  firstNonNullValue
    [eventDataValue event.data "security_verdict", eventDataValue event.data "verdict"]

def eventVerificationResult (event : EventRecord) : Value :=
  eventDataValue event.data "verification_result"

def eventVerificationContract (event : EventRecord) : Value :=
  eventDataValue event.data "verification_contract"

/-- The first value that is there among the events. -/
def firstEventValue (events : List (ℕ × EventRecord)) (selector : EventRecord → Value) : Value :=
  firstNonNullValue (events.map fun e => selector e.2)

structure ExplainRun where
  runId : Text
  taskId : Text
  goal : Text
  task : Text
  taskType : Text
  state : Text
  taskState : Text
  reviewState : Text
  runState : RunState
  branch : Text
  headSha : Text
  worktree : Text
  primaryLabel : Text
  primaryPaneId : Text
  primaryRole : Text
  lastEvent : Text
  lastEventAt : Text
  paneCount : ℕ
  changedFileCount : ℕ
  labels : List Text
  paneIds : List Text
  roles : List Text
  providerTarget : Text
  verificationPlan : List Text
  reviewRequired : Bool
  actionItems : List ExplainActionItem
  experimentPacket : ExperimentPacket
  securityPolicy : Value
  securityVerdict : Value
  verificationContract : Value
  verificationResult : Value
  verificationEvidence : Option VerificationEvidence
  changedFiles : List Text

structure ExplainProjection where
  run : ExplainRun
  evidenceDigest : DigestItem
  /-- Newest first. -/
  recentEvents : List (ℕ × EventRecord)

section
variable (calendar : Calendar) (reader : JsonReader)

/-- A policy that is no document is taken as its own text. -/
def manifestSecurityPolicyValue (raw : Text) : Value :=
  if isBlank raw then .null else ((reader.parse raw).map Value.normal).getD (.str raw)

def explainPanes (s : Snapshot) (digest : DigestItem) : List Pane :=
  (s.panes.filter fun pane => paneMatchesDigestItem pane digest).insertionSort
    fun a b => rank a.label ≤ rank b.label

def explainInboxItems (s : Snapshot) (digest : DigestItem) : List InboxItem :=
  (inboxProjection calendar s).filter fun item =>
    inboxItemMatchesExplainRun item digest (explainPanes s digest)

def recentEvents (s : Snapshot) (digest : DigestItem) : List (ℕ × EventRecord) :=
  (s.numberedEvents.filter fun e =>
      eventMatchesExplainRun e.2 digest (explainPanes s digest)).insertionSort
    fun a b => eventOrder calendar b ≤ eventOrder calendar a

/-- A list of names, or the name the digest has where there is none. -/
def orDigest (values : List Text) (fallback : Text) : List Text :=
  if values = [] then [fallback] else values

/-- The run of a digest entry, led by its primary pane. -/
def explainRun (s : Snapshot) (digest : DigestItem) (primaryPane : Pane) : ExplainRun :=
  let panes := explainPanes s digest
  let events := recentEvents calendar s digest
  { runId := digest.runId
    taskId := digest.taskId
    goal := primaryPane.goal
    task := digest.task
    taskType := primaryPane.taskType
    state := primaryPane.state
    taskState := digest.taskState
    reviewState := digest.reviewState
    runState := digest.runState
    branch := digest.branch
    headSha := digest.headSha
    worktree := digest.worktree
    primaryLabel := primaryPane.label
    primaryPaneId := primaryPane.paneId
    primaryRole := primaryPane.role
    lastEvent := digest.lastEvent
    lastEventAt := digest.lastEventAt
    paneCount := panes.length
    changedFileCount := digest.changedFileCount
    labels := orDigest (uniqueSorted (panes.map Pane.label)) digest.label
    paneIds := orDigest (uniqueSorted (panes.map Pane.paneId)) digest.paneId
    roles := orDigest (uniqueSorted (panes.map Pane.role)) digest.role
    providerTarget := digest.providerTarget
    verificationPlan := primaryPane.verificationPlan
    reviewRequired := primaryPane.reviewRequired
    actionItems := (explainInboxItems calendar s digest).map explainActionItemFromInbox
    experimentPacket := explainExperimentPacket (events.map Prod.snd) digest
    securityPolicy := manifestSecurityPolicyValue reader primaryPane.securityPolicy
    securityVerdict := firstEventValue events eventSecurityVerdict
    verificationContract := firstEventValue events eventVerificationContract
    verificationResult := firstEventValue events eventVerificationResult
    verificationEvidence := verificationEvidenceFromEventRecords events
    changedFiles := digest.changedFiles }

def explainProjection (s : Snapshot) (runId : Text) : Option ExplainProjection := do
  let digest ← (digestProjection calendar s).find? fun item => item.runId = runId
  let primaryPane ← (explainPanes s digest).head?
  some
    { run := explainRun calendar reader s digest primaryPane
      evidenceDigest := digest
      recentEvents := recentEvents calendar s digest }

end

end Winsmux.Ledger
