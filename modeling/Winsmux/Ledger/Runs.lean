import Mathlib
import Winsmux.Decimal
import Winsmux.Ledger.EventContract

/-!
# Runs of a ledger snapshot

A snapshot holds the panes of the manifest and the event log. Panes are grouped into
runs by task, branch or pane; the inbox lists what waits for somebody, each item goes
to the first run it matches, and the events of a run set its verdicts.
-/
namespace Winsmux.Ledger
open Json

/-- A pane of the manifest, normalised and validated. -/
structure Pane where
  label : Text
  paneId : Text
  role : Text
  state : Text
  taskId : Text
  goal : Text
  task : Text
  taskType : Text
  taskState : Text
  reviewState : Text
  branch : Text
  securityPolicy : Text
  worktree : Text
  headSha : Text
  changedFileCount : ℕ
  changedFiles : List Text
  verificationPlan : List Text
  reviewRequired : Bool
  providerTarget : Text
  lastEvent : Text
  lastEventAt : Text
  paneId_present : isBlank paneId = false
  role_present : isBlank role = false
  review_located : isBlank reviewState = false → isBlank branch = false ∧ isBlank headSha = false
  changes_listed : 0 < changedFileCount → changedFiles ≠ []
  event_dated : isBlank lastEvent = false → isBlank lastEventAt = false
  planned : isBlank goal = isBlank taskType

/-- What `from_manifest_and_events` has checked: pane ids are distinct, every event has a
time and a name, and no event belongs to another session. -/
structure Snapshot where
  sessionName : Text
  panes : List Pane
  events : List EventRecord
  panes_distinct : (panes.map fun pane => trim pane.paneId).Nodup
  events_named : ∀ e ∈ events, isBlank e.timestamp = false ∧ isBlank e.event = false
  events_session : ∀ e ∈ events,
    isBlank sessionName ∨ isBlank e.session ∨ e.session = sessionName

/-- The calendar: the key that orders timestamps and the text they are shown as. -/
structure Calendar where
  sortKey : Text → Text
  text : Text → Text

/-- `event_data_string`: the text of a member, empty where it is missing or blank. -/
def eventDataString (data : Value) (key : String) : Text :=
  (((data.get (utf8 key)).bind Value.asStr).filter fun t => !isBlank t).getD []

def eventDataNestedString (data : Value) (objectKey valueKey : String) : Text :=
  ((data.get (utf8 objectKey)).map fun v => eventDataString v valueKey).getD []

def firstNonEmptyString (values : List Text) : Text :=
  (values.find? fun t => !isBlank t).getD []

def eventBranch (event : EventRecord) : Text :=
  if isBlank event.branch then eventDataString event.data "branch" else event.branch

def eventHeadSha (event : EventRecord) : Text :=
  if isBlank event.headSha then eventDataString event.data "head_sha" else event.headSha

def setIfEmpty (target value : Text) : Text :=
  if isBlank target && !isBlank value then value else target

def insertNonEmpty (values : List Text) (value : Text) : List Text :=
  if isBlank value then values else values.insert value

def addUniqueString (target values : List Text) : List Text :=
  values.foldl (fun acc v => if !isBlank v && !acc.contains v then acc ++ [v] else acc) target

/-- `set_if_present`: a value that is not blank replaces the old one. -/
def setIfPresent (target value : Text) : Text := if isBlank value then target else value

def contains (t part : Text) : Bool := t.tails.any part.isPrefixOf

/-- Digits with at most one point among or beside them. -/
def isDecimalText (t : Text) : Bool :=
  let whole := t.takeWhile isDigit
  match t.dropWhile isDigit with
  | [] => whole ≠ []
  | c :: fraction => c = 0x2e && fraction.all isDigit && (whole ≠ [] || fraction ≠ [])

def dropSign : Text → Text
  | c :: t => if c = 0x2b || c = 0x2d then t else c :: t
  | [] => []

/-- A text that a float is read from. -/
def isFloatText (t : Text) : Bool :=
  let body := dropSign t
  let mantissa := body.takeWhile fun c => c ≠ 0x65 && c ≠ 0x45
  ["inf", "infinity", "nan"].any (fun word => eqIgnoreAsciiCase body (utf8 word)) ||
    isDecimalText mantissa &&
      match body.drop mantissa.length with
      | [] => true
      | _ :: exponent => dropSign exponent ≠ [] && (dropSign exponent).all isDigit

/-- `event_data_f64`: a number, as the text it is written with. -/
def eventDataNumber (data : Value) (key : String) : Option Text :=
  match data.get (utf8 key) with
  | some (.num n) => some (decimal n)
  | some (.number literal) => some literal
  | some (.str t) => if isFloatText t then some t else none
  | _ => none

structure RunState where
  phase : Text
  activity : Text
  detail : Text
  deriving DecidableEq

def runState (phase activity : String) (detail : Text) : RunState := ⟨utf8 phase, utf8 activity, detail⟩

/-- `run_state_model`: what a run is doing, from the most telling of its states. -/
def runStateModel (state taskState reviewState eventKind lastEvent : Text) : RunState :=
  let state := toAsciiLowercase state
  let task := toAsciiLowercase taskState
  let kind := toAsciiLowercase eventKind
  let event := toAsciiLowercase lastEvent
  let among (t : Text) (words : List String) : Bool := words.any fun word => t = utf8 word
  let reviewed (word : String) : Bool := eqIgnoreAsciiCase reviewState (utf8 word)
  let kindOr (fallback : Text) : Text := if kind = [] then fallback else kind
  if among kind ["commit_ready", "task_completed"] ||
      among task ["completed", "task_completed", "done", "commit_ready"] then
    runState "package" "completed" (kindOr (utf8 "task_completed"))
  else if among kind ["needs_user_decision", "draft_pr_required"] ||
      event = utf8 "operator.draft_pr.required" then
    runState "package" "waiting_for_input" (utf8 "needs_user_decision")
  else if reviewed "FAIL" || reviewed "FAILED" || kind = utf8 "review_failed" then
    runState "review" "blocked" (utf8 "review_failed")
  else if reviewed "PENDING" || among kind ["review_pending", "review_requested"] then
    runState "review" "waiting_for_input"
      (if kind = utf8 "review_requested" then utf8 "review_requested" else utf8 "review_pending")
  else if reviewed "PASS" then
    runState "package" "waiting_for_input" (utf8 "needs_user_decision")
  else if task = utf8 "blocked" || among kind ["blocked", "task_blocked"] ||
      contains event (utf8 "blocked") then
    runState "build" "blocked" (kindOr (utf8 "task_blocked"))
  else if among state ["offline", "crashed", "hung", "bootstrap_invalid"] ||
      among kind ["crashed", "hung", "bootstrap_invalid"] then
    runState "build" "offline" (kindOr state)
  else if task = utf8 "backlog" || kind = utf8 "dispatch_needed" || state = utf8 "idle" then
    runState "brainstorm" "waiting_for_input" (kindOr (if task = [] then utf8 "idle" else task))
  else if task ≠ [] then runState "build" "running" task
  else if state ≠ [] then
    runState "build" (if state = utf8 "busy" then "running" else "waiting_for_input") state
  else runState "build" "running" (utf8 "in_progress")

/-- The state of a pane by the manifest alone. -/
def Pane.runState (pane : Pane) : RunState :=
  runStateModel pane.state pane.taskState pane.reviewState [] pane.lastEvent

inductive InboxKind where
  | reviewPending
  | reviewFailed
  | taskBlocked
  | approvalWaiting
  | dispatchNeeded
  | taskCompleted
  | bootstrapInvalid
  | crashed
  | hung
  | stalled
  | blocked
  | commitReady
  | reviewRequested
  | needsUserDecision
  deriving DecidableEq

def InboxKind.name : InboxKind → String
  | .reviewPending => "review_pending"
  | .reviewFailed => "review_failed"
  | .taskBlocked => "task_blocked"
  | .approvalWaiting => "approval_waiting"
  | .dispatchNeeded => "dispatch_needed"
  | .taskCompleted => "task_completed"
  | .bootstrapInvalid => "bootstrap_invalid"
  | .crashed => "crashed"
  | .hung => "hung"
  | .stalled => "stalled"
  | .blocked => "blocked"
  | .commitReady => "commit_ready"
  | .reviewRequested => "review_requested"
  | .needsUserDecision => "needs_user_decision"

def InboxKind.text (kind : InboxKind) : Text := utf8 kind.name

def inboxPriority : InboxKind → ℕ
  | .blocked | .taskBlocked | .reviewFailed | .bootstrapInvalid | .crashed | .hung | .stalled => 0
  | .approvalWaiting | .needsUserDecision | .reviewRequested | .reviewPending => 1
  | .dispatchNeeded | .taskCompleted | .commitReady => 2

inductive InboxSource where
  | manifest
  | events
  deriving DecidableEq

def inboxSourceRank : InboxSource → ℕ
  | .manifest => 0
  | .events => 1

structure InboxItem where
  kind : InboxKind
  message : Text
  label : Text
  paneId : Text
  role : Text
  taskId : Text
  task : Text
  taskState : Text
  reviewState : Text
  runState : RunState
  branch : Text
  headSha : Text
  changedFileCount : ℕ
  event : Text
  timestamp : Text
  source : InboxSource
  deriving DecidableEq

def paneKeyBase (paneId label : Text) : Text := if isBlank paneId then label else paneId

def InboxItem.fromManifestPane (kind : InboxKind) (message : Text) (pane : Pane) : InboxItem :=
  { kind := kind
    message := message
    label := pane.label
    paneId := pane.paneId
    role := pane.role
    taskId := pane.taskId
    task := pane.task
    taskState := pane.taskState
    reviewState := pane.reviewState
    runState := runStateModel pane.state pane.taskState pane.reviewState kind.text pane.lastEvent
    branch := pane.branch
    headSha := pane.headSha
    changedFileCount := pane.changedFileCount
    event := pane.lastEvent
    timestamp := pane.lastEventAt
    source := .manifest }

/-- `fail` or `failed`, in any letter case. -/
def isReviewFailed (reviewState : Text) : Bool :=
  eqIgnoreAsciiCase reviewState (utf8 "fail") || eqIgnoreAsciiCase reviewState (utf8 "failed")

/-- The items that the manifest alone gives a pane, by key. -/
def manifestItems (pane : Pane) : List (Text × InboxItem) :=
  let item (kind : InboxKind) (message : String) : Text × InboxItem :=
    (utf8 "manifest:" ++ kind.text ++ utf8 ":" ++ paneKeyBase pane.paneId pane.label,
      .fromManifestPane kind (pane.label ++ utf8 message) pane)
  (if eqIgnoreAsciiCase pane.reviewState (utf8 "pending") then
      [item .reviewPending " が review 待機中。"] else []) ++
    (if isReviewFailed pane.reviewState then [item .reviewFailed " の review が FAIL。"] else []) ++
    (if eqIgnoreAsciiCase pane.taskState (utf8 "blocked") then
      [item .taskBlocked " が blocked。"] else [])

/-- The state that a state transition of the operator asks somebody to act on. -/
def transitionKind (status : Text) : Option InboxKind :=
  if status = utf8 "blocked_no_review_target" then some .blocked
  else if status = utf8 "blocked_review_failed" then some .reviewFailed
  else if status = utf8 "commit_ready" then some .commitReady
  else none

def inboxActionableEventKind (event : EventRecord) : Option InboxKind :=
  let dataStatus := eventDataString event.data "status"
  let transition :=
    if event.event = utf8 "operator.state_transition" then
      (transitionKind event.status).or (transitionKind dataStatus)
    else none
  if event.event = utf8 "approval_waiting" ∨ event.event = utf8 "pane.approval_waiting" ∨
      event.status = utf8 "approval_waiting" ∨
      event.event = utf8 "monitor.status" ∧ dataStatus = utf8 "approval_waiting" then
    some .approvalWaiting
  else if event.event = utf8 "pane.idle" then some .dispatchNeeded
  else if event.event = utf8 "pane.completed" then some .taskCompleted
  else if event.event = utf8 "pane.bootstrap_invalid" then some .bootstrapInvalid
  else if event.event = utf8 "pane.crashed" then some .crashed
  else if event.event = utf8 "pane.hung" then some .hung
  else if event.event = utf8 "pane.stalled" then some .stalled
  else if event.event = utf8 "operator.state_transition" then transition
  else if event.event = utf8 "operator.review_requested" then some .reviewRequested
  else if event.event = utf8 "operator.review_failed" then some .reviewFailed
  else if event.event = utf8 "operator.blocked" then some .blocked
  else if event.event = utf8 "operator.commit_ready" then some .commitReady
  else if event.event = utf8 "operator.draft_pr.required" then some .needsUserDecision
  else if event.event = utf8 "pipeline.security.blocked" ∨
      event.event = utf8 "security.policy.blocked" then some .blocked
  else none

def InboxItem.fromEvent (event : EventRecord) : Option InboxItem :=
  (inboxActionableEventKind event).map fun kind =>
    let status := if isBlank event.status then eventDataString event.data "to" else event.status
    let eventLabel := if isBlank status then event.event else status
    { kind := kind
      message := event.message
      label := event.label
      paneId := event.paneId
      role := event.role
      taskId := eventDataString event.data "task_id"
      task := []
      taskState := []
      reviewState := []
      runState := runStateModel [] [] [] kind.text eventLabel
      branch := eventBranch event
      headSha := eventHeadSha event
      changedFileCount := 0
      event := eventLabel
      timestamp := event.timestamp
      source := .events }

def inboxEventEntityKey (event : EventRecord) : Text :=
  if (utf8 "operator.").isPrefixOf event.event then utf8 "operator"
  else if !isBlank event.paneId then utf8 "pane:" ++ event.paneId
  else if !isBlank event.label then utf8 "label:" ++ event.label
  else utf8 "event:" ++ event.event

/-- A newer event takes the place of the older one with its key. -/
def putLatest (key : Text) (event : EventRecord) :
    List (Text × EventRecord) → List (Text × EventRecord)
  | [] => [(key, event)]
  | (k, e) :: rest => if k = key then (k, event) :: rest else (k, e) :: putLatest key event rest

/-- The latest event of each entity, entities in the order they were first seen. -/
def inboxActiveEvents (events : List EventRecord) : List EventRecord :=
  (events.foldl (fun acc e => putLatest (inboxEventEntityKey e) e acc) []).map Prod.snd

section
variable (calendar : Calendar)

/-- Urgent items first, the manifest's before the events', newer before older. -/
def inboxOrder (item : InboxItem) : ℕ ×ₗ ℕ ×ₗ (List ℕ)ᵒᵈ ×ₗ List ℕ :=
  toLex (inboxPriority item.kind, toLex (inboxSourceRank item.source,
    toLex (OrderDual.toDual (rank (calendar.sortKey item.timestamp)), rank item.label)))

def eventItems (events : List EventRecord) : List (Text × InboxItem) :=
  ((inboxActiveEvents events).filterMap InboxItem.fromEvent).map fun item =>
    (utf8 "events:" ++ item.kind.text ++ utf8 ":" ++ paneKeyBase item.paneId item.label, item)

/-- The inbox: one item a key, in `inboxOrder`. -/
def inboxProjection (s : Snapshot) : List InboxItem :=
  let itemsByKey := (s.panes.flatMap manifestItems ++ eventItems s.events).foldl
    (fun acc entry => insertKey entry.1 entry.2 acc) []
  (itemsByKey.map Prod.snd).insertionSort fun a b => inboxOrder calendar a ≤ inboxOrder calendar b

end

inductive VerdictKind where
  | verification
  | security
  | monitoring
  deriving DecidableEq

structure VerdictSummary where
  verdict : Text
  summary : Text
  event : Text
  timestamp : Text
  deriving DecidableEq

def emptyVerdictSummary : VerdictSummary := ⟨[], [], [], []⟩

def isVerificationEvent (name : Text) : Bool :=
  name = utf8 "pipeline.verify.pass" || name = utf8 "pipeline.verify.fail" ||
    name = utf8 "pipeline.verify.partial"

def isSecurityEvent (name : Text) : Bool :=
  name = utf8 "pipeline.security.blocked" || name = utf8 "security.policy.blocked" ||
    name = utf8 "pipeline.security.allowed" || name = utf8 "security.policy.allowed"

def isMonitoringEvent (name : Text) : Bool := name = utf8 "monitor.status"

def verificationEventDefaultVerdict (name : Text) : Text :=
  if name = utf8 "pipeline.verify.pass" then utf8 "PASS"
  else if name = utf8 "pipeline.verify.fail" then utf8 "FAIL"
  else if name = utf8 "pipeline.verify.partial" then utf8 "PARTIAL"
  else []

def securityEventDefaultVerdict (name : Text) : Text :=
  if name = utf8 "pipeline.security.allowed" ∨ name = utf8 "security.policy.allowed" then
    utf8 "ALLOW"
  else if name = utf8 "pipeline.security.blocked" ∨ name = utf8 "security.policy.blocked" then
    utf8 "BLOCK"
  else []

/-- A status that is one of the verdicts stands for it. -/
def eventStatusVerdict (verdicts : List String) (status : Text) : Text :=
  if status ∈ verdicts.map utf8 then status else []

def eventVerdict (kind : VerdictKind) (event : EventRecord) : Text :=
  match kind with
  | .verification => firstNonEmptyString
      [eventDataNestedString event.data "verification_result" "outcome",
        eventDataString event.data "verification_result", eventDataString event.data "outcome",
        verificationEventDefaultVerdict event.event,
        eventStatusVerdict ["PASS", "FAIL", "PARTIAL"] event.status]
  | .security => firstNonEmptyString
      [eventDataNestedString event.data "security_verdict" "verdict",
        eventDataString event.data "security_verdict", eventDataString event.data "verdict",
        securityEventDefaultVerdict event.event,
        eventStatusVerdict ["ALLOW", "BLOCK"] event.status]
  | .monitoring => firstNonEmptyString
      [eventDataString event.data "verdict", eventDataString event.data "status", event.status]

def eventVerdictSummary (kind : VerdictKind) (event : EventRecord) : Text :=
  match kind with
  | .verification => firstNonEmptyString
      [eventDataNestedString event.data "verification_result" "summary",
        eventDataString event.data "summary", event.message]
  | .security => firstNonEmptyString
      [eventDataNestedString event.data "security_verdict" "summary",
        eventDataNestedString event.data "security_verdict" "reason",
        eventDataString event.data "summary", eventDataString event.data "reason", event.message]
  | .monitoring => firstNonEmptyString [eventDataString event.data "summary", event.message]

def verdictSummaryFromEvent (kind : VerdictKind) (event : EventRecord) : Option VerdictSummary :=
  let verdict := eventVerdict kind event
  let summary := eventVerdictSummary kind event
  if isBlank verdict ∧ isBlank summary then none
  else some ⟨verdict, summary, event.event, event.timestamp⟩

def runIdFromPane (pane : Pane) : Text :=
  if !isBlank pane.taskId then utf8 "task:" ++ pane.taskId
  else if !isBlank pane.branch then utf8 "branch:" ++ pane.branch
  else if !isBlank pane.paneId then utf8 "pane:" ++ pane.paneId
  else utf8 "label:" ++ pane.label

/-- The first characters of a text. -/
def takeChars : ℕ → Text → Text
  | _, [] => []
  | n, c :: t =>
    -- a byte that goes on with a character stays with it
    if 0x80 ≤ c && c < 0xc0 then c :: takeChars n t
    else
      match n with
      | 0 => []
      | n + 1 => c :: takeChars n t

def shortHeadSha (headSha : Text) : Text := takeChars 7 headSha

structure DigestItem where
  runId : Text
  taskId : Text
  task : Text
  label : Text
  paneId : Text
  role : Text
  providerTarget : Text
  taskState : Text
  reviewState : Text
  runState : RunState
  nextAction : Text
  branch : Text
  worktree : Text
  headSha : Text
  headShort : Text
  changedFileCount : ℕ
  changedFiles : List Text
  actionItemCount : ℕ
  lastEvent : Text
  lastEventAt : Text
  verificationVerdictSummary : VerdictSummary
  securityVerdictSummary : VerdictSummary
  monitoringVerdictSummary : VerdictSummary
  verificationOutcome : Text
  securityBlocked : Text
  hypothesis : Text
  confidence : Option Text
  observationPackRef : Text
  consultationRef : Text
  deriving DecidableEq

/-- A run while the digest is put together. -/
structure DigestRun where
  item : DigestItem
  labels : List Text
  paneIds : List Text
  actionItems : List InboxItem
  deriving DecidableEq

namespace DigestRun

def addPane (run : DigestRun) (pane : Pane) : DigestRun :=
  { run with
    item := { run.item with
      changedFileCount := run.item.changedFileCount + pane.changedFileCount
      changedFiles := addUniqueString run.item.changedFiles pane.changedFiles
      taskId := setIfEmpty run.item.taskId pane.taskId
      task := setIfEmpty run.item.task pane.task
      label := setIfEmpty run.item.label pane.label
      paneId := setIfEmpty run.item.paneId pane.paneId
      role := setIfEmpty run.item.role pane.role
      providerTarget := setIfEmpty run.item.providerTarget pane.providerTarget
      taskState := setIfEmpty run.item.taskState pane.taskState
      reviewState := setIfEmpty run.item.reviewState pane.reviewState
      runState := ⟨setIfEmpty run.item.runState.phase pane.runState.phase,
        setIfEmpty run.item.runState.activity pane.runState.activity,
        setIfEmpty run.item.runState.detail pane.runState.detail⟩
      branch := setIfEmpty run.item.branch pane.branch
      worktree := setIfEmpty run.item.worktree pane.worktree
      headSha := setIfEmpty run.item.headSha pane.headSha
      headShort := shortHeadSha (setIfEmpty run.item.headSha pane.headSha)
      lastEvent := setIfEmpty run.item.lastEvent pane.lastEvent
      lastEventAt := setIfEmpty run.item.lastEventAt pane.lastEventAt }
    labels := insertNonEmpty run.labels pane.label
    paneIds := insertNonEmpty run.paneIds pane.paneId }

def fromPane (pane : Pane) : DigestRun :=
  addPane
    { item :=
        { runId := runIdFromPane pane
          taskId := pane.taskId
          task := pane.task
          label := pane.label
          paneId := pane.paneId
          role := pane.role
          providerTarget := pane.providerTarget
          taskState := pane.taskState
          reviewState := pane.reviewState
          runState := pane.runState
          nextAction := []
          branch := pane.branch
          worktree := pane.worktree
          headSha := pane.headSha
          headShort := shortHeadSha pane.headSha
          changedFileCount := 0
          changedFiles := []
          actionItemCount := 0
          lastEvent := pane.lastEvent
          lastEventAt := pane.lastEventAt
          verificationVerdictSummary := emptyVerdictSummary
          securityVerdictSummary := emptyVerdictSummary
          monitoringVerdictSummary := emptyVerdictSummary
          verificationOutcome := []
          securityBlocked := []
          hypothesis := []
          confidence := none
          observationPackRef := []
          consultationRef := [] }
      labels := []
      paneIds := []
      actionItems := [] }
    pane

def matchesInboxItem (run : DigestRun) (item : InboxItem) : Bool :=
  !isBlank item.taskId && item.taskId = run.item.taskId ||
    !isBlank item.branch && item.branch = run.item.branch ||
    !isBlank item.headSha && item.headSha = run.item.headSha ||
    !isBlank item.label && run.labels.contains item.label ||
    !isBlank item.paneId && run.paneIds.contains item.paneId

/-- The first thing an event says about its run decides. -/
def matchesEvent (run : DigestRun) (event : EventRecord) : Bool :=
  let eventRunId := eventDataString event.data "run_id"
  let eventTaskId := eventDataString event.data "task_id"
  if !isBlank eventRunId then eventRunId = run.item.runId
  else if !isBlank eventTaskId && !isBlank run.item.taskId then eventTaskId = run.item.taskId
  else if !isBlank event.paneId then run.paneIds.contains event.paneId
  else if !isBlank event.label then run.labels.contains event.label
  else if !isBlank eventTaskId || !isBlank run.item.taskId then false
  else
    !isBlank run.item.branch && run.item.branch = eventBranch event ||
      !isBlank run.item.headSha && run.item.headSha = eventHeadSha event

def applyVerification (run : DigestRun) (event : EventRecord) : DigestRun :=
  match verdictSummaryFromEvent .verification event with
  | some summary => { run with
      item := { run.item with
        verificationOutcome := summary.verdict
        verificationVerdictSummary := summary } }
  | none => run

def applySecurity (run : DigestRun) (event : EventRecord) : DigestRun :=
  match verdictSummaryFromEvent .security event with
  | some summary => { run with
      item := { run.item with
        securityBlocked := summary.verdict
        securityVerdictSummary := summary } }
  | none => run

def applyMonitoring (run : DigestRun) (event : EventRecord) : DigestRun :=
  match verdictSummaryFromEvent .monitoring event with
  | some summary => { run with item := { run.item with monitoringVerdictSummary := summary } }
  | none => run

/-- What an event says of its run beside a verdict. -/
def applyNotes (run : DigestRun) (event : EventRecord) : DigestRun :=
  { run with
    item := { run.item with
      worktree := setIfPresent run.item.worktree (eventDataString event.data "worktree")
      hypothesis := setIfPresent run.item.hypothesis (eventDataString event.data "hypothesis")
      observationPackRef := setIfPresent run.item.observationPackRef
        (eventDataString event.data "observation_pack_ref")
      consultationRef := setIfPresent run.item.consultationRef
        (eventDataString event.data "consultation_ref")
      confidence := (eventDataNumber event.data "confidence").or run.item.confidence } }

/-- The kinds of events are disjoint, so one of the three applies at most. -/
def applyVerdict (run : DigestRun) (event : EventRecord) : DigestRun :=
  if isVerificationEvent event.event then run.applyVerification event
  else if isSecurityEvent event.event then run.applySecurity event
  else if isMonitoringEvent event.event then run.applyMonitoring event
  else run

def applyEvent (run : DigestRun) (event : EventRecord) : DigestRun :=
  (run.applyNotes event).applyVerdict event

end DigestRun

/-- What a run waits for, most pressing first. -/
def nextActionOrder : List InboxKind :=
  [.approvalWaiting, .reviewFailed, .taskBlocked, .blocked, .needsUserDecision, .commitReady,
    .taskCompleted, .reviewPending, .dispatchNeeded]

def runNextAction (actionItems : List InboxItem) (reviewState taskState : Text) : Text :=
  match nextActionOrder.find? fun kind => actionItems.any fun item => item.kind = kind with
  | some kind => kind.text
  | none =>
    match actionItems with
    | item :: _ => item.kind.text
    | [] => if isBlank reviewState then taskState else reviewState

def DigestRun.intoItem (run : DigestRun) : DigestItem :=
  let nextAction := runNextAction run.actionItems run.item.reviewState run.item.taskState
  { run.item with
    nextAction := nextAction
    runState := runStateModel [] run.item.taskState run.item.reviewState nextAction run.item.lastEvent
    actionItemCount := run.actionItems.length }

/-- A pane joins the run of its id, or starts it. -/
def groupPane (runs : List (Text × DigestRun)) (pane : Pane) : List (Text × DigestRun) :=
  match runs.lookup (runIdFromPane pane) with
  | some run => insertKey (runIdFromPane pane) (run.addPane pane) runs
  | none => insertKey (runIdFromPane pane) (.fromPane pane) runs

/-- The runs of a snapshot before any item or event, by id. -/
def groupedRuns (panes : List Pane) : List DigestRun :=
  (panes.foldl groupPane []).map Prod.snd

/-- The first run an item matches gets it. -/
def assignItem : List DigestRun → InboxItem → List DigestRun
  | [], _ => []
  | run :: runs, item =>
    if run.matchesInboxItem item then
      { run with actionItems := run.actionItems ++ [item] } :: runs
    else run :: assignItem runs item

section
variable (calendar : Calendar)

/-- Events are ordered by their time, and by their place in the log. -/
def eventOrder (e : ℕ × EventRecord) : List ℕ ×ₗ ℕ :=
  toLex (rank (calendar.sortKey e.2.timestamp), e.1)

def orderedEvents (events : List (ℕ × EventRecord)) : List (ℕ × EventRecord) :=
  events.insertionSort fun a b => eventOrder calendar a ≤ eventOrder calendar b

/-- The events with their places in the log. -/
def Snapshot.numberedEvents (s : Snapshot) : List (ℕ × EventRecord) :=
  s.events.zipIdx.map Prod.swap

/-- The events of the log that belong to a run, oldest first. -/
def DigestRun.events (s : Snapshot) (run : DigestRun) : List (ℕ × EventRecord) :=
  orderedEvents calendar (s.numberedEvents.filter fun e => run.matchesEvent e.2)

def DigestRun.applyEvents (s : Snapshot) (run : DigestRun) : DigestRun :=
  (run.events calendar s).foldl (fun acc e => acc.applyEvent e.2) run

/-- The newest run first. -/
def digestOrder (item : DigestItem) : (List ℕ)ᵒᵈ ×ₗ List ℕ :=
  toLex (OrderDual.toDual (rank item.lastEventAt), rank item.runId)

/-- The runs with the inbox shared out among them. -/
def assignedRuns (s : Snapshot) : List DigestRun :=
  (inboxProjection calendar s).foldl assignItem (groupedRuns s.panes)

def digestProjection (s : Snapshot) : List DigestItem :=
  ((assignedRuns calendar s).map fun run => (run.applyEvents calendar s).intoItem).insertionSort
    fun a b => digestOrder a ≤ digestOrder b

/-- The last event with a name of some kind. -/
structure IsLatest (events : List (ℕ × EventRecord)) (names : Text → Bool)
    (e : ℕ × EventRecord) : Prop where
  mem : e ∈ events
  named : names e.2.event
  last : ∀ f ∈ events, names f.2.event → eventOrder calendar f ≤ eventOrder calendar e

variable {calendar} {events : List (ℕ × EventRecord)} {names : Text → Bool}
  {e f : ℕ × EventRecord}

theorem IsLatest.perm {events' : List (ℕ × EventRecord)} (h : IsLatest calendar events names e)
    (hp : events.Perm events') : IsLatest calendar events' names e where
  mem := hp.mem_iff.mp h.mem
  named := h.named
  last := fun f hf => h.last f (hp.mem_iff.mpr hf)

/-- Where places are not shared, an event is told by its order. -/
theorem eq_of_eventOrder_eq (hn : (events.map Prod.fst).Nodup) (he : e ∈ events)
    (hf : f ∈ events) (h : eventOrder calendar e = eventOrder calendar f) : e = f :=
  List.inj_on_of_nodup_map hn he hf (congrArg (fun k => (ofLex k).2) h)

theorem IsLatest.unique (hn : (events.map Prod.fst).Nodup) (he : IsLatest calendar events names e)
    (hf : IsLatest calendar events names f) : e = f :=
  eq_of_eventOrder_eq hn he.mem hf.mem
    (le_antisymm (hf.last e he.mem he.named) (he.last f hf.mem hf.named))

theorem isLatest_of_argmax
    (h : (events.filter fun e => names e.2.event).argmax (eventOrder calendar) = some e) :
    IsLatest calendar events names e := by
  have hmem := List.mem_filter.mp (List.argmax_mem h)
  refine ⟨hmem.1, hmem.2, fun f hf hname => ?_⟩
  exact List.le_of_mem_argmax (List.mem_filter.mpr ⟨hf, hname⟩) h

theorem numberedEvents_nodup (s : Snapshot) : (s.numberedEvents.map Prod.fst).Nodup := by
  have h : s.numberedEvents.map Prod.fst = List.range s.events.length := by
    unfold Snapshot.numberedEvents
    rw [List.map_map, List.range_eq_range']
    exact List.zipIdx_map_snd 0 s.events
  rw [h]
  exact List.nodup_range

end

end Winsmux.Ledger
