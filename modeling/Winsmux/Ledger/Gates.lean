import Winsmux.Ledger.Explain

/-!
# The gates of a run

What stands between a run and its release: test evidence, the draft pull request, the
phases of the run, drift from the baseline, approval, and the envelope that puts their
answers together. Each gate reads the explain view of the run and its events.
-/
namespace Winsmux.Ledger
open Json

/-- What a task type or a changed file asks for. -/
def runRequiresTddGate (run : ExplainRun) : Bool :=
  ["bug", "bugfix", "fix", "defect", "core_logic", "core-logic", "core"].any
      (fun t => toAsciiLowercase run.taskType = utf8 t) ||
    run.changedFiles.any fun path =>
      let normalized := toAsciiLowercase (path.map fun c => if c = 0x5c then 0x2f else c)
      (utf8 "core/src/").isPrefixOf normalized ||
        (utf8 "winsmux-core/scripts/").isPrefixOf normalized ||
        normalized = utf8 "scripts/winsmux-core.ps1"

inductive TddState where
  | notRequired
  | passed
  | waived
  | blocked
  deriving DecidableEq

structure TddGate where
  required : Bool
  state : TddState
  exceptionReason : Text
  redEvent : Text
  exceptionEvent : Text
  deriving DecidableEq

def TddGate.reason (gate : TddGate) : String :=
  match gate.state with
  | .notRequired => "not_required"
  | .passed => "red_test_evidence_recorded"
  | .waived => "exception_recorded"
  | .blocked => "tdd_evidence_missing"

def isRedEvent (event : EventRecord) : Bool :=
  ["pipeline.tdd.red", "pipeline.test.red", "pipeline.test_first.fail",
      "pipeline.test_first.failed"].any (fun t => event.event = utf8 t) ||
    eqIgnoreAsciiCase (eventDataString event.data "tdd_phase") (utf8 "red") ||
    eqIgnoreAsciiCase (eventDataString event.data "test_first") (utf8 "true")

def isTddExceptionEvent (event : EventRecord) : Bool :=
  let reason := eventDataString event.data "reason"
  let exceptionReason := eventDataString event.data "tdd_exception_reason"
  event.event = utf8 "pipeline.tdd.exception" && (!isBlank exceptionReason || !isBlank reason) ||
    !isBlank exceptionReason ||
    event.event = utf8 "pipeline.policy.exception" && !isBlank reason

section
variable (calendar : Calendar) (lowercase : Text → Text)

def runTddGate (run : ExplainRun) (events : List (ℕ × EventRecord)) : TddGate :=
  let ordered := orderedEvents calendar events
  let redEvent := ordered.find? fun e => isRedEvent e.2
  let exceptionEvent := ordered.find? fun e => isTddExceptionEvent e.2
  { required := runRequiresTddGate run
    state :=
      if !runRequiresTddGate run then .notRequired
      else if redEvent.isSome then .passed
      else if exceptionEvent.isSome then .waived
      else .blocked
    exceptionReason := (exceptionEvent.map fun e => firstNonEmpty
      (eventDataString e.2.data "tdd_exception_reason") (eventDataString e.2.data "reason")).getD []
    redEvent := (redEvent.map fun e => e.2.event).getD []
    exceptionEvent := (exceptionEvent.map fun e => e.2.event).getD [] }

def textHasDriftSignal (eventName text : Text) : Bool :=
  if ["no drift", "without drift", "drift check passed", "drift check ok"].any
        (fun t => contains text (utf8 t)) ||
      ["drift_check.pass", "drift.pass"].any (fun t => contains eventName (utf8 t)) then false
  else if [".drift", "drift."].any fun t => contains eventName (utf8 t) then true
  else
    ["drift detected", "drift retry", "drift check failed", "drifted", "drifts from",
      "worker isolation drift"].any fun t => contains text (utf8 t)

def textHasStateSignal (text : Text) (keyword : String) : Bool :=
  if ["no " ++ keyword, "without " ++ keyword, keyword ++ " check passed", keyword ++ " check ok",
      keyword ++ " resolved"].any fun t => contains text (utf8 t) then false
  else contains text (utf8 keyword)

inductive DriftSignal where
  | driftDetected
  | staleState
  | stateMismatch
  deriving DecidableEq

def eventDriftSignals (event : EventRecord) : List DriftSignal :=
  let text := lowercase (event.event ++ utf8 " " ++ event.message ++ utf8 " " ++ event.status)
  (if textHasDriftSignal (lowercase event.event) text then [.driftDetected] else []) ++
    (if textHasStateSignal text "stale" then [.staleState] else []) ++
    (if textHasStateSignal text "mismatch" then [.stateMismatch] else [])

/-- The drift signals of the events, each where it first occurs. -/
def driftSignals (events : List (ℕ × EventRecord)) : List DriftSignal :=
  (events.flatMap fun e => eventDriftSignals lowercase e.2).eraseDups

/-- The baseline allows no drift and asks for a review of any. -/
structure ArchitectureContract where
  driftScore : ℕ
  maxDriftScore : ℕ
  reviewRequiredOnDrift : Bool
  driftSignals : List DriftSignal
  scoreRegression : Bool
  deriving DecidableEq

def runArchitectureContract (events : List (ℕ × EventRecord)) : ArchitectureContract :=
  let signals := driftSignals lowercase events
  { driftScore := signals.length
    maxDriftScore := 0
    reviewRequiredOnDrift := true
    driftSignals := signals
    scoreRegression := signals.length > 0 }

def runArchitectureReviewMissing (run : ExplainRun) (architecture : ArchitectureContract) : Bool :=
  architecture.scoreRegression && architecture.reviewRequiredOnDrift &&
    !eqIgnoreAsciiCase run.reviewState (utf8 "PASS")

def draftPrEventMatchesRunHead (run : ExplainRun) (event : EventRecord) : Bool :=
  if isBlank run.headSha then true
  else !isBlank (eventHeadSha event) && eventHeadSha event = run.headSha

/-- `FAIL` or `FAILED`, as written. -/
def isFailVerdict (reviewState : Text) : Bool :=
  reviewState = utf8 "FAIL" || reviewState = utf8 "FAILED"

structure HandoffValidation where
  evidenceComplete : Bool
  outcome : Text
  summary : Text
  nextAction : Text
  verificationPlan : List Text
  changedFiles : List Text
  deriving DecidableEq

structure HandoffPackage where
  summary : Text
  validation : HandoffValidation
  remainingRisks : List Text
  suggestedNextAction : Text
  blockedReasons : List Text
  packageComplete : Bool
  humanJudgementRequired : Bool
  automaticMergeAllowed : Bool
  deriving DecidableEq

def missingEvidence (outcome : Text) : List Text :=
  if isBlank outcome then [utf8 "verification evidence is missing"] else []

def reviewBlocks (run : ExplainRun) : List Text :=
  (if run.reviewRequired && !(run.reviewState = utf8 "PASS" || isFailVerdict run.reviewState) then
      [utf8 "review state is unresolved: " ++ run.reviewState] else []) ++
    (if isFailVerdict run.reviewState then [utf8 "review failed: " ++ run.reviewState] else [])

def securityBlocks (verdict reason : Text) : List Text :=
  if verdict = utf8 "BLOCK" then
    [if isBlank reason then utf8 "security policy blocked the run" else reason]
  else []

def architectureBlocks (run : ExplainRun) (architecture : ArchitectureContract) : List Text :=
  if runArchitectureReviewMissing run architecture then
    [utf8 "architecture baseline mismatch requires review"] else []

def runDraftPrHandoffPackage (run : ExplainRun) (architecture : ArchitectureContract)
    (draftPrUrl : Text) : HandoffPackage :=
  let outcome := valueFieldString run.verificationResult "outcome"
  let summary := valueFieldString run.verificationResult "summary"
  let nextAction := valueFieldString run.verificationResult "next_action"
  let blocks := securityBlocks (valueFieldString run.securityVerdict "verdict")
    (valueFieldString run.securityVerdict "reason") ++ architectureBlocks run architecture
  let blockedReasons := missingEvidence outcome ++ reviewBlocks run ++ blocks
  { summary := firstNonEmptyString [summary, run.experimentPacket.result, run.task, run.goal]
    validation := ⟨!isBlank outcome, outcome, summary, nextAction, run.verificationPlan, run.changedFiles⟩
    remainingRisks := missingEvidence outcome ++ reviewBlocks run ++
      (if !isBlank outcome && outcome ≠ utf8 "PASS" then
        [utf8 "verification outcome is " ++ outcome] else []) ++ blocks
    suggestedNextAction :=
      if !isBlank nextAction && blockedReasons ≠ [] then nextAction
      else if blockedReasons ≠ [] then
        utf8 "resolve blocked reasons before creating or merging a draft PR"
      else if isBlank draftPrUrl then utf8 "create a draft PR and request human review"
      else utf8 "human reviewer must decide whether to merge"
    blockedReasons := blockedReasons
    packageComplete := blockedReasons.isEmpty
    humanJudgementRequired := true
    automaticMergeAllowed := false }

inductive DraftPrState where
  | blocked
  | passed
  | required
  deriving DecidableEq

def DraftPrState.name : DraftPrState → String
  | .blocked => "blocked"
  | .passed => "passed"
  | .required => "required"

structure DraftPrGate where
  state : DraftPrState
  draftPrUrl : Text
  handoffPackage : HandoffPackage
  deriving DecidableEq

def runDraftPrGate (run : ExplainRun) (architecture : ArchitectureContract)
    (events : List (ℕ × EventRecord)) : DraftPrGate :=
  let draftPrEvent := events.find? fun e =>
    e.2.event = utf8 "operator.draft_pr.created" && draftPrEventMatchesRunHead run e.2
  let draftPrUrl := (draftPrEvent.map fun e => eventDataString e.2.data "draft_pr_url").getD []
  let handoffPackage := runDraftPrHandoffPackage run architecture draftPrUrl
  { state :=
      if handoffPackage.blockedReasons ≠ [] then .blocked
      else if draftPrEvent.isSome then .passed
      else .required
    draftPrUrl := draftPrUrl
    handoffPackage := handoffPackage }

end

inductive Stage where
  | plan
  | build
  | test
  | review
  | package
  deriving DecidableEq

def Stage.name : Stage → String
  | .plan => "plan"
  | .build => "build"
  | .test => "test"
  | .review => "review"
  | .package => "package"

inductive StageStatus where
  | pending
  | inProgress
  | waitingForInput
  | blocked
  | completed
  deriving DecidableEq

structure RunPhaseStage where
  stage : Stage
  status : StageStatus
  reason : Text
  event : Text
  deriving DecidableEq

def setRunPhaseStage (name : Stage) (status : StageStatus) (reason event : Text) :
    List RunPhaseStage → List RunPhaseStage
  | [] => []
  | s :: ss =>
    if s.stage = name then
      { s with
        status := status
        reason := if isBlank reason then s.reason else reason
        event := if isBlank event then s.event else event } :: ss
    else s :: setRunPhaseStage name status reason event ss

inductive StopReason where
  | verificationFailed
  | needsUserDecision
  | reviewFailed
  | draftPr
  | tddEvidenceMissing
  deriving DecidableEq

def StopReason.name : StopReason → String
  | .verificationFailed => "verification_failed"
  | .needsUserDecision => "needs_user_decision"
  | .reviewFailed => "review_failed"
  | .draftPr => "draft_pr"
  | .tddEvidenceMissing => "tdd_evidence_missing"

/-- The stages while events are read, and where and why the run stops, if it does. -/
structure PhaseState where
  stages : List RunPhaseStage
  stop : Option (Stage × StopReason)
  deriving DecidableEq

namespace PhaseState

def set (st : PhaseState) (name : Stage) (status : StageStatus) (reason : String)
    (event : Text) : PhaseState :=
  { st with stages := setRunPhaseStage name status (utf8 reason) event st.stages }

def halt (st : PhaseState) (name : Stage) (reason : StopReason) : PhaseState :=
  { st with stop := some (name, reason) }

def clear (st : PhaseState) : PhaseState := { st with stop := none }

/-- Lift a stop at one stage. -/
def release (st : PhaseState) (name : Stage) : PhaseState :=
  if st.stop.map Prod.fst = some name then st.clear else st

end PhaseState

def phaseOrder : List Stage := [.plan, .build, .test, .review, .package]

def initialPhaseState (run : ExplainRun) : PhaseState :=
  let fresh : PhaseState := ⟨phaseOrder.map fun stage => ⟨stage, .pending, [], []⟩, none⟩
  let planned :=
    if !isBlank run.goal || run.verificationPlan ≠ [] then
      fresh.set .plan .completed "run_plan_recorded" []
    else fresh
  if isBlank run.taskState then planned
  else { planned with
    stages := setRunPhaseStage .build .inProgress run.taskState [] planned.stages }

/-- What an event does to the phases. -/
def applyPhaseEvent (run : ExplainRun) (st : PhaseState) (event : EventRecord) : PhaseState :=
  let name := event.event
  if name = utf8 "pipeline.decompose.completed" then st.set .plan .completed "decomposed" name
  else if name = utf8 "pipeline.dispatch.assigned" then
    st.set .build .inProgress "assigned" name
  else if name = utf8 "pipeline.collect.completed" then
    st.set .build .completed "collected" name
  else if name = utf8 "pipeline.verify.pass" then
    (st.set .test .completed "verification_passed" name).release .test
  else if name = utf8 "pipeline.verify.fail" then
    (st.set .test .blocked "verification_failed" name).halt .test .verificationFailed
  else if name = utf8 "pipeline.verify.partial" then
    (st.set .test .waitingForInput "verification_partial" name).halt .test .needsUserDecision
  else if name = utf8 "operator.review_requested" then
    st.set .review .waitingForInput "review_requested" name
  else if name = utf8 "operator.review_failed" then
    (st.set .review .blocked "review_failed" name).halt .review .reviewFailed
  else if name = utf8 "pipeline.escalate.required" then
    (st.set .review .waitingForInput "needs_user_decision" name).halt .review .needsUserDecision
  else if name = utf8 "operator.draft_pr.required" then
    (st.set .package .waitingForInput "needs_user_decision" name).halt .package .needsUserDecision
  else if name = utf8 "operator.draft_pr.created" ∧ draftPrEventMatchesRunHead run event then
    (st.set .package .waitingForInput "draft_pr" name).halt .package .draftPr
  else if name = utf8 "operator.commit_ready" then
    (st.set .package .completed "commit_ready" name).clear
  else st

/-- What the review state says, over the events. -/
def applyReviewState (run : ExplainRun) (draftPrGate : DraftPrGate) (st : PhaseState) :
    PhaseState :=
  if run.reviewState = utf8 "PASS" then
    let passed := (st.set .review .completed "review_passed" []).release .review
    if draftPrGate.state ≠ .passed then
      (passed.set .package .waitingForInput "needs_user_decision" []).halt .package
        .needsUserDecision
    else passed
  else if run.reviewState = utf8 "PENDING" then
    st.set .review .waitingForInput "review_pending" []
  else if isFailVerdict run.reviewState then
    (st.set .review .blocked "review_failed" []).halt .review .reviewFailed
  else st

def applyTaskState (run : ExplainRun) (st : PhaseState) : PhaseState :=
  if ["completed", "task_completed", "commit_ready", "done"].any
      fun t => run.taskState = utf8 t then
    let packaged := { st with
      stages := setRunPhaseStage .package .completed run.taskState []
        (setRunPhaseStage .build .completed run.taskState [] st.stages) }
    if run.taskState = utf8 "commit_ready" ∨ run.taskState = utf8 "done" then packaged.clear
    else packaged
  else st

def applyTddGate (tddGate : TddGate) (st : PhaseState) : PhaseState :=
  if tddGate.state = .blocked then
    (st.set .test .blocked "tdd_evidence_missing" []).halt .test .tddEvidenceMissing
  else st

structure PhaseGate where
  currentStage : Stage
  stages : List RunPhaseStage
  stop : Option (Stage × StopReason)
  deriving DecidableEq

def PhaseGate.autoContinueAllowed (gate : PhaseGate) : Bool := gate.stop.isNone

section
variable (calendar : Calendar)

def runPhaseGate (run : ExplainRun) (events : List (ℕ × EventRecord)) (draftPrGate : DraftPrGate)
    (tddGate : TddGate) : PhaseGate :=
  let afterEvents := (orderedEvents calendar events).foldl
    (fun st e => applyPhaseEvent run st e.2) (initialPhaseState run)
  let st := applyTddGate tddGate (applyTaskState run (applyReviewState run draftPrGate afterEvents))
  { currentStage :=
      ((st.stages.reverse.find? fun s => s.status ≠ .pending).map RunPhaseStage.stage).getD .plan
    stages := st.stages
    stop := st.stop }

end

inductive ApprovalState where
  | approved
  | failed
  | pending
  | missing
  | notRequired
  deriving DecidableEq

def ApprovalState.name : ApprovalState → String
  | .approved => "approved"
  | .failed => "failed"
  | .pending => "pending"
  | .missing => "missing"
  | .notRequired => "not_required"

inductive StageName where
  | staticVerification
  | policyGate
  | operatorReview
  | humanFinalApproval
  deriving DecidableEq

def StageName.name : StageName → String
  | .staticVerification => "static_verification"
  | .policyGate => "policy_gate"
  | .operatorReview => "operator_review"
  | .humanFinalApproval => "human_final_approval"

structure ApprovalStage where
  name : StageName
  required : Bool
  state : ApprovalState
  requestedEvent : Text
  decidedEvent : Text
  actorSeparationRequired : Bool
  actorSeparationSatisfied : Bool
  deriving DecidableEq

/-- The mode that a context contract can name. -/
def contextMode (evidence : Option VerificationEvidence) : Text :=
  match evidence with
  | some e =>
    if eqIgnoreAsciiCase e.contextMode (utf8 "fork") && !isBlank e.contextForkReason then
      utf8 "fork"
    else utf8 "isolated"
  | none => utf8 "isolated"

def runEnterpriseApprovalChainRequired (run : ExplainRun) : Bool :=
  if !run.reviewRequired then false
  else
    let executionProfile := firstNonEmpty (valueFieldString run.securityPolicy "execution_profile")
      (valueFieldString run.securityPolicy "profile")
    eqIgnoreAsciiCase (contextMode run.verificationEvidence) (utf8 "enterprise") ||
      eqIgnoreAsciiCase executionProfile (utf8 "isolated-enterprise") ||
      contains (toAsciiLowercase run.providerTarget) (utf8 "enterprise")

def isFinalApprovalDeniedEvent (name : Text) : Bool :=
  name = utf8 "operator.final_approval_denied" || name = utf8 "operator.approval_denied" ||
    name = utf8 "operator.human_approval_denied"

def isFinalApprovalGrantedEvent (name : Text) : Bool :=
  name = utf8 "operator.final_approval_granted" || name = utf8 "operator.approval_granted" ||
    name = utf8 "operator.human_approval_granted"

def isReviewPassEvent (name : Text) : Bool :=
  name = utf8 "operator.review_passed" || name = utf8 "review.pass"

def isReviewFailEvent (name : Text) : Bool :=
  name = utf8 "operator.review_failed" || name = utf8 "review.fail"

/-- Who decides is neither the primary pane of the run nor, by its role, a builder. -/
def approvalActorSeparated (run : ExplainRun) : Option EventRecord → Bool
  | none => false
  | some event =>
    if isBlank event.label && isBlank event.paneId && isBlank event.role then false
    else if !isBlank run.primaryLabel && eqIgnoreAsciiCase run.primaryLabel event.label then false
    else if !isBlank run.primaryPaneId && eqIgnoreAsciiCase run.primaryPaneId event.paneId then
      false
    else if eqIgnoreAsciiCase event.role (utf8 "Builder") then false
    else if !isBlank run.primaryRole && eqIgnoreAsciiCase run.primaryRole event.role then false
    else true

def auditChainApprovalState (reviewState : Text) (reviewRequired : Bool) : ApprovalState :=
  if eqIgnoreAsciiCase reviewState (utf8 "PASS") then .approved
  else if isReviewFailed reviewState then .failed
  else if eqIgnoreAsciiCase reviewState (utf8 "PENDING") then .pending
  else if reviewRequired then .missing
  else .notRequired

/-- The first failure decides; else a stage that is missing, else one that is pending. -/
def aggregateEnterpriseApprovalState (stages : List ApprovalStage) : ApprovalState :=
  let required := stages.filter ApprovalStage.required
  if required.any fun stage => stage.state = .failed then .failed
  else if required.any fun stage => stage.state = .missing then .missing
  else if required.any fun stage => stage.state = .pending ∨ stage.state = .notRequired then
    .pending
  else if required ≠ [] then .approved
  else .notRequired

def approvalStageBlockedReason (stage : ApprovalStage) : Option Text :=
  if !stage.required || stage.name = .staticVerification then none
  else if stage.state = .missing then
    some (utf8 "approval stage " ++ utf8 stage.name.name ++ utf8 " is missing")
  else if stage.state = .failed then
    if stage.actorSeparationRequired && !stage.actorSeparationSatisfied then
      some (utf8 "approval stage " ++ utf8 stage.name.name ++ utf8 " violates actor separation")
    else some (utf8 "approval stage " ++ utf8 stage.name.name ++ utf8 " failed")
  else none

def isAuditChainEvent (name : Text) : Bool :=
  isReviewPassEvent name || isReviewFailEvent name || isFinalApprovalGrantedEvent name ||
    isFinalApprovalDeniedEvent name || isVerificationEvent name || isSecurityEvent name ||
    ["operator.review_requested", "pane.approval_waiting", "pipeline.tdd.red",
      "pipeline.tdd.exception", "operator.draft_pr.created", "operator.draft_pr.required"].any
      fun t => name = utf8 t

inductive ApprovalMode where
  | enterpriseMultiStage
  | singleReview
  deriving DecidableEq

structure Approval where
  required : Bool
  state : ApprovalState
  verdict : Text
  mode : ApprovalMode
  requestedAt : Text
  requestedEvent : Text
  decidedAt : Text
  decidedEvent : Text
  stages : List ApprovalStage
  deriving DecidableEq

structure AuditChain where
  approval : Approval
  /-- The events of the chain, oldest first. -/
  events : List (ℕ × EventRecord)

section
variable (calendar : Calendar)

/-- The latest event with one of some names. -/
def latestAuditEvent (events : List (ℕ × EventRecord)) (names : Text → Bool) :
    Option (ℕ × EventRecord) :=
  (events.filter fun e => names e.2.event).argmax (eventOrder calendar)

/-- The review decision that the review state speaks of. -/
def runAuditChainDecisionEvent (run : ExplainRun) (events : List (ℕ × EventRecord)) :
    Option (ℕ × EventRecord) :=
  if eqIgnoreAsciiCase run.reviewState (utf8 "PASS") then
    latestAuditEvent calendar events isReviewPassEvent
  else if isReviewFailed run.reviewState then latestAuditEvent calendar events isReviewFailEvent
  else none

def isFinalApprovalEvent (name : Text) : Bool :=
  isFinalApprovalGrantedEvent name || isFinalApprovalDeniedEvent name

/-- The verdict a security value has, as an object or as a string. -/
def securityVerdictText (securityVerdict : Value) : Text :=
  firstNonEmpty (valueFieldString securityVerdict "verdict") (securityVerdict.asStr.getD [])

def verificationStageState (outcome : Text) : ApprovalState :=
  if isBlank outcome then .missing else if outcome = utf8 "PASS" then .approved else .failed

def policyStageState (verdict : Text) : ApprovalState :=
  if verdict = utf8 "BLOCK" then .failed else if isBlank verdict then .missing else .approved

def operatorReviewStageState (reviewState : ApprovalState) (separated : Bool) : ApprovalState :=
  if reviewState = .approved ∧ separated = false then .failed else reviewState

def finalApprovalState (decision : Option EventRecord) (separated : Bool) : ApprovalState :=
  match decision with
  | none => .missing
  | some event =>
    if isFinalApprovalDeniedEvent event.event then .failed
    else if separated then .approved
    else .failed

def eventName (event : Option (ℕ × EventRecord)) : Text :=
  (event.map fun e => e.2.event).getD []

def eventTime (event : Option (ℕ × EventRecord)) : Text :=
  (event.map fun e => calendar.text e.2.timestamp).getD []

def enterpriseStages (run : ExplainRun) (events : List (ℕ × EventRecord)) : List ApprovalStage :=
  let decisionEvent := runAuditChainDecisionEvent calendar run events
  let finalDecision := latestAuditEvent calendar events isFinalApprovalEvent
  let reviewSeparated := approvalActorSeparated run (decisionEvent.map Prod.snd)
  let finalSeparated := approvalActorSeparated run (finalDecision.map Prod.snd)
  let requested := events.find? fun e => e.2.event = utf8 "operator.review_requested"
  [ { name := .staticVerification
      required := true
      state := verificationStageState (valueFieldString run.verificationResult "outcome")
      requestedEvent := []
      decidedEvent := utf8 "pipeline.verify.*"
      actorSeparationRequired := false
      actorSeparationSatisfied := false },
    { name := .policyGate
      required := true
      state := policyStageState (securityVerdictText run.securityVerdict)
      requestedEvent := []
      decidedEvent := utf8 "pipeline.security.*"
      actorSeparationRequired := false
      actorSeparationSatisfied := false },
    { name := .operatorReview
      required := run.reviewRequired
      state := operatorReviewStageState
        (auditChainApprovalState run.reviewState run.reviewRequired) reviewSeparated
      requestedEvent := eventName requested
      decidedEvent := eventName decisionEvent
      actorSeparationRequired := true
      actorSeparationSatisfied := reviewSeparated },
    { name := .humanFinalApproval
      required := true
      state := finalApprovalState (finalDecision.map Prod.snd) finalSeparated
      requestedEvent := []
      decidedEvent := eventName finalDecision
      actorSeparationRequired := true
      actorSeparationSatisfied := finalSeparated } ]

def runAuditChain (run : ExplainRun) (events : List (ℕ × EventRecord)) : AuditChain :=
  let ordered := orderedEvents calendar events
  let requested := ordered.find? fun e => e.2.event = utf8 "operator.review_requested"
  let decisionEvent := runAuditChainDecisionEvent calendar run ordered
  let chainRequired := runEnterpriseApprovalChainRequired run
  let stages := if chainRequired then enterpriseStages calendar run ordered else []
  { approval :=
      { required := run.reviewRequired
        state :=
          if chainRequired then aggregateEnterpriseApprovalState stages
          else auditChainApprovalState run.reviewState run.reviewRequired
        verdict := run.reviewState
        mode := if chainRequired then .enterpriseMultiStage else .singleReview
        requestedAt := eventTime calendar requested
        requestedEvent := eventName requested
        decidedAt := eventTime calendar decisionEvent
        decidedEvent := eventName decisionEvent
        stages := stages }
    events := ordered.filter fun e => isAuditChainEvent e.2.event }

end

inductive ReleaseStatus where
  | blocked
  | approved
  | ready
  deriving DecidableEq

inductive ClaimLevel where
  | blocked
  | partiallyVerified
  | verified
  | observed
  deriving DecidableEq

def runClaimLevel (blockedReasonCount : ℕ) (stopRequired evidenceComplete : Bool)
    (releaseStatus : ReleaseStatus) : ClaimLevel :=
  if blockedReasonCount > 0 then .blocked
  else if stopRequired then .partiallyVerified
  else if evidenceComplete ∨ releaseStatus = .ready ∨ releaseStatus = .approved then .verified
  else .observed

structure VerificationEnvelope where
  status : ReleaseStatus
  claimLevel : ClaimLevel
  blockedReasons : List Text
  humanJudgementRequired : Bool
  evidenceComplete : Bool
  deriving DecidableEq

/-- The gates of a run, as the envelope reads them. -/
structure RunGates where
  architecture : ArchitectureContract
  draftPrGate : DraftPrGate
  tddGate : TddGate
  phaseGate : PhaseGate
  auditChain : AuditChain

def verificationBlocks (outcome : Text) : List Text :=
  if isBlank outcome then [utf8 "verification evidence is missing"]
  else if outcome ≠ utf8 "PASS" then [utf8 "verification outcome is " ++ outcome]
  else []

def approvalBlocks (run : ExplainRun) (approval : Approval) : List Text :=
  if run.reviewRequired ∧ approval.state ≠ .approved then
    [utf8 "approval state is unresolved: " ++ utf8 approval.state.name]
  else []

def draftPrBlocks (state : DraftPrState) : List Text :=
  if state ≠ .passed then [utf8 "draft PR gate is " ++ utf8 state.name] else []

def phaseBlocks : Option (Stage × StopReason) → List Text
  | none => []
  | some (stage, reason) => [utf8 "phase gate stopped at " ++ utf8 stage.name ++ utf8 ": " ++
      utf8 reason.name]

/-- Everything that keeps a run from its release. -/
def releaseBlockedReasons (run : ExplainRun) (gates : RunGates) : List Text :=
  verificationBlocks (valueFieldString run.verificationResult "outcome") ++
    securityBlocks (securityVerdictText run.securityVerdict)
      (valueFieldString run.securityVerdict "reason") ++
    approvalBlocks run gates.auditChain.approval ++
    gates.auditChain.approval.stages.filterMap approvalStageBlockedReason ++
    draftPrBlocks gates.draftPrGate.state ++
    phaseBlocks gates.phaseGate.stop ++
    architectureBlocks run gates.architecture

def runVerificationEnvelope (run : ExplainRun) (gates : RunGates) : VerificationEnvelope :=
  let outcome := valueFieldString run.verificationResult "outcome"
  let blockedReasons := releaseBlockedReasons run gates
  let humanJudgementRequired :=
    run.reviewRequired || gates.draftPrGate.state ≠ .passed ||
      gates.phaseGate.stop.map Prod.snd = some .needsUserDecision ||
      runArchitectureReviewMissing run gates.architecture
  let status : ReleaseStatus :=
    if blockedReasons ≠ [] then .blocked
    else if humanJudgementRequired then .approved
    else .ready
  let evidenceComplete := !isBlank outcome && run.verificationEvidence.isSome
  { status := status
    claimLevel := runClaimLevel blockedReasons.length false evidenceComplete status
    blockedReasons := blockedReasons
    humanJudgementRequired := humanJudgementRequired
    evidenceComplete := evidenceComplete }

section
variable (calendar : Calendar) (lowercase : Text → Text)

/-- The gates as the view has them in the end: those that are computed before there is an
architecture contract are computed again with it. -/
def runGates (run : ExplainRun) (events : List (ℕ × EventRecord)) : RunGates :=
  let architecture := runArchitectureContract lowercase events
  let draftPrGate := runDraftPrGate run architecture events
  let tddGate := runTddGate calendar run events
  { architecture := architecture
    draftPrGate := draftPrGate
    tddGate := tddGate
    phaseGate := runPhaseGate calendar run events draftPrGate tddGate
    auditChain := runAuditChain calendar run events }

def ExplainProjection.gates (e : ExplainProjection) : RunGates :=
  runGates calendar lowercase e.run e.recentEvents

def ExplainProjection.envelope (e : ExplainProjection) : VerificationEnvelope :=
  runVerificationEnvelope e.run (e.gates calendar lowercase)

end

end Winsmux.Ledger
