import Winsmux.Ledger.Approval

/-!
# What a release rests on

A run is released when its envelope has nothing against it. The envelope asks the newest
value that any event carries under the name of a verdict; the digest asks the events that
give verdicts. A release is sound where the two cannot fall apart.
-/
namespace Winsmux.Ledger
open Json

theorem isLatest_of_getLast? {calendar : Calendar} {events : List (ℕ × EventRecord)}
    {names : Text → Bool} {e : ℕ × EventRecord}
    (hs : events.Pairwise fun a b => eventOrder calendar a ≤ eventOrder calendar b)
    (h : (events.filter fun e => names e.2.event).getLast? = some e) :
    IsLatest calendar events names e := by
  have hsplit := List.dropLast_append_getLast? e h
  have hmem := List.mem_filter.mp (List.mem_of_getLast? h)
  refine ⟨hmem.1, hmem.2, fun f hf hname => ?_⟩
  have hfilter : f ∈ events.filter fun e => names e.2.event := List.mem_filter.mpr ⟨hf, hname⟩
  have hsorted := hs.filter fun e => names e.2.event
  rw [← hsplit] at hfilter hsorted
  rcases List.mem_append.mp hfilter with hbefore | hlast
  · exact (List.pairwise_append.mp hsorted).2.2 f hbefore e (by simp)
  · obtain rfl : f = e := by simpa using hlast
    exact le_refl _

/-- One text that is not blank makes the first such text not blank. -/
theorem firstNonEmptyString_ne_blank {values : List Text} {t : Text} (ht : t ∈ values)
    (h : isBlank t = false) : isBlank (firstNonEmptyString values) = false := by
  unfold firstNonEmptyString
  cases hfind : values.find? fun t => !isBlank t with
  | none =>
    have := List.find?_eq_none.mp hfind t ht
    simp [h] at this
  | some u => simpa using List.find?_some hfind

theorem securityEventDefaultVerdict_ne_blank {name : Text} (h : isSecurityEvent name) :
    isBlank (securityEventDefaultVerdict name) = false := by
  have hallow : isBlank (utf8 "ALLOW") = false := by decide
  have hblock : isBlank (utf8 "BLOCK") = false := by decide
  unfold securityEventDefaultVerdict
  by_cases h1 : name = utf8 "pipeline.security.allowed" ∨ name = utf8 "security.policy.allowed"
  · rw [if_pos h1]
    exact hallow
  · rw [if_neg h1, if_pos]
    · exact hblock
    · simp only [isSecurityEvent, Bool.or_eq_true, decide_eq_true_eq] at h
      tauto

/-- A security event always gives a verdict. -/
theorem verdictSummary_of_security {event : EventRecord} (h : isSecurityEvent event.event) :
    ∃ summary, verdictSummaryFromEvent .security event = some summary ∧
      summary.verdict = eventVerdict .security event := by
  have hblank : isBlank (eventVerdict .security event) = false :=
    firstNonEmptyString_ne_blank (by simp) (securityEventDefaultVerdict_ne_blank h)
  exact ⟨_, if_neg (by simp [hblank]), rfl⟩

theorem isVerificationEvent_of_security {name : Text} (h : isSecurityEvent name) :
    isVerificationEvent name = false := by
  simp only [isSecurityEvent, Bool.or_eq_true, decide_eq_true_eq] at h
  obtain ((rfl | rfl) | rfl) | rfl := h <;> decide

theorem applyEvent_securityBlocked (run : DigestRun) (event : EventRecord) :
    (run.applyEvent event).item.securityBlocked =
      if isSecurityEvent event.event then eventVerdict .security event
      else run.item.securityBlocked := by
  unfold DigestRun.applyEvent DigestRun.applyVerdict
  by_cases hsec : isSecurityEvent event.event
  · obtain ⟨summary, hsome, hverdict⟩ := verdictSummary_of_security hsec
    rw [if_neg (by simp [isVerificationEvent_of_security hsec]), if_pos hsec, if_pos hsec]
    simp [DigestRun.applySecurity, hsome, hverdict]
  · rw [if_neg hsec, if_neg hsec]
    split_ifs
    · unfold DigestRun.applyVerification
      split <;> rfl
    · unfold DigestRun.applyMonitoring
      split <;> rfl
    · rfl

/-- The verdict that stays is that of the last security event. -/
theorem foldl_securityBlocked (events : List (ℕ × EventRecord)) (run : DigestRun) :
    (events.foldl (fun acc e => acc.applyEvent e.2) run).item.securityBlocked =
      (((events.filter fun e => isSecurityEvent e.2.event).getLast?).map fun e =>
        eventVerdict .security e.2).getD run.item.securityBlocked := by
  induction events using List.reverseRecOn with
  | nil => rfl
  | append_singleton events e ih =>
    rw [List.foldl_append, List.foldl_cons, List.foldl_nil, applyEvent_securityBlocked,
      List.filter_append]
    by_cases hsec : isSecurityEvent e.2.event
    · simp [hsec]
    · simp [hsec, ih]

theorem exists_latest_of_securityBlocked {calendar : Calendar} {s : Snapshot} {run : DigestRun}
    (hrun : run ∈ groupedRuns s.panes)
    (h : (digestEntry calendar s run).securityBlocked = utf8 "BLOCK") :
    ∃ v, IsLatest calendar (run.events calendar s) isSecurityEvent v ∧
      eventVerdict .security v.2 = utf8 "BLOCK" := by
  have hfold := foldl_securityBlocked (run.events calendar s)
    (run.push (assignedItems calendar s run.item.runId))
  have hblocked : ((run.events calendar s).foldl (fun acc e => acc.applyEvent e.2)
      (run.push (assignedItems calendar s run.item.runId))).item.securityBlocked =
        utf8 "BLOCK" := h
  rw [hfold, push_item, (idle_of_mem_groupedRuns hrun).2] at hblocked
  cases hlast : ((run.events calendar s).filter fun e => isSecurityEvent e.2.event).getLast? with
  | none =>
    rw [hlast] at hblocked
    exact absurd hblocked (by decide)
  | some v =>
    rw [hlast] at hblocked
    refine ⟨v, isLatest_of_getLast? ?_ hlast, by simpa using hblocked⟩
    exact pairwise_insertionSort_key _ _

/-- The answers a released run has from its gates. -/
structure GatesPassed (run : ExplainRun) (gates : RunGates) : Prop where
  verification : valueFieldString run.verificationResult "outcome" = utf8 "PASS"
  security : securityVerdictText run.securityVerdict ≠ utf8 "BLOCK"
  approval : run.reviewRequired = true → gates.auditChain.approval.state = .approved
  draftPr : gates.draftPrGate.state = .passed
  phase : gates.phaseGate.stop = none

theorem verificationBlocks_eq_nil {outcome : Text} (h : verificationBlocks outcome = []) :
    outcome = utf8 "PASS" := by
  unfold verificationBlocks at h
  split_ifs at h with hblank hpass
  exact not_not.mp hpass

theorem securityBlocks_eq_nil {verdict reason : Text} (h : securityBlocks verdict reason = []) :
    verdict ≠ utf8 "BLOCK" := by
  unfold securityBlocks at h
  split_ifs at h with hblock
  exact hblock

theorem approvalBlocks_eq_nil {run : ExplainRun} {approval : Approval}
    (h : approvalBlocks run approval = []) (hreq : run.reviewRequired = true) :
    approval.state = .approved := by
  unfold approvalBlocks at h
  split_ifs at h with hopen
  simpa [hreq] using hopen

theorem draftPrBlocks_eq_nil {state : DraftPrState} (h : draftPrBlocks state = []) :
    state = .passed := by
  unfold draftPrBlocks at h
  split_ifs at h with hpassed
  exact not_not.mp hpassed

theorem phaseBlocks_eq_nil {stop : Option (Stage × StopReason)} (h : phaseBlocks stop = []) :
    stop = none := by
  cases stop with
  | none => rfl
  | some p => cases h

theorem gatesPassed_of_released {run : ExplainRun} {gates : RunGates}
    (h : (runVerificationEnvelope run gates).status ≠ .blocked) : GatesPassed run gates := by
  have hreasons : releaseBlockedReasons run gates = [] := by
    by_contra hne
    exact h (if_pos hne)
  simp only [releaseBlockedReasons, List.append_eq_nil_iff] at hreasons
  obtain ⟨⟨⟨⟨⟨⟨hver, hsec⟩, happ⟩, -⟩, hdraft⟩, hphase⟩, -⟩ := hreasons
  constructor
  · exact verificationBlocks_eq_nil hver
  · exact securityBlocks_eq_nil hsec
  · exact approvalBlocks_eq_nil happ
  · exact draftPrBlocks_eq_nil hdraft
  · exact phaseBlocks_eq_nil hphase

/-- A review that failed as written keeps the draft pull request back. -/
theorem draftPrGate_of_failVerdict {run : ExplainRun} (architecture : ArchitectureContract)
    (events : List (ℕ × EventRecord)) (h : isFailVerdict run.reviewState) :
    (runDraftPrGate run architecture events).state = .blocked := by
  refine if_pos ?_
  simp [runDraftPrHandoffPackage, reviewBlocks, h]

theorem not_isReviewFailed_of_pass {reviewState : Text}
    (h : eqIgnoreAsciiCase reviewState (utf8 "PASS") = true) :
    isReviewFailed reviewState = false := by
  have hpass : toAsciiLowercase reviewState = toAsciiLowercase (utf8 "PASS") := by
    simpa [eqIgnoreAsciiCase] using h
  have hfail : toAsciiLowercase (utf8 "PASS") ≠ toAsciiLowercase (utf8 "fail") := by
    decide
  have hfailed : toAsciiLowercase (utf8 "PASS") ≠ toAsciiLowercase (utf8 "failed") := by
    decide
  simp [isReviewFailed, eqIgnoreAsciiCase, hpass, hfail, hfailed]

/-- A verification that failed, by its name or by its verdict. -/
def isVerificationFailure (event : EventRecord) : Bool :=
  event.event = utf8 "pipeline.verify.fail" || eventVerdict .verification event = utf8 "FAIL"

/-- A block, by its name or by its verdict. -/
def isSecurityBlock (event : EventRecord) : Bool :=
  event.event = utf8 "pipeline.security.blocked" || event.event = utf8 "security.policy.blocked" ||
    eventVerdict .security event = utf8 "BLOCK"

section
variable (calendar : Calendar) (lowercase : Text → Text)

/-- What a release is to rest on. -/
structure SoundRelease (s : Snapshot) (run : DigestRun) (e : ExplainProjection) : Prop where
  verification : ∀ v, IsLatest calendar (run.events calendar s) isVerificationEvent v →
    isVerificationFailure v.2 = false
  security : ∀ v, IsLatest calendar (run.events calendar s) isSecurityEvent v →
    isSecurityBlock v.2 = false
  digest : e.evidenceDigest.securityBlocked ≠ utf8 "BLOCK"
  review : isReviewFailed e.run.reviewState = false
  required : e.run.reviewRequired = true → eqIgnoreAsciiCase e.run.reviewState (utf8 "PASS")
  draftPr : (e.gates calendar lowercase).draftPrGate.state = .passed
  phase : (e.gates calendar lowercase).phaseGate.autoContinueAllowed = true

/-- The newest values under the names of a verdict speak for the latest events that give
one, and a failure of the review is written so that a gate reads it. -/
structure VerdictsTold (s : Snapshot) (run : DigestRun) (e : ExplainProjection) : Prop where
  verification : ∀ v, IsLatest calendar (run.events calendar s) isVerificationEvent v →
    isVerificationFailure v.2 →
      valueFieldString (firstEventValue e.recentEvents eventVerificationResult) "outcome" ≠
        utf8 "PASS"
  security : ∀ v, IsLatest calendar (run.events calendar s) isSecurityEvent v →
    isSecurityBlock v.2 →
      securityVerdictText (firstEventValue e.recentEvents eventSecurityVerdict) = utf8 "BLOCK"
  review : isReviewFailed e.run.reviewState →
    e.run.reviewRequired = true ∨ isFailVerdict e.run.reviewState

variable {calendar lowercase}

theorem explainProjection_run {reader : JsonReader} {s : Snapshot} {runId : Text}
    {e : ExplainProjection} (h : explainProjection calendar reader s runId = some e) :
    e.run.verificationResult = firstEventValue e.recentEvents eventVerificationResult ∧
      e.run.securityVerdict = firstEventValue e.recentEvents eventSecurityVerdict := by
  unfold explainProjection at h
  simp only [Option.bind_eq_bind, Option.bind_eq_some_iff] at h
  obtain ⟨d, -, pane, -, heq⟩ := h
  cases heq
  exact ⟨rfl, rfl⟩

theorem explainProjection_digest {reader : JsonReader} {s : Snapshot} {run : DigestRun}
    (hrun : run ∈ groupedRuns s.panes) {e : ExplainProjection}
    (h : explainProjection calendar reader s run.item.runId = some e) :
    e.evidenceDigest = digestEntry calendar s run := by
  have hd : digestEntry calendar s run ∈ digestProjection calendar s :=
    (mem_digestProjection calendar).mpr ⟨run, hrun, rfl⟩
  obtain ⟨pane, -, heq⟩ := exists_explainProjection calendar reader hd
  rw [digestEntry_runId, h] at heq
  cases heq
  rfl

theorem VerdictsTold.review_false {s : Snapshot} {run : DigestRun} {e : ExplainProjection}
    (h : VerdictsTold calendar s run e) (hg : GatesPassed e.run (e.gates calendar lowercase)) :
    isReviewFailed e.run.reviewState = false := by
  by_contra hfailed
  rw [Bool.not_eq_false] at hfailed
  rcases h.review hfailed with hreq | hverdict
  · have hpass := reviewState_of_approved hreq (hg.approval hreq)
    simp [not_isReviewFailed_of_pass hpass] at hfailed
  · have hblocked := draftPrGate_of_failVerdict (e.gates calendar lowercase).architecture
      e.recentEvents hverdict
    exact absurd (hblocked.symm.trans hg.draftPr) (by decide)

/-- A released run is sound just in case the values its gates read speak for the latest
events. -/
theorem release_sound_iff (calendar : Calendar) (reader : JsonReader) (lowercase : Text → Text)
    (s : Snapshot) (run : DigestRun) (e : ExplainProjection) (hrun : run ∈ groupedRuns s.panes)
    (he : explainProjection calendar reader s run.item.runId = some e)
    (hreleased : (e.envelope calendar lowercase).status = .ready ∨
      (e.envelope calendar lowercase).status = .approved) :
    SoundRelease calendar lowercase s run e ↔ VerdictsTold calendar s run e := by
  have hstatus : (e.envelope calendar lowercase).status ≠ .blocked := by
    rcases hreleased with h | h <;> simp [h]
  have hg := gatesPassed_of_released hstatus
  obtain ⟨hver, hsec⟩ := explainProjection_run he
  constructor
  · intro h
    constructor
    · intro v hv hfail
      simp [h.verification v hv] at hfail
    · intro v hv hblock
      simp [h.security v hv] at hblock
    · intro hfailed
      simp [h.review] at hfailed
  · intro h
    have hsecurity : ∀ v, IsLatest calendar (run.events calendar s) isSecurityEvent v →
        isSecurityBlock v.2 = false := by
      intro v hv
      by_contra hblock
      apply hg.security
      rw [hsec]
      exact h.security v hv (by simpa using hblock)
    constructor
    · intro v hv
      by_contra hfail
      apply h.verification v hv (by simpa using hfail)
      rw [← hver]
      exact hg.verification
    · exact hsecurity
    · intro hblocked
      rw [explainProjection_digest hrun he] at hblocked
      obtain ⟨v, hv, hverdict⟩ := exists_latest_of_securityBlocked hrun hblocked
      simpa [isSecurityBlock, hverdict] using hsecurity v hv
    · exact h.review_false hg
    · exact fun hreq => reviewState_of_approved hreq (hg.approval hreq)
    · exact hg.draftPr
    · simp [PhaseGate.autoContinueAllowed, hg.phase]

end

def finishedPane : Pane := { builderPane with taskState := utf8 "done" }

def finishedRun : DigestRun := .fromPane finishedPane

def draftPrEvent : EventRecord :=
  taskEvent "2026-04-23T12:00:05Z" "operator.draft_pr.created"
    [("head_sha", .str (utf8 "c0ffee"))]

/-- A verified task with a draft pull request, and what security says about it. -/
def finishedSnapshot (security : List EventRecord)
    (hnamed : ∀ e ∈ security, isBlank e.timestamp = false ∧ isBlank e.event = false)
    (hsession : ∀ e ∈ security, isBlank e.session) : Snapshot where
  sessionName := utf8 "winsmux-orchestra"
  panes := [finishedPane]
  events := verifiedEvent :: security ++ [draftPrEvent]
  panes_distinct := by decide
  events_named := by
    intro e he
    simp only [List.cons_append, List.mem_cons, List.mem_append, List.not_mem_nil, or_false] at he
    rcases he with rfl | he | rfl
    · decide
    · exact hnamed e he
    · decide
  events_session := by
    intro e he
    simp only [List.cons_append, List.mem_cons, List.mem_append, List.not_mem_nil, or_false] at he
    rcases he with rfl | he | rfl
    · exact .inr (.inl (by decide))
    · exact .inr (.inl (hsession e he))
    · exact .inr (.inl (by decide))

def allowedSnapshot : Snapshot :=
  finishedSnapshot [allowedEvent] (by decide) (by decide)

def blockedEvent : EventRecord :=
  taskEvent "2026-04-23T12:00:03Z" "pipeline.security.blocked" [("verdict", .str (utf8 "BLOCK"))]

def statusEvent : EventRecord :=
  taskEvent "2026-04-23T12:00:04Z" "monitor.status" [("verdict", .str (utf8 "ok"))]

def hiddenSnapshot : Snapshot :=
  finishedSnapshot [blockedEvent, statusEvent] (by decide) (by decide)

theorem isSome_allowed : (explained allowedSnapshot).isSome := by decide

theorem isSome_hidden : (explained hiddenSnapshot).isSome := by decide

def allowedView : ExplainProjection := (explained allowedSnapshot).get isSome_allowed

def hiddenView : ExplainProjection := (explained hiddenSnapshot).get isSome_hidden

theorem release_sound_iff_allowed :
    SoundRelease utcCalendar toAsciiLowercase allowedSnapshot finishedRun allowedView ↔
      VerdictsTold utcCalendar allowedSnapshot finishedRun allowedView :=
  release_sound_iff utcCalendar noDocuments toAsciiLowercase allowedSnapshot finishedRun
    allowedView (by decide) (Option.some_get isSome_allowed).symm
    (.inl (by decide))

/-- A security block and a later status with a verdict of its own: the digest has the run
blocked, the envelope has it ready. -/
theorem status_hides_block :
    explained hiddenSnapshot = some hiddenView ∧
      (hiddenView.envelope utcCalendar toAsciiLowercase).status = .ready ∧
      hiddenView.evidenceDigest.securityBlocked = utf8 "BLOCK" := by
  refine ⟨(Option.some_get isSome_hidden).symm, ?_, ?_⟩
  · decide
  · decide

end Winsmux.Ledger
