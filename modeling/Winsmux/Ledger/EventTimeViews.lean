import Winsmux.Ledger.EventTimeInbox

/-!
# The digest and the explain view by time

Both sort the events of a run by their instants, so the order of the log shows in neither
but through the inbox. The digest lists its runs by the texts of their times.
-/
namespace Winsmux.Ledger
open Json

section
variable {τ : Type} {clock : Clock τ} {events : List EventRecord} {e f : EventRecord}

/-- The sort key of an event tells it. -/
theorem Dated.eq_of_sortKey (h : Dated clock events) (he : e ∈ events) (hf : f ∈ events)
    (hk : clock.calendar.sortKey e.timestamp = clock.calendar.sortKey f.timestamp) : e = f := by
  obtain ⟨i, hi⟩ := Option.isSome_iff_exists.mp (h.parsed e he)
  obtain ⟨j, hj⟩ := Option.isSome_iff_exists.mp (h.parsed f hf)
  have hnodup : (events.map fun e => clock.parse e.timestamp).Nodup := List.pairwise_map.mpr h.distinct
  refine List.inj_on_of_nodup_map hnodup he hf ?_
  simp only [Clock.calendar, hi, hj, Option.map_some, Option.getD_some] at hk
  simp only [hi, hj, clock.nanos_injective hk]

theorem Dated.eq_of_rank (h : Dated clock events) (he : e ∈ events) (hf : f ∈ events)
    (hle : rank (clock.calendar.sortKey e.timestamp) ≤ rank (clock.calendar.sortKey f.timestamp))
    (hge : rank (clock.calendar.sortKey f.timestamp) ≤ rank (clock.calendar.sortKey e.timestamp)) : e = f :=
  h.eq_of_sortKey he hf (rank_injective (le_antisymm hle hge))

end

section
variable {s : Snapshot}

theorem map_numberedEvents (s : Snapshot) : s.numberedEvents.map Prod.snd = s.events := by
  rw [Snapshot.numberedEvents, List.map_map]
  exact List.zipIdx_map_fst ..

theorem map_filter_numberedEvents (s : Snapshot) (p : EventRecord → Bool) :
    (s.numberedEvents.filter fun e => p e.2).map Prod.snd = s.events.filter p := by
  rw [← map_numberedEvents s, List.filter_map]
  rfl

theorem eventOrder_le {calendar : Calendar} {e f : ℕ × EventRecord}
    (h : eventOrder calendar e ≤ eventOrder calendar f) :
    rank (calendar.sortKey e.2.timestamp) ≤ rank (calendar.sortKey f.2.timestamp) :=
  (Prod.Lex.le_iff.mp h).elim le_of_lt fun h => h.1.le

end

section
variable {τ : Type} {clock : Clock τ} {l l' : List (ℕ × EventRecord)}

/-- Two numberings of the same dated events. -/
structure SameEvents (clock : Clock τ) (l l' : List (ℕ × EventRecord)) : Prop where
  events : (l'.map Prod.snd).Perm (l.map Prod.snd)
  dated : Dated clock (l.map Prod.snd)

theorem SameEvents.symm (h : SameEvents clock l l') : SameEvents clock l' l :=
  ⟨h.events.symm, h.dated.perm h.events⟩

/-- Sorted by time the events are the same, whatever their numbers. -/
theorem SameEvents.ordered (h : SameEvents clock l l') :
    (orderedEvents clock.calendar l').map Prod.snd = (orderedEvents clock.calendar l).map Prod.snd := by
  have hsorted : ∀ l : List (ℕ × EventRecord), ((orderedEvents clock.calendar l).map Prod.snd).Pairwise
      fun e f => rank (clock.calendar.sortKey e.timestamp) ≤ rank (clock.calendar.sortKey f.timestamp) := fun l =>
    List.pairwise_map.mpr ((pairwise_insertionSort_key (eventOrder clock.calendar) l).imp eventOrder_le)
  have hperm : ∀ l : List (ℕ × EventRecord),
      ((orderedEvents clock.calendar l).map Prod.snd).Perm (l.map Prod.snd) := fun l =>
    (List.perm_insertionSort _ l).map _
  refine List.Perm.eq_of_pairwise (fun e f he hf hle hge => ?_) (hsorted l') (hsorted l)
    ((hperm l').trans (h.events.trans (hperm l).symm))
  exact h.dated.eq_of_rank (h.events.mem_iff.mp ((hperm l').mem_iff.mp he)) ((hperm l).mem_iff.mp hf) hle hge

theorem SameEvents.descending (h : SameEvents clock l l') :
    (l'.insertionSort fun a b => eventOrder clock.calendar b ≤ eventOrder clock.calendar a).map Prod.snd =
      (l.insertionSort fun a b => eventOrder clock.calendar b ≤ eventOrder clock.calendar a).map Prod.snd := by
  have hsorted : ∀ l : List (ℕ × EventRecord),
      ((l.insertionSort fun a b => eventOrder clock.calendar b ≤ eventOrder clock.calendar a).map Prod.snd).Pairwise
        fun e f => rank (clock.calendar.sortKey f.timestamp) ≤ rank (clock.calendar.sortKey e.timestamp) := fun l =>
    List.pairwise_map.mpr ((pairwise_insertionSort_key
      (fun e => OrderDual.toDual (eventOrder clock.calendar e)) l).imp fun h => eventOrder_le h)
  have hperm : ∀ l : List (ℕ × EventRecord),
      ((l.insertionSort fun a b => eventOrder clock.calendar b ≤ eventOrder clock.calendar a).map Prod.snd).Perm
        (l.map Prod.snd) := fun l => (List.perm_insertionSort _ l).map _
  refine List.Perm.eq_of_pairwise (fun e f he hf hle hge => ?_) (hsorted l') (hsorted l)
    ((hperm l').trans (h.events.trans (hperm l).symm))
  exact h.dated.eq_of_rank (h.events.mem_iff.mp ((hperm l').mem_iff.mp he)) ((hperm l).mem_iff.mp hf) hge hle

theorem SameEvents.of_ordered (h : SameEvents clock l l') :
    SameEvents clock (orderedEvents clock.calendar l) (orderedEvents clock.calendar l') where
  events := .of_eq h.ordered
  dated := h.dated.perm ((List.perm_insertionSort _ l).map _)

/-- The latest event with one of some names is the same. -/
theorem SameEvents.latest (h : SameEvents clock l l') (names : Text → Bool) :
    (latestAuditEvent clock.calendar l' names).map Prod.snd =
      (latestAuditEvent clock.calendar l names).map Prod.snd := by
  have hnone : ∀ {l l' : List (ℕ × EventRecord)}, SameEvents clock l l' →
      latestAuditEvent clock.calendar l names = none → latestAuditEvent clock.calendar l' names = none := by
    intro l l' h hl
    refine List.argmax_eq_none.mpr (List.filter_eq_nil_iff.mpr fun e he hname => ?_)
    obtain ⟨g, hg, hsame⟩ := List.mem_map.mp (h.events.mem_iff.mp (List.mem_map_of_mem (f := Prod.snd) he))
    exact List.filter_eq_nil_iff.mp (List.argmax_eq_none.mp hl) g hg (hsame ▸ hname)
  cases hl : latestAuditEvent clock.calendar l names with
  | none => rw [hnone h hl]
  | some e =>
    cases hl' : latestAuditEvent clock.calendar l' names with
    | none =>
      rw [hnone h.symm hl'] at hl
      contradiction
    | some e' =>
      have hlast := isLatest_of_argmax hl
      have hlast' := isLatest_of_argmax hl'
      obtain ⟨g, hg, hsame⟩ := List.mem_map.mp (h.events.mem_iff.mp (List.mem_map_of_mem (f := Prod.snd) hlast'.mem))
      obtain ⟨g', hg', hsame'⟩ := List.mem_map.mp (h.events.mem_iff.mpr (List.mem_map_of_mem (f := Prod.snd) hlast.mem))
      have hle := eventOrder_le (hlast.last g hg (hsame ▸ hlast'.named))
      have hge := eventOrder_le (hlast'.last g' hg' (hsame' ▸ hlast.named))
      rw [hsame] at hle
      rw [hsame'] at hge
      have heq : e'.2 = e.2 :=
        h.dated.eq_of_rank (hsame ▸ List.mem_map_of_mem hg) (List.mem_map_of_mem hlast.mem) hle hge
      simp [heq]

theorem find?_snd (l : List (ℕ × EventRecord)) (p : EventRecord → Bool) :
    (l.find? fun e => p e.2).map Prod.snd = (l.map Prod.snd).find? p := by
  rw [List.find?_map]
  rfl

end

section
variable {τ : Type} {clock : Clock τ} {l l' : List (ℕ × EventRecord)} (run : ExplainRun)

theorem find?_map_congr {α : Type*} (h : l'.map Prod.snd = l.map Prod.snd) (p : EventRecord → Bool)
    (f : EventRecord → α) :
    (l'.find? fun e => p e.2).map (fun e => f e.2) = (l.find? fun e => p e.2).map fun e => f e.2 := by
  have hmap : ∀ l : List (ℕ × EventRecord), (l.find? fun e => p e.2).map (fun e => f e.2) =
      ((l.map Prod.snd).find? p).map f := fun l => by
    rw [← find?_snd, Option.map_map]
    rfl
  rw [hmap, hmap, h]

theorem find?_isSome_congr (h : l'.map Prod.snd = l.map Prod.snd) (p : EventRecord → Bool) :
    (l'.find? fun e => p e.2).isSome = (l.find? fun e => p e.2).isSome := by
  have hmap := congrArg Option.isSome (find?_map_congr h p id)
  simpa using hmap

theorem runArchitectureContract_congr (lowercase : Text → Text) (h : l'.map Prod.snd = l.map Prod.snd) :
    runArchitectureContract lowercase l' = runArchitectureContract lowercase l := by
  have hsignals : ∀ l : List (ℕ × EventRecord), driftSignals lowercase l =
      ((l.map Prod.snd).flatMap (eventDriftSignals lowercase)).eraseDups := fun l => by
    rw [driftSignals, List.flatMap_map]
  rw [runArchitectureContract, runArchitectureContract, hsignals, hsignals, h]

theorem runDraftPrGate_congr (architecture : ArchitectureContract) (h : l'.map Prod.snd = l.map Prod.snd) :
    runDraftPrGate run architecture l' = runDraftPrGate run architecture l := by
  let created : EventRecord → Bool := fun e =>
    e.event = utf8 "operator.draft_pr.created" && draftPrEventMatchesRunHead run e
  have hurl := find?_map_congr h created fun e => eventDataString e.data "draft_pr_url"
  have hsome := find?_isSome_congr h created
  simp only [created] at hurl hsome
  simp only [runDraftPrGate, hurl, hsome]

theorem runTddGate_congr (h : SameEvents clock l l') :
    runTddGate clock.calendar run l' = runTddGate clock.calendar run l := by
  simp only [runTddGate, find?_map_congr h.ordered isRedEvent fun e => e.event,
    find?_map_congr h.ordered isTddExceptionEvent fun e => e.event,
    find?_map_congr h.ordered isTddExceptionEvent fun e => firstNonEmpty
      (eventDataString e.data "tdd_exception_reason") (eventDataString e.data "reason"),
    find?_isSome_congr h.ordered isRedEvent, find?_isSome_congr h.ordered isTddExceptionEvent]

theorem runPhaseGate_congr (h : SameEvents clock l l') (draftPrGate : DraftPrGate) (tddGate : TddGate) :
    runPhaseGate clock.calendar run l' draftPrGate tddGate = runPhaseGate clock.calendar run l draftPrGate tddGate := by
  have hfold : ∀ (l : List (ℕ × EventRecord)) (st : PhaseState),
      l.foldl (fun st e => applyPhaseEvent run st e.2) st = (l.map Prod.snd).foldl (applyPhaseEvent run) st :=
    fun l st => (List.foldl_map (f := Prod.snd) (g := applyPhaseEvent run)).symm
  simp only [runPhaseGate, hfold, h.ordered]

theorem eventName_congr {e e' : Option (ℕ × EventRecord)} (h : e'.map Prod.snd = e.map Prod.snd) :
    eventName e' = eventName e := by
  cases e <;> cases e' <;> simp_all [eventName]

theorem eventTime_congr {calendar : Calendar} {e e' : Option (ℕ × EventRecord)}
    (h : e'.map Prod.snd = e.map Prod.snd) : eventTime calendar e' = eventTime calendar e := by
  cases e <;> cases e' <;> simp_all [eventTime]

theorem SameEvents.decision (h : SameEvents clock l l') :
    (runAuditChainDecisionEvent clock.calendar run l').map Prod.snd =
      (runAuditChainDecisionEvent clock.calendar run l).map Prod.snd := by
  unfold runAuditChainDecisionEvent
  split_ifs
  · exact h.latest isReviewPassEvent
  · exact h.latest isReviewFailEvent
  · rfl

theorem enterpriseStages_congr (h : SameEvents clock l l') (hmap : l'.map Prod.snd = l.map Prod.snd) :
    enterpriseStages clock.calendar run l' = enterpriseStages clock.calendar run l := by
  have hfinal := h.latest isFinalApprovalEvent
  have hdecision := h.decision run
  have hrequested := @eventName_congr (l.find? fun e => e.2.event = utf8 "operator.review_requested")
    (l'.find? fun e => e.2.event = utf8 "operator.review_requested")
    (find?_map_congr hmap (fun e => e.event = utf8 "operator.review_requested") id)
  simp only [enterpriseStages, hfinal, hdecision, hrequested, eventName_congr hfinal, eventName_congr hdecision]

theorem runAuditChain_congr (h : SameEvents clock l l') :
    (runAuditChain clock.calendar run l').approval = (runAuditChain clock.calendar run l).approval ∧
      (runAuditChain clock.calendar run l').events.map Prod.snd =
        (runAuditChain clock.calendar run l).events.map Prod.snd := by
  have hordered := h.ordered
  have hdecision := h.of_ordered.decision run
  have hstages := enterpriseStages_congr run h.of_ordered hordered
  have hrequested := find?_map_congr hordered (fun e => e.event = utf8 "operator.review_requested") id
  constructor
  · simp only [runAuditChain, hstages, eventName_congr hdecision, eventTime_congr hdecision,
      @eventName_congr _ ((orderedEvents clock.calendar l').find? _) hrequested,
      @eventTime_congr _ _ ((orderedEvents clock.calendar l').find? _) hrequested]
  · have hfilter : ∀ l : List (ℕ × EventRecord), (l.filter fun e => isAuditChainEvent e.2.event).map Prod.snd =
        (l.map Prod.snd).filter fun e => isAuditChainEvent e.event := fun l => by
      rw [List.filter_map]
      rfl
    simp only [runAuditChain, hfilter, hordered]

/-- The envelope does not read the events of the audit chain. -/
theorem runVerificationEnvelope_congr {gates gates' : RunGates} (ha : gates'.architecture = gates.architecture)
    (hd : gates'.draftPrGate = gates.draftPrGate) (hp : gates'.phaseGate = gates.phaseGate)
    (happroval : gates'.auditChain.approval = gates.auditChain.approval) :
    runVerificationEnvelope run gates' = runVerificationEnvelope run gates := by
  obtain ⟨architecture, draftPrGate, tddGate, phaseGate, ⟨approval, audit⟩⟩ := gates
  obtain ⟨architecture', draftPrGate', tddGate', phaseGate', ⟨approval', audit'⟩⟩ := gates'
  obtain rfl : architecture' = architecture := ha
  obtain rfl : draftPrGate' = draftPrGate := hd
  obtain rfl : phaseGate' = phaseGate := hp
  obtain rfl : approval' = approval := happroval
  rfl

/-- The views of a run with the same events say the same. -/
theorem sameView_of_events {lowercase : Text → Text} {e e' : ExplainProjection} (hrun : e'.run = e.run)
    (hdigest : e'.evidenceDigest = e.evidenceDigest)
    (hevents : e'.recentEvents.map Prod.snd = e.recentEvents.map Prod.snd)
    (hdated : Dated clock (e.recentEvents.map Prod.snd)) : SameView clock lowercase e e' := by
  have hsame : SameEvents clock e.recentEvents e'.recentEvents := ⟨.of_eq hevents, hdated⟩
  have harchitecture := runArchitectureContract_congr lowercase hevents
  have hdraft : ∀ run architecture, runDraftPrGate run architecture e'.recentEvents =
      runDraftPrGate run architecture e.recentEvents := fun run architecture =>
    runDraftPrGate_congr run architecture hevents
  have htdd := runTddGate_congr e.run hsame
  have hphase := runPhaseGate_congr e.run hsame
  obtain ⟨happroval, haudit⟩ := runAuditChain_congr e.run hsame
  have hdraftGate : (e'.gates clock.calendar lowercase).draftPrGate =
      (e.gates clock.calendar lowercase).draftPrGate := by
    simp only [ExplainProjection.gates, runGates, hrun, harchitecture, hdraft]
  have hphaseGate : (e'.gates clock.calendar lowercase).phaseGate = (e.gates clock.calendar lowercase).phaseGate := by
    simp only [ExplainProjection.gates, runGates, hrun, harchitecture, hdraft, htdd, hphase]
  have hchain : (e'.gates clock.calendar lowercase).auditChain.approval =
      (e.gates clock.calendar lowercase).auditChain.approval := by
    simp only [ExplainProjection.gates, runGates, hrun, happroval]
  refine ⟨hrun, hdigest, hevents, harchitecture, hdraftGate, ?_, hphaseGate, hchain, ?_, ?_⟩
  · simp only [ExplainProjection.gates, runGates, hrun, htdd]
  · simp only [ExplainProjection.gates, runGates, hrun, haudit]
  · rw [ExplainProjection.envelope, ExplainProjection.envelope, hrun]
    exact runVerificationEnvelope_congr e.run harchitecture hdraftGate hphaseGate hchain

end

section
variable {τ : Type} {clock : Clock τ} {s s' : Snapshot}

/-- The events of a run are the same in every order of the log. -/
theorem sameEvents_filter (hdated : Dated clock s.events) (hr : Reordered s s') (p : EventRecord → Bool) :
    SameEvents clock (s.numberedEvents.filter fun e => p e.2) (s'.numberedEvents.filter fun e => p e.2) where
  events := by
    rw [map_filter_numberedEvents, map_filter_numberedEvents]
    exact hr.events.filter p
  dated := by
    rw [map_filter_numberedEvents]
    exact ⟨fun e he => hdated.parsed e (List.mem_of_mem_filter he), hdated.distinct.filter _⟩

theorem applyEvents_congr (hdated : Dated clock s.events) (hr : Reordered s s') (run : DigestRun) :
    run.applyEvents clock.calendar s' = run.applyEvents clock.calendar s := by
  have hfold : ∀ s : Snapshot, run.applyEvents clock.calendar s =
      ((run.events clock.calendar s).map Prod.snd).foldl DigestRun.applyEvent run := fun s =>
    (List.foldl_map (f := Prod.snd) (g := DigestRun.applyEvent)).symm
  rw [hfold, hfold]
  exact congrArg (fun events => events.foldl DigestRun.applyEvent run)
    (sameEvents_filter hdated hr run.matchesEvent).ordered

theorem digestProjection_congr (hdated : Dated clock s.events) (hr : Reordered s s')
    (hinbox : inboxProjection clock.calendar s' = inboxProjection clock.calendar s) :
    digestProjection clock.calendar s' = digestProjection clock.calendar s := by
  have hruns : assignedRuns clock.calendar s' = assignedRuns clock.calendar s := by
    rw [assignedRuns, assignedRuns, hinbox, hr.panes]
  rw [digestProjection, digestProjection, hruns]
  exact congrArg (List.insertionSort _) (List.map_congr_left fun run _ => by rw [applyEvents_congr hdated hr])

theorem explainPanes_congr (hr : Reordered s s') (d : DigestItem) : explainPanes s' d = explainPanes s d := by
  rw [explainPanes, explainPanes, hr.panes]

theorem recentEvents_congr (hdated : Dated clock s.events) (hr : Reordered s s') (d : DigestItem) :
    (recentEvents clock.calendar s' d).map Prod.snd = (recentEvents clock.calendar s d).map Prod.snd := by
  rw [recentEvents, recentEvents, explainPanes_congr hr]
  exact (sameEvents_filter hdated hr fun e => eventMatchesExplainRun e d (explainPanes s d)).descending

theorem dated_recentEvents (hdated : Dated clock s.events) (d : DigestItem) :
    Dated clock ((recentEvents clock.calendar s d).map Prod.snd) := by
  have hsame := sameEvents_filter hdated ⟨rfl, rfl, .refl _⟩ fun e => eventMatchesExplainRun e d (explainPanes s d)
  exact hsame.dated.perm ((List.perm_insertionSort _ _).map _)

theorem explainRun_congr (hdated : Dated clock s.events) (hr : Reordered s s') (reader : JsonReader)
    (hinbox : inboxProjection clock.calendar s' = inboxProjection clock.calendar s) (d : DigestItem) (pane : Pane) :
    explainRun clock.calendar reader s' d pane = explainRun clock.calendar reader s d pane := by
  have hevents := recentEvents_congr hdated hr d
  have hvalue : ∀ selector, firstEventValue (recentEvents clock.calendar s' d) selector =
      firstEventValue (recentEvents clock.calendar s d) selector := by
    have hmap : ∀ (l : List (ℕ × EventRecord)) selector, firstEventValue l selector =
        firstNonNullValue ((l.map Prod.snd).map selector) := fun l selector => by
      rw [firstEventValue, List.map_map]
      rfl
    intro selector
    rw [hmap, hmap, hevents]
  have hevidence : verificationEvidenceFromEventRecords (recentEvents clock.calendar s' d) =
      verificationEvidenceFromEventRecords (recentEvents clock.calendar s d) := by
    have hmap : ∀ l : List (ℕ × EventRecord), verificationEvidenceFromEventRecords l =
        ((((l.map Prod.snd).filter fun e => isVerificationEvent e.event).map fun e =>
          verificationEvidenceValue e.data).findSome? id) := fun l => by
      rw [verificationEvidenceFromEventRecords, List.filter_map, List.map_map]
      rfl
    rw [hmap, hmap, hevents]
  simp only [explainRun, explainPanes_congr hr, explainInboxItems, hinbox, hvalue, hevidence, hevents]

/-- The explain view of each run is the same but for the numbers of the events. -/
theorem explainProjection_congr (hdated : Dated clock s.events) (hr : Reordered s s') (reader : JsonReader)
    (lowercase : Text → Text)
    (hinbox : inboxProjection clock.calendar s' = inboxProjection clock.calendar s) (runId : Text) :
    Option.Rel (SameView clock lowercase) (explainProjection clock.calendar reader s runId)
      (explainProjection clock.calendar reader s' runId) := by
  rw [explainProjection, explainProjection, digestProjection_congr hdated hr hinbox]
  cases (digestProjection clock.calendar s).find? fun item => item.runId = runId with
  | none => exact .none
  | some d =>
    simp only [Option.bind_eq_bind, Option.bind_some, explainPanes_congr hr]
    cases (explainPanes s d).head? with
    | none => exact .none
    | some pane =>
      refine .some (sameView_of_events (explainRun_congr hdated hr reader hinbox d pane) rfl
        (recentEvents_congr hdated hr d) (dated_recentEvents hdated d))

theorem sameProjections_iff (hdated : Dated clock s.events) (hr : Reordered s s') (reader : JsonReader)
    (lowercase : Text → Text) : SameProjections clock reader lowercase s s' ↔
      inboxProjection clock.calendar s' = inboxProjection clock.calendar s := by
  refine ⟨SameProjections.inbox, fun hinbox => ⟨?_, hinbox, digestProjection_congr hdated hr hinbox,
    explainProjection_congr hdated hr reader lowercase hinbox⟩⟩
  rw [boardProjection, boardProjection, hr.panes]

end

end Winsmux.Ledger
