import Winsmux.Ledger.ExplainAgree
import Winsmux.Ledger.Gates

/-!
# Approval by somebody else

Where the enterprise chain is required, its approval means a pass of the review and a
grant of the final approval. The chain separates the actors of both from the primary
pane of the run, by label, pane id and role; another pane of the run, or a builder that
an event names without its role, is not told from an outsider.
-/
namespace Winsmux.Ledger
open Json

theorem aggregate_approved {stages : List ApprovalStage}
    (h : aggregateEnterpriseApprovalState stages = .approved) {stage : ApprovalStage}
    (hmem : stage ∈ stages) (hreq : stage.required) : stage.state = .approved := by
  have hrequired : stage ∈ stages.filter ApprovalStage.required := List.mem_filter.mpr ⟨hmem, hreq⟩
  unfold aggregateEnterpriseApprovalState at h
  simp only at h
  split_ifs at h with hfailed hmissing hpending
  simp only [List.any_eq_true, decide_eq_true_eq, not_exists, not_and] at hfailed hmissing hpending
  have hopen := hpending stage hrequired
  cases hs : stage.state with
  | approved => rfl
  | failed => exact absurd hs (hfailed stage hrequired)
  | missing => exact absurd hs (hmissing stage hrequired)
  | pending => exact absurd (.inl hs) hopen
  | notRequired => exact absurd (.inr hs) hopen

/-- The event names the primary pane of the run, or has its role or a builder's. -/
def namesPrimary (run : ExplainRun) (event : EventRecord) : Bool :=
  !isBlank run.primaryLabel && eqIgnoreAsciiCase run.primaryLabel event.label ||
    !isBlank run.primaryPaneId && eqIgnoreAsciiCase run.primaryPaneId event.paneId ||
    eqIgnoreAsciiCase event.role (utf8 "Builder") ||
    !isBlank run.primaryRole && eqIgnoreAsciiCase run.primaryRole event.role

/-- Whoever issued the event is not named at all. -/
def isAnonymous (event : EventRecord) : Bool :=
  isBlank event.label && isBlank event.paneId && isBlank event.role

theorem approvalActorSeparated_some (run : ExplainRun) (event : EventRecord) :
    approvalActorSeparated run (some event) = true ↔
      isAnonymous event = false ∧ namesPrimary run event = false := by
  simp only [approvalActorSeparated, isAnonymous, namesPrimary]
  split_ifs <;> simp_all

theorem exists_of_separated {run : ExplainRun} {decision : Option (ℕ × EventRecord)}
    (h : approvalActorSeparated run (decision.map Prod.snd) = true) :
    ∃ e, decision = some e ∧ isAnonymous e.2 = false ∧ namesPrimary run e.2 = false := by
  cases decision with
  | none => cases h
  | some e => exact ⟨e, rfl, (approvalActorSeparated_some run e.2).mp h⟩

theorem finalApprovalState_approved {decision : Option EventRecord} {separated : Bool}
    (h : finalApprovalState decision separated = .approved) :
    separated = true ∧ ∀ e, decision = some e → isFinalApprovalDeniedEvent e.event = false := by
  unfold finalApprovalState at h
  split at h
  · cases h
  · rename_i event
    split_ifs at h with hdenied hsep
    refine ⟨hsep, fun e he => ?_⟩
    obtain rfl : event = e := by simpa using he
    simpa using hdenied

theorem operatorReviewStageState_approved {reviewState : ApprovalState} {separated : Bool}
    (h : operatorReviewStageState reviewState separated = .approved) :
    reviewState = .approved ∧ separated = true := by
  unfold operatorReviewStageState at h
  by_cases hsep : separated = true
  · simpa [hsep] using h
  · rw [Bool.not_eq_true] at hsep
    by_cases hrev : reviewState = .approved
    · simp [hsep, hrev] at h
    · simp [hrev] at h

theorem auditChainApprovalState_approved {reviewState : Text} {required : Bool}
    (h : auditChainApprovalState reviewState required = .approved) :
    eqIgnoreAsciiCase reviewState (utf8 "PASS") = true := by
  unfold auditChainApprovalState at h
  split_ifs at h with hpass
  exact hpass

/-- What the run of an approved chain has behind it. -/
structure ChainApproved (calendar : Calendar) (run : ExplainRun)
    (events : List (ℕ × EventRecord)) (g r : ℕ × EventRecord) : Prop where
  final : IsLatest calendar events isFinalApprovalEvent g
  granted : isFinalApprovalDeniedEvent g.2.event = false
  finalNamed : isAnonymous g.2 = false
  finalSeparated : namesPrimary run g.2 = false
  review : IsLatest calendar events isReviewPassEvent r
  reviewNamed : isAnonymous r.2 = false
  reviewSeparated : namesPrimary run r.2 = false

theorem reviewRequired_of_chainRequired {run : ExplainRun}
    (h : runEnterpriseApprovalChainRequired run = true) : run.reviewRequired = true := by
  unfold runEnterpriseApprovalChainRequired at h
  by_contra hno
  simp [hno] at h

theorem exists_chainApproved {calendar : Calendar} {run : ExplainRun}
    {events : List (ℕ × EventRecord)} (hchain : runEnterpriseApprovalChainRequired run = true)
    (h : (runAuditChain calendar run events).approval.state = .approved) :
    ∃ g r, ChainApproved calendar run events g r := by
  have hperm : (orderedEvents calendar events).Perm events := List.perm_insertionSort _ _
  simp only [runAuditChain, hchain, if_true] at h
  have hfinal := aggregate_approved h (List.mem_cons_of_mem _ (List.mem_cons_of_mem _
    (List.mem_cons_of_mem _ List.mem_cons_self))) rfl
  have hreview := aggregate_approved h (List.mem_cons_of_mem _ (List.mem_cons_of_mem _
    List.mem_cons_self)) (reviewRequired_of_chainRequired hchain)
  obtain ⟨hfsep, hgranted⟩ := finalApprovalState_approved hfinal
  obtain ⟨hrstate, hrsep⟩ := operatorReviewStageState_approved hreview
  obtain ⟨g, hgeq, hgname, hgprim⟩ := exists_of_separated hfsep
  obtain ⟨r, hreq, hrname, hrprim⟩ := exists_of_separated hrsep
  rw [runAuditChainDecisionEvent, if_pos (auditChainApprovalState_approved hrstate)] at hreq
  refine ⟨g, r, ?_⟩
  constructor
  · exact (isLatest_of_argmax hgeq).perm hperm
  · exact hgranted g.2 (by rw [hgeq]; rfl)
  · exact hgname
  · exact hgprim
  · exact (isLatest_of_argmax hreq).perm hperm
  · exact hrname
  · exact hrprim

/-- An approval of either kind rests on a passed review. -/
theorem reviewState_of_approved {calendar : Calendar} {run : ExplainRun}
    {events : List (ℕ × EventRecord)} (hreq : run.reviewRequired = true)
    (h : (runAuditChain calendar run events).approval.state = .approved) :
    eqIgnoreAsciiCase run.reviewState (utf8 "PASS") = true := by
  by_cases hchain : runEnterpriseApprovalChainRequired run = true
  · simp only [runAuditChain, hchain, if_true] at h
    have hreview := aggregate_approved h (List.mem_cons_of_mem _ (List.mem_cons_of_mem _
      List.mem_cons_self)) hreq
    exact auditChainApprovalState_approved (operatorReviewStageState_approved hreview).1
  · rw [Bool.not_eq_true] at hchain
    simp only [runAuditChain, hchain, Bool.false_eq_true, if_false] at h
    exact auditChainApprovalState_approved h

def isBuilder (role : Text) : Bool := eqIgnoreAsciiCase role (utf8 "Builder")

/-- An event names a pane by its id or its label; one that names neither, by its role. -/
def isActor (event : EventRecord) (pane : Pane) : Bool :=
  !isBlank event.paneId && eqIgnoreAsciiCase event.paneId pane.paneId ||
    !isBlank event.label && eqIgnoreAsciiCase event.label pane.label ||
    isBlank event.paneId && isBlank event.label && eqIgnoreAsciiCase event.role pane.role

def isReviewDecisionEvent (name : Text) : Bool := isReviewPassEvent name || isReviewFailEvent name

/-- Somebody who is no pane of the run and no builder of the manifest. -/
structure Outsider (s : Snapshot) (panes : List Pane) (event : EventRecord) : Prop where
  named : isAnonymous event = false
  roleApart : isBuilder event.role = false
  notPane : ∀ pane ∈ panes, isActor event pane = false
  notBuilder : ∀ pane ∈ s.panes, isBuilder pane.role → isActor event pane = false

/-- The latest decisions are a grant and a pass, both by outsiders. -/
structure SeparatelyApproved (calendar : Calendar) (s : Snapshot) (e : ExplainProjection) :
    Prop where
  final : ∃ g, IsLatest calendar e.recentEvents isFinalApprovalEvent g ∧
    isFinalApprovalGrantedEvent g.2.event ∧ Outsider s (explainPanes s e.evidenceDigest) g.2
  review : ∃ r, IsLatest calendar e.recentEvents isReviewDecisionEvent r ∧
    isReviewPassEvent r.2.event ∧ Outsider s (explainPanes s e.evidenceDigest) r.2

/-- If a pane of the run or a builder issued the event, it names the primary pane, or has
its role or a builder's. -/
structure ActorTold (s : Snapshot) (e : ExplainProjection) (event : EventRecord) : Prop where
  pane : ∀ pane ∈ explainPanes s e.evidenceDigest, isActor event pane → namesPrimary e.run event
  builder : ∀ pane ∈ s.panes, isBuilder pane.role → isActor event pane → namesPrimary e.run event

/-- The decisions are such that the chain sees who issued them and which is the latest. -/
structure DecisionsTold (calendar : Calendar) (s : Snapshot) (e : ExplainProjection) : Prop where
  noLaterFail : ∀ r, IsLatest calendar e.recentEvents isReviewPassEvent r →
    ∀ f ∈ e.recentEvents, isReviewFailEvent f.2.event →
      eventOrder calendar f ≤ eventOrder calendar r
  final : ∀ g, IsLatest calendar e.recentEvents isFinalApprovalEvent g → ActorTold s e g.2
  review : ∀ r, IsLatest calendar e.recentEvents isReviewPassEvent r → ActorTold s e r.2

theorem Outsider.told {s : Snapshot} {e : ExplainProjection} {event : EventRecord}
    (h : Outsider s (explainPanes s e.evidenceDigest) event) : ActorTold s e event where
  pane := by
    intro pane hp hactor
    simp [h.notPane pane hp] at hactor
  builder := by
    intro pane hp hb hactor
    simp [h.notBuilder pane hp hb] at hactor

theorem ActorTold.outsider {s : Snapshot} {e : ExplainProjection} {event : EventRecord}
    (h : ActorTold s e event) (hname : isAnonymous event = false)
    (hprim : namesPrimary e.run event = false) :
    Outsider s (explainPanes s e.evidenceDigest) event where
  named := hname
  roleApart := by
    by_contra hb
    simp only [isBuilder, Bool.not_eq_false] at hb
    simp [namesPrimary, hb] at hprim
  notPane := by
    intro pane hp
    by_contra hactor
    simp [h.pane pane hp (by simpa using hactor)] at hprim
  notBuilder := by
    intro pane hp hb
    by_contra hactor
    simp [h.builder pane hp hb (by simpa using hactor)] at hprim

/-- Without a later failure the latest pass is the latest decision. -/
theorem isLatest_decision_of_pass {calendar : Calendar} {events : List (ℕ × EventRecord)}
    {r : ℕ × EventRecord} (hr : IsLatest calendar events isReviewPassEvent r)
    (hfail : ∀ f ∈ events, isReviewFailEvent f.2.event →
      eventOrder calendar f ≤ eventOrder calendar r) :
    IsLatest calendar events isReviewDecisionEvent r where
  mem := hr.mem
  named := by simp [isReviewDecisionEvent, hr.named]
  last := by
    intro f hf hname
    rcases Bool.or_eq_true_iff.mp hname with hpass | hno
    · exact hr.last f hf hpass
    · exact hfail f hf hno

theorem isLatest_pass_of_decision {calendar : Calendar} {events : List (ℕ × EventRecord)}
    {r : ℕ × EventRecord} (hr : IsLatest calendar events isReviewDecisionEvent r)
    (hpass : isReviewPassEvent r.2.event) : IsLatest calendar events isReviewPassEvent r where
  mem := hr.mem
  named := hpass
  last := fun f hf hname => hr.last f hf (by simp [isReviewDecisionEvent, hname])

theorem recentEvents_nodup (calendar : Calendar) (s : Snapshot) (d : DigestItem) :
    ((recentEvents calendar s d).map Prod.fst).Nodup := by
  have hperm := List.perm_insertionSort
    (fun a b => eventOrder calendar b ≤ eventOrder calendar a)
    (s.numberedEvents.filter fun e => eventMatchesExplainRun e.2 d (explainPanes s d))
  rw [recentEvents, (hperm.map Prod.fst).nodup_iff]
  exact ((List.filter_sublist).map Prod.fst).nodup (numberedEvents_nodup s)

theorem explainProjection_recentEvents {calendar : Calendar} {reader : JsonReader} {s : Snapshot}
    {runId : Text} {e : ExplainProjection}
    (h : explainProjection calendar reader s runId = some e) :
    e.recentEvents = recentEvents calendar s e.evidenceDigest := by
  unfold explainProjection at h
  simp only [Option.bind_eq_bind, Option.bind_eq_some_iff] at h
  obtain ⟨d, -, pane, -, heq⟩ := h
  cases heq
  rfl

/-- An approved enterprise chain means approval by others, just in case it can tell who
issued its decisions and no failure of the review came after its pass. -/
theorem approval_separated_iff (calendar : Calendar) (reader : JsonReader)
    (lowercase : Text → Text) (s : Snapshot) (runId : Text) (e : ExplainProjection)
    (he : explainProjection calendar reader s runId = some e)
    (hchain : runEnterpriseApprovalChainRequired e.run = true)
    (happroved : (e.gates calendar lowercase).auditChain.approval.state = .approved) :
    SeparatelyApproved calendar s e ↔ DecisionsTold calendar s e := by
  obtain ⟨g, r, hc⟩ := exists_chainApproved hchain happroved
  have hnodup : (e.recentEvents.map Prod.fst).Nodup := by
    rw [explainProjection_recentEvents he]
    exact recentEvents_nodup calendar s e.evidenceDigest
  constructor
  · intro h
    obtain ⟨g', hg', -, hgout⟩ := h.final
    obtain ⟨r', hr', hrpass, hrout⟩ := h.review
    obtain rfl : r' = r := (isLatest_pass_of_decision hr' hrpass).unique hnodup hc.review
    obtain rfl : g' = g := hg'.unique hnodup hc.final
    constructor
    · intro p hp f hf hfail
      obtain rfl : p = r' := hp.unique hnodup hc.review
      exact hr'.last f hf (by simp [isReviewDecisionEvent, hfail])
    · intro p hp
      obtain rfl : p = g' := hp.unique hnodup hc.final
      exact hgout.told
    · intro p hp
      obtain rfl : p = r' := hp.unique hnodup hc.review
      exact hrout.told
  · intro h
    constructor
    · refine ⟨g, hc.final, ?_, (h.final g hc.final).outsider hc.finalNamed hc.finalSeparated⟩
      have hname := hc.final.named
      simpa [isFinalApprovalEvent, hc.granted] using hname
    · exact ⟨r, isLatest_decision_of_pass hc.review (h.noLaterFail r hc.review),
        hc.review.named, (h.review r hc.review).outsider hc.reviewNamed hc.reviewSeparated⟩

/-- An event about the task of `builderPane`. -/
def taskEvent (timestamp event : String) (data : List (String × Value)) : EventRecord where
  timestamp := utf8 timestamp
  event := utf8 event
  session := []
  message := []
  label := []
  paneId := []
  role := []
  status := []
  exitReason := []
  source := []
  branch := []
  runId := []
  taskId := []
  headSha := []
  data := .obj ((utf8 "task_id", .str (utf8 "task-1")) ::
    data.map fun field => (utf8 field.1, field.2))

def verifiedEvent : EventRecord :=
  taskEvent "2026-04-23T12:00:01Z" "pipeline.verify.pass"
    [("verification_result", .obj [(utf8 "outcome", .str (utf8 "PASS"))])]

def allowedEvent : EventRecord :=
  taskEvent "2026-04-23T12:00:02Z" "pipeline.security.allowed"
    [("verdict", .str (utf8 "ALLOW"))]

def reviewedEvent : EventRecord :=
  { taskEvent "2026-04-23T12:00:03Z" "operator.review_passed" [] with
    label := utf8 "reviewer-1"
    paneId := utf8 "%7"
    role := utf8 "Reviewer" }

def grantedEvent (label paneId role : String) : EventRecord :=
  { taskEvent "2026-04-23T12:00:04Z" "operator.final_approval_granted" [] with
    label := utf8 label
    paneId := utf8 paneId
    role := utf8 role }

def enterprisePane : Pane :=
  { builderPane with
    reviewState := utf8 "PASS"
    reviewRequired := true
    providerTarget := utf8 "enterprise:codex"
    review_located := by decide }

def enterpriseSibling : Pane :=
  { enterprisePane with
    label := utf8 "builder-2"
    paneId := utf8 "%3"
    paneId_present := siblingPane.paneId_present }

/-- A run of two builders, verified, allowed and reviewed. -/
def enterpriseSnapshot (grant : EventRecord)
    (hgrant : isBlank grant.timestamp = false ∧ isBlank grant.event = false)
    (hsession : isBlank grant.session) : Snapshot where
  sessionName := utf8 "winsmux-orchestra"
  panes := [enterprisePane, enterpriseSibling]
  events := [verifiedEvent, allowedEvent, reviewedEvent, grant]
  panes_distinct := by decide
  events_named := by
    simp only [List.mem_cons, List.not_mem_nil, or_false, forall_eq_or_imp, forall_eq]
    exact ⟨by decide, by decide, by decide, hgrant⟩
  events_session := by
    simp only [List.mem_cons, List.not_mem_nil, or_false, forall_eq_or_imp, forall_eq]
    exact ⟨by decide, by decide, by decide, .inr (.inl hsession)⟩

def operatorApproved : Snapshot :=
  enterpriseSnapshot (grantedEvent "operator" "%9" "Operator") (by decide)
    (by decide)

def builderApproved : Snapshot :=
  enterpriseSnapshot (grantedEvent "builder-2" "%3" "") (by decide) (by decide)

def explained (s : Snapshot) : Option ExplainProjection :=
  explainProjection utcCalendar noDocuments s (utf8 "task:task-1")

theorem isSome_operatorApproved : (explained operatorApproved).isSome := by decide

theorem isSome_builderApproved : (explained builderApproved).isSome := by decide

def operatorView : ExplainProjection := (explained operatorApproved).get isSome_operatorApproved

def builderView : ExplainProjection := (explained builderApproved).get isSome_builderApproved

theorem approval_separated_iff_operator :
    SeparatelyApproved utcCalendar operatorApproved operatorView ↔
      DecisionsTold utcCalendar operatorApproved operatorView :=
  approval_separated_iff utcCalendar noDocuments toAsciiLowercase operatorApproved
    (utf8 "task:task-1") operatorView (Option.some_get isSome_operatorApproved).symm
    (by decide) (by decide)

/-- The second builder of a run grants its final approval, named by label and pane id. -/
theorem builder_approves_itself :
    explained builderApproved = some builderView ∧
      runEnterpriseApprovalChainRequired builderView.run = true ∧
      (builderView.gates utcCalendar toAsciiLowercase).auditChain.approval.state = .approved ∧
      ¬ SeparatelyApproved utcCalendar builderApproved builderView := by
  have hactor : ∀ g ∈ builderView.recentEvents, isFinalApprovalEvent g.2.event →
      (explainPanes builderApproved builderView.evidenceDigest).any (isActor g.2) := by
    decide
  refine ⟨(Option.some_get isSome_builderApproved).symm, by decide, by decide, ?_⟩
  intro h
  obtain ⟨g, hg, -, hout⟩ := h.final
  obtain ⟨pane, hp, hact⟩ := List.any_eq_true.mp (hactor g hg.mem hg.named)
  simp [hout.notPane pane hp] at hact

end Winsmux.Ledger
