import Winsmux.Ledger.EventTimeViews

/-!
# Projections follow the time of events

The projections are the same for every order of the log, and the digest lists its runs by
instants, just in case each event the inbox acts on stands alone and the times of the runs
compare as texts the way they do as instants.
-/
namespace Winsmux.Ledger
open Json

theorem setIfEmpty_self (t : Text) : setIfEmpty t t = t := by
  unfold setIfEmpty
  split <;> rfl

theorem runLastEventAt_append {group : List Pane} (h : group ≠ []) (pane : Pane) :
    runLastEventAt (group ++ [pane]) = setIfEmpty (runLastEventAt group) pane.lastEventAt := by
  cases group with
  | nil => contradiction
  | cons first rest =>
    show (rest ++ [pane]).foldl _ _ = _
    rw [List.foldl_append]
    rfl

theorem lastEventAt_of_lookup {panes : List Pane} {runId : Text} {run : DigestRun}
    (h : (panes.foldl groupPane []).lookup runId = some run) :
    run.item.lastEventAt = runLastEventAt (panes.filter fun pane => runIdFromPane pane = runId) := by
  induction panes using List.reverseRecOn generalizing run with
  | nil => cases h
  | append_singleton panes pane ih =>
    rw [List.foldl_append, List.foldl_cons, List.foldl_nil, groupPane] at h
    rw [List.filter_append]
    by_cases hid : runIdFromPane pane = runId
    · have hlast : [pane].filter (fun pane => decide (runIdFromPane pane = runId)) = [pane] := by simp [hid]
      rw [hlast]
      cases hl : (panes.foldl groupPane []).lookup (runIdFromPane pane) with
      | none =>
        rw [hl] at h
        simp only [hid, lookup_insertKey_self] at h
        have hnone : (panes.filter fun pane => decide (runIdFromPane pane = runId)) = [] := by
          refine List.filter_eq_nil_iff.mpr fun p hp hk => ?_
          obtain ⟨e, he, hkey⟩ := (grouped panes).covered p hp
          have hkey : e.1 = runIdFromPane pane := by simp_all
          have := List.lookup_eq_none_iff.mp hl e he
          simp [hkey] at this
        rw [hnone, ← Option.some.inj h]
        exact setIfEmpty_self _
      | some run₀ =>
        rw [hl] at h
        simp only [hid, lookup_insertKey_self] at h
        obtain ⟨p, hp, hk⟩ := (grouped panes).source _ (mem_of_lookup hl)
        have hne : (panes.filter fun pane => decide (runIdFromPane pane = runId)) ≠ [] :=
          List.ne_nil_of_mem (List.mem_filter.mpr ⟨hp, by simpa [hid] using hk⟩)
        rw [runLastEventAt_append hne, ← ih (hid ▸ hl), ← Option.some.inj h]
        rfl
    · have hlast : [pane].filter (fun pane => decide (runIdFromPane pane = runId)) = [] := by simp [hid]
      rw [hlast, List.append_nil]
      refine ih ?_
      split at h <;> rwa [lookup_insertKey_ne (Ne.symm hid)] at h

theorem lastEventAt_of_mem_groupedRuns {s : Snapshot} {run : DigestRun} (h : run ∈ groupedRuns s.panes) :
    run.item.lastEventAt = runLastEventAt (s.group run.item.runId) := by
  obtain ⟨e, he, rfl⟩ := List.mem_map.mp h
  rw [(grouped s.panes).runId e he]
  exact lastEventAt_of_lookup ((grouped s.panes).sorted.lookup_of_mem he)

/-- Events leave the time of the run. -/
theorem applyEvent_lastEventAt (run : DigestRun) (event : EventRecord) :
    (run.applyEvent event).item.lastEventAt = run.item.lastEventAt := by
  unfold DigestRun.applyEvent DigestRun.applyVerdict DigestRun.applyVerification DigestRun.applySecurity
    DigestRun.applyMonitoring
  split_ifs
  · split <;> rfl
  · split <;> rfl
  · split <;> rfl
  · rfl

theorem foldl_applyEvent_lastEventAt (events : List (ℕ × EventRecord)) (run : DigestRun) :
    (events.foldl (fun acc e => acc.applyEvent e.2) run).item.lastEventAt = run.item.lastEventAt := by
  induction events generalizing run with
  | nil => rfl
  | cons e events ih => exact (ih _).trans (applyEvent_lastEventAt run e.2)

/-- An entry of the digest has the time of its panes. -/
theorem exists_pane_of_mem_digestProjection {calendar : Calendar} {s : Snapshot} {d : DigestItem}
    (h : d ∈ digestProjection calendar s) :
    ∃ pane ∈ s.panes, runIdFromPane pane = d.runId ∧ d.lastEventAt = runLastEventAt (s.group (runIdFromPane pane)) := by
  obtain ⟨run, hrun, rfl⟩ := (mem_digestProjection calendar).mp h
  obtain ⟨pane, hp, hid⟩ := exists_pane_of_mem_groupedRuns hrun
  refine ⟨pane, hp, hid.trans (digestEntry_runId calendar s run).symm, ?_⟩
  rw [hid, ← lastEventAt_of_mem_groupedRuns hrun]
  exact foldl_applyEvent_lastEventAt _ _

theorem exists_mem_digestProjection {calendar : Calendar} {s : Snapshot} {pane : Pane} (h : pane ∈ s.panes) :
    ∃ d ∈ digestProjection calendar s, d.lastEventAt = runLastEventAt (s.group (runIdFromPane pane)) := by
  obtain ⟨run, hrun, hid⟩ := exists_run_of_pane h
  refine ⟨digestEntry calendar s run, (mem_digestProjection calendar).mpr ⟨run, hrun, rfl⟩, ?_⟩
  rw [← hid, ← lastEventAt_of_mem_groupedRuns hrun]
  exact foldl_applyEvent_lastEventAt _ _

/-- Later texts stand first in the digest. -/
theorem pairwise_digestProjection (calendar : Calendar) (s : Snapshot) :
    (digestProjection calendar s).Pairwise fun d d' => rank d'.lastEventAt ≤ rank d.lastEventAt := by
  refine (pairwise_insertionSort_key digestOrder _).imp fun h => ?_
  exact (Prod.Lex.le_iff.mp h).elim (fun h => le_of_lt h) fun h => le_of_eq (congrArg OrderDual.ofDual h.1).symm

/-- Of two entries of a list one stands before the other. -/
theorem rel_or_of_pairwise {α : Type*} {R : α → α → Prop} {l : List α} (h : l.Pairwise R) {a b : α} (ha : a ∈ l)
    (hb : b ∈ l) (hne : a ≠ b) : R a b ∨ R b a := by
  induction l with
  | nil => cases ha
  | cons c l ih =>
    obtain ⟨hc, hl⟩ := List.pairwise_cons.mp h
    rcases List.mem_cons.mp ha with rfl | ha' <;> rcases List.mem_cons.mp hb with rfl | hb'
    · exact absurd rfl hne
    · exact .inl (hc b hb')
    · exact .inr (hc a ha')
    · exact ih hl ha' hb'

/-- The digest is listed by instants just in case the texts of its times compare like them. -/
theorem listedByInstant_iff {τ : Type} [PartialOrder τ] (clock : Clock τ) (calendar : Calendar) (s : Snapshot) :
    ListedByInstant clock (digestProjection calendar s) ↔ TextsByInstant clock s := by
  constructor
  · intro h pane hp pane' hp' i hi i' hi' hlt
    obtain ⟨d, hd, htime⟩ := @exists_mem_digestProjection calendar _ _ hp
    obtain ⟨d', hd', htime'⟩ := @exists_mem_digestProjection calendar _ _ hp'
    have hboth := (pairwise_digestProjection calendar s).and h
    have hne : d' ≠ d := by
      rintro rfl
      rw [← htime, ← htime'] at hlt
      exact lt_irrefl _ hlt
    rw [← htime] at hi hlt
    rw [← htime'] at hi' hlt
    rcases rel_or_of_pairwise hboth hd' hd hne with ⟨-, hle⟩ | ⟨hle, -⟩
    · exact hle i' hi' i hi
    · exact absurd hlt (not_lt.mpr hle)
  · intro h
    refine (pairwise_digestProjection calendar s).imp_of_mem fun {d d'} hd hd' hle i hi i' hi' => ?_
    obtain ⟨pane, hp, -, htime⟩ := exists_pane_of_mem_digestProjection hd
    obtain ⟨pane', hp', -, htime'⟩ := exists_pane_of_mem_digestProjection hd'
    rcases hle.eq_or_lt with heq | hlt
    · rw [rank_injective heq] at hi'
      exact (Option.some.inj (hi'.symm.trans hi)).le
    · rw [htime, htime'] at hlt
      exact h pane' hp' pane hp i' (htime' ▸ hi') i (htime ▸ hi) hlt

/-- Of a log with dated events every order gives the same projections, and the digest lists
its runs by instants, just in case each event that the inbox acts on has its entity and key
for itself, and the times of the runs compare as texts the way they do as instants. -/
theorem projections_follow_time_iff {τ : Type} [PartialOrder τ] (clock : Clock τ) (reader : JsonReader)
    (lowercase : Text → Text) (s : Snapshot) (hdated : Dated clock s.events) :
    (∀ s', Reordered s s' → SameProjections clock reader lowercase s s') ∧
        ListedByInstant clock (digestProjection clock.calendar s) ↔
      SingleVoiced s.events ∧ TextsByInstant clock s := by
  rw [listedByInstant_iff, ← inbox_reordered_iff hdated]
  exact and_congr_left fun _ => forall_congr' fun s' =>
    forall_congr' fun hr => sameProjections_iff hdated hr reader lowercase

/-- The instants of a few timestamps. -/
def sampleClock : Clock Bool where
  parse t :=
    if t = utf8 "2026-07-01T00:00:00Z" ∨ t = utf8 "2026-07-01T09:00:00+09:00" then some false
    else if t = utf8 "2026-07-01T00:01:00Z" then some true
    else none
  nanos later :=
    if later then utf8 "2026-07-01T00:01:00.000000000Z" else utf8 "2026-07-01T00:00:00.000000000Z"
  seconds later := if later then utf8 "2026-07-01T00:01:00Z" else utf8 "2026-07-01T00:00:00Z"
  nanos_injective := by decide

def paneEvent (timestamp event paneId : String) : EventRecord where
  timestamp := utf8 timestamp
  event := utf8 event
  session := []
  message := []
  label := []
  paneId := utf8 paneId
  role := []
  status := []
  exitReason := []
  source := []
  branch := []
  runId := []
  taskId := []
  headSha := []
  data := .null

/-- The builder's pane waits for an approval. -/
def waitingEvent : EventRecord := paneEvent "2026-07-01T00:00:00Z" "approval_waiting" "%2"

/-- A minute later a pane is idle. -/
def idleEvent (paneId : String) : EventRecord := paneEvent "2026-07-01T00:01:00Z" "pane.idle" paneId

/-- Two panes and a log of these events. -/
def paneSnapshot (builderAt siblingAt : String) (events : List EventRecord)
    (h : ∀ e ∈ events, isBlank e.timestamp = false ∧ isBlank e.event = false ∧ isBlank e.session = true)
    (hat : isBlank (utf8 builderAt) = false ∧ isBlank (utf8 siblingAt) = false) : Snapshot where
  sessionName := utf8 "winsmux-orchestra"
  panes := [{ builderPane with lastEventAt := utf8 builderAt, event_dated := fun _ => hat.1 },
    { siblingPane with lastEventAt := utf8 siblingAt, event_dated := fun _ => hat.2 }]
  events := events
  panes_distinct := by
    show [trim builderPane.paneId, trim siblingPane.paneId].Nodup
    decide
  events_named e he := ⟨(h e he).1, (h e he).2.1⟩
  events_session e he := .inr (.inl (h e he).2.2)

/-- Each pane has one event, and the runs their times in UTC. -/
def apartSnapshot : Snapshot :=
  paneSnapshot "2026-07-01T00:00:00Z" "2026-07-01T00:01:00Z" [waitingEvent, idleEvent "%3"] (by decide)
    (by decide)

theorem singleVoiced_apart : SingleVoiced apartSnapshot.events := by
  intro e he f hf hne item hitem
  have hkeys : ∀ item ∈ InboxItem.fromEvent waitingEvent, ∀ item' ∈ InboxItem.fromEvent (idleEvent "%3"),
      inboxItemKey item ≠ inboxItemKey item' := by decide
  have hentities : inboxEventEntityKey waitingEvent ≠ inboxEventEntityKey (idleEvent "%3") := by decide
  obtain rfl | rfl : e = waitingEvent ∨ e = idleEvent "%3" := by simpa [apartSnapshot, paneSnapshot] using he
  · obtain rfl | rfl : f = waitingEvent ∨ f = idleEvent "%3" := by simpa [apartSnapshot, paneSnapshot] using hf
    · exact absurd rfl hne
    · exact ⟨hentities, hkeys item hitem⟩
  · obtain rfl | rfl : f = waitingEvent ∨ f = idleEvent "%3" := by simpa [apartSnapshot, paneSnapshot] using hf
    · exact ⟨hentities.symm, fun item' hitem' => (hkeys item' hitem' item hitem).symm⟩
    · exact absurd rfl hne

theorem projections_follow_time_iff_apart :
    (∀ s', Reordered apartSnapshot s' → SameProjections sampleClock noDocuments id apartSnapshot s') ∧
      ListedByInstant sampleClock (digestProjection sampleClock.calendar apartSnapshot) :=
  (projections_follow_time_iff sampleClock noDocuments id apartSnapshot
    ⟨by decide, by decide⟩).mpr ⟨singleVoiced_apart, by unfold TextsByInstant; decide⟩

/-- Both events are about the builder's pane, and the builder's clock is nine hours ahead. -/
def mixedSnapshot (events : List EventRecord)
    (h : ∀ e ∈ events, isBlank e.timestamp = false ∧ isBlank e.event = false ∧ isBlank e.session = true) : Snapshot :=
  paneSnapshot "2026-07-01T09:00:00+09:00" "2026-07-01T00:01:00Z" events h (by decide)

/-- The last line decides, also where its event is the older one; and the run with the
earlier time stands first where its text is the greater one. -/
theorem projections_follow_the_file :
    Reordered (mixedSnapshot [waitingEvent, idleEvent "%2"] (by decide))
        (mixedSnapshot [idleEvent "%2", waitingEvent] (by decide)) ∧
      Dated sampleClock [waitingEvent, idleEvent "%2"] ∧
      (inboxProjection sampleClock.calendar (mixedSnapshot [waitingEvent, idleEvent "%2"] (by decide))).map
        InboxItem.kind = [.dispatchNeeded] ∧
      (inboxProjection sampleClock.calendar (mixedSnapshot [idleEvent "%2", waitingEvent] (by decide))).map
        InboxItem.kind = [.approvalWaiting] ∧
      ¬ ListedByInstant sampleClock (digestProjection sampleClock.calendar
        (mixedSnapshot [waitingEvent, idleEvent "%2"] (by decide))) := by
  refine ⟨⟨rfl, rfl, .swap ..⟩, ⟨by decide, by decide⟩, by decide, by decide, ?_⟩
  unfold ListedByInstant
  decide

end Winsmux.Ledger
