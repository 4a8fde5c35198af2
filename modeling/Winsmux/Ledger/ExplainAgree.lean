import Winsmux.Ledger.Explain

/-!
# Where the digest and the explain view agree

The digest groups panes by run id and gives each inbox item to the first run it
matches. The explain view takes every pane and every item that matches the entry of
the run. The two agree exactly where no match crosses the border of a run.
-/
namespace Winsmux.Ledger
open Json

/-- The panes of a run, in the order of the manifest. -/
def Snapshot.group (s : Snapshot) (runId : Text) : List Pane :=
  s.panes.filter fun pane => runIdFromPane pane = runId

@[simp] theorem addPane_runId (run : DigestRun) (pane : Pane) :
    (run.addPane pane).item.runId = run.item.runId := rfl

@[simp] theorem addPane_actionItems (run : DigestRun) (pane : Pane) :
    (run.addPane pane).actionItems = run.actionItems := rfl

@[simp] theorem fromPane_runId (pane : Pane) :
    (DigestRun.fromPane pane).item.runId = runIdFromPane pane := rfl

@[simp] theorem fromPane_actionItems (pane : Pane) :
    (DigestRun.fromPane pane).actionItems = [] := rfl

@[simp] theorem addPane_securityBlocked (run : DigestRun) (pane : Pane) :
    (run.addPane pane).item.securityBlocked = run.item.securityBlocked := rfl

@[simp] theorem fromPane_securityBlocked (pane : Pane) :
    (DigestRun.fromPane pane).item.securityBlocked = [] := rfl

/-- What is true of the runs while panes are grouped. -/
structure Grouped (done : List Pane) (runs : List (Text × DigestRun)) : Prop where
  sorted : Sorted runs
  runId : ∀ e ∈ runs, e.2.item.runId = e.1
  idle : ∀ e ∈ runs, e.2.actionItems = [] ∧ e.2.item.securityBlocked = []
  source : ∀ e ∈ runs, ∃ pane ∈ done, runIdFromPane pane = e.1
  covered : ∀ pane ∈ done, ∃ e ∈ runs, e.1 = runIdFromPane pane

/-- A run with the id of the pane takes its place in the map. -/
theorem Grouped.insert {done : List Pane} {runs : List (Text × DigestRun)} (h : Grouped done runs)
    {pane : Pane} {run : DigestRun} (hid : run.item.runId = runIdFromPane pane)
    (hidle : run.actionItems = [] ∧ run.item.securityBlocked = []) :
    Grouped (done ++ [pane]) (insertKey (runIdFromPane pane) run runs) where
  sorted := h.sorted.insertKey
  runId := by
    intro e he
    rcases mem_insertKey he with rfl | he
    · exact hid
    · exact h.runId e he
  idle := by
    intro e he
    rcases mem_insertKey he with rfl | he
    · exact hidle
    · exact h.idle e he
  source := by
    intro e he
    rcases mem_insertKey he with rfl | he
    · exact ⟨pane, by simp, rfl⟩
    · obtain ⟨p, hp, hrun⟩ := h.source e he
      exact ⟨p, by simp [hp], hrun⟩
  covered := by
    intro p hp
    rcases List.mem_append.mp hp with hp | hp
    · obtain ⟨e, he, hk⟩ := h.covered p hp
      obtain ⟨e', he', hk'⟩ : ∃ e' ∈ insertKey (runIdFromPane pane) run runs, e'.1 = e.1 :=
        exists_mem_insertKey he
      exact ⟨e', he', hk'.trans hk⟩
    · obtain rfl : p = pane := by simpa using hp
      exact ⟨_, mem_insertKey_self, rfl⟩

theorem Grouped.groupPane {done : List Pane} {runs : List (Text × DigestRun)}
    (h : Grouped done runs) (pane : Pane) : Grouped (done ++ [pane]) (groupPane runs pane) := by
  unfold Ledger.groupPane
  cases hrun : runs.lookup (runIdFromPane pane) with
  | none =>
    exact h.insert (fromPane_runId pane) ⟨fromPane_actionItems pane, fromPane_securityBlocked pane⟩
  | some run =>
    have hmem := mem_of_lookup hrun
    exact h.insert ((addPane_runId run pane).trans (h.runId _ hmem))
      ⟨(addPane_actionItems run pane).trans (h.idle _ hmem).1,
        (addPane_securityBlocked run pane).trans (h.idle _ hmem).2⟩

theorem Grouped.foldl {done : List Pane} {runs : List (Text × DigestRun)} (h : Grouped done runs)
    (panes : List Pane) : Grouped (done ++ panes) (panes.foldl Ledger.groupPane runs) := by
  induction panes generalizing done runs with
  | nil => simpa using h
  | cons pane panes ih => simpa using ih (h.groupPane pane)

theorem grouped (panes : List Pane) : Grouped panes (panes.foldl groupPane []) := by
  have hnil : Grouped [] [] := ⟨List.Pairwise.nil, by simp, by simp, by simp, by simp⟩
  simpa using hnil.foldl panes

theorem groupedRuns_nodup (panes : List Pane) :
    ((groupedRuns panes).map fun run => run.item.runId).Nodup := by
  have h := grouped panes
  have hkeys : (groupedRuns panes).map (fun run => run.item.runId) =
      (panes.foldl groupPane []).map Prod.fst := by
    rw [groupedRuns, List.map_map]
    exact List.map_congr_left h.runId
  rw [hkeys]
  refine List.Pairwise.map _ (fun d e hlt => ?_) h.sorted
  intro heq
  rw [heq] at hlt
  exact lt_irrefl _ hlt

theorem idle_of_mem_groupedRuns {panes : List Pane} {run : DigestRun}
    (h : run ∈ groupedRuns panes) : run.actionItems = [] ∧ run.item.securityBlocked = [] := by
  obtain ⟨e, he, rfl⟩ := List.mem_map.mp h
  exact (grouped panes).idle e he

theorem exists_pane_of_mem_groupedRuns {panes : List Pane} {run : DigestRun}
    (h : run ∈ groupedRuns panes) : ∃ pane ∈ panes, runIdFromPane pane = run.item.runId := by
  obtain ⟨e, he, rfl⟩ := List.mem_map.mp h
  obtain ⟨pane, hp, hrun⟩ := (grouped panes).source e he
  exact ⟨pane, hp, hrun.trans ((grouped panes).runId e he).symm⟩

/-- Every pane has its run. -/
theorem exists_run_of_pane {panes : List Pane} {pane : Pane} (h : pane ∈ panes) :
    ∃ run ∈ groupedRuns panes, run.item.runId = runIdFromPane pane := by
  obtain ⟨e, he, hk⟩ := (grouped panes).covered pane h
  exact ⟨e.2, List.mem_map_of_mem he, ((grouped panes).runId e he).trans hk⟩

/-- The id of the first run an item matches. -/
def firstRun (runs : List DigestRun) (item : InboxItem) : Option Text :=
  (runs.find? fun run => run.matchesInboxItem item).map fun run => run.item.runId

def DigestRun.push (run : DigestRun) (items : List InboxItem) : DigestRun :=
  { run with actionItems := run.actionItems ++ items }

@[simp] theorem push_nil (run : DigestRun) : run.push [] = run := by simp [DigestRun.push]

theorem push_push (run : DigestRun) (is js : List InboxItem) :
    (run.push is).push js = run.push (is ++ js) := by simp [DigestRun.push]

@[simp] theorem push_item (run : DigestRun) (items : List InboxItem) :
    (run.push items).item = run.item := rfl

@[simp] theorem push_matchesInboxItem (run : DigestRun) (items : List InboxItem)
    (item : InboxItem) : (run.push items).matchesInboxItem item = run.matchesInboxItem item := rfl

@[simp] theorem push_matchesEvent (run : DigestRun) (items : List InboxItem)
    (event : EventRecord) : (run.push items).matchesEvent event = run.matchesEvent event := rfl

theorem firstRun_cons (run : DigestRun) (runs : List DigestRun) (item : InboxItem) :
    firstRun (run :: runs) item =
      if run.matchesInboxItem item then some run.item.runId else firstRun runs item := by
  unfold firstRun
  rw [List.find?_cons]
  by_cases h : run.matchesInboxItem item
  · simp [h]
  · simp [h]

theorem exists_of_firstRun {runs : List DigestRun} {item : InboxItem} {runId : Text}
    (h : firstRun runs item = some runId) : ∃ run ∈ runs, run.item.runId = runId := by
  obtain ⟨run, hrun, hid⟩ := Option.map_eq_some_iff.mp h
  exact ⟨run, List.mem_of_find?_eq_some hrun, hid⟩

/-- What one item adds to a run. -/
def share (runs : List DigestRun) (items : List InboxItem) (run : DigestRun) : DigestRun :=
  run.push (items.filter fun item => firstRun runs item == some run.item.runId)

theorem firstRun_share (runs : List DigestRun) (items : List InboxItem) (item : InboxItem) :
    firstRun (runs.map (share runs items)) item = firstRun runs item := by
  unfold firstRun
  rw [List.find?_map, Option.map_map]
  rfl

theorem assignItem_eq {runs : List DigestRun}
    (h : (runs.map fun run => run.item.runId).Nodup) (item : InboxItem) :
    assignItem runs item = runs.map (share runs [item]) := by
  induction runs with
  | nil => simp [assignItem]
  | cons run runs ih =>
    obtain ⟨hnew, hnd⟩ := List.nodup_cons.mp h
    have hne : ∀ run' ∈ runs, run.item.runId ≠ run'.item.runId := by
      intro run' hmem heq
      exact hnew (List.mem_map.mpr ⟨run', hmem, heq.symm⟩)
    by_cases hm : run.matchesInboxItem item
    · have hrest : runs.map (share (run :: runs) [item]) = runs := by
        refine (List.map_congr_left fun run' hmem => ?_).trans (List.map_id _)
        simp [share, firstRun_cons, hm, hne run' hmem]
      rw [assignItem, if_pos hm, List.map_cons, hrest]
      simp [share, firstRun_cons, hm, DigestRun.push]
    · have hfst : firstRun runs item ≠ some run.item.runId := by
        intro hsome
        obtain ⟨run', hmem, hid⟩ := exists_of_firstRun hsome
        exact hne run' hmem hid.symm
      have hrest : runs.map (share (run :: runs) [item]) = runs.map (share runs [item]) := by
        refine List.map_congr_left fun run' _ => ?_
        simp only [share, List.filter_cons, List.filter_nil, firstRun_cons, if_neg hm]
      rw [assignItem, if_neg hm, List.map_cons, hrest, ih hnd]
      simp only [share, List.filter_cons, List.filter_nil, firstRun_cons, if_neg hm,
        beq_eq_false_iff_ne.mpr hfst, Bool.false_eq_true, if_false, push_nil]

/-- Each run ends up with the items whose first match it is. -/
theorem foldl_assignItem {runs : List DigestRun}
    (h : (runs.map fun run => run.item.runId).Nodup) (items : List InboxItem) :
    items.foldl assignItem runs = runs.map (share runs items) := by
  induction items generalizing runs with
  | nil => exact (List.map_congr_left fun run _ => by simp [share]).trans (List.map_id _) |>.symm
  | cons item items ih =>
    have hids : (runs.map (share runs [item])).map (fun run => run.item.runId) =
        runs.map fun run => run.item.runId := by
      rw [List.map_map]
      rfl
    rw [List.foldl_cons, assignItem_eq h, ih (by rwa [hids]), List.map_map]
    refine List.map_congr_left fun run _ => ?_
    simp only [Function.comp_apply, share, push_item, push_push, List.filter_cons,
      List.filter_nil]
    congr 1
    have hfilter : (items.filter fun i =>
          firstRun (runs.map (share runs [item])) i == some run.item.runId) =
        items.filter fun i => firstRun runs i == some run.item.runId :=
      List.filter_congr fun i _ => by rw [firstRun_share]
    rw [hfilter]
    split_ifs <;> rfl

/-- Events set verdicts and nothing else. -/
structure SameRun (run run' : DigestRun) : Prop where
  runId : run'.item.runId = run.item.runId
  reviewState : run'.item.reviewState = run.item.reviewState
  taskState : run'.item.taskState = run.item.taskState
  actionItems : run'.actionItems = run.actionItems

theorem SameRun.trans {a b c : DigestRun} (h : SameRun a b) (h' : SameRun b c) : SameRun a c where
  runId := h'.runId.trans h.runId
  reviewState := h'.reviewState.trans h.reviewState
  taskState := h'.taskState.trans h.taskState
  actionItems := h'.actionItems.trans h.actionItems

theorem sameRun_applyEvent (run : DigestRun) (event : EventRecord) :
    SameRun run (run.applyEvent event) := by
  unfold DigestRun.applyEvent DigestRun.applyVerdict DigestRun.applyVerification DigestRun.applySecurity
    DigestRun.applyMonitoring DigestRun.applyNotes
  split_ifs
  · split <;> constructor <;> rfl
  · split <;> constructor <;> rfl
  · split <;> constructor <;> rfl
  · constructor <;> rfl

theorem sameRun_foldl (events : List (ℕ × EventRecord)) (run : DigestRun) :
    SameRun run (events.foldl (fun acc e => acc.applyEvent e.2) run) := by
  induction events generalizing run with
  | nil => constructor <;> rfl
  | cons e events ih => exact (sameRun_applyEvent run e.2).trans (ih _)

section
variable (calendar : Calendar) (reader : JsonReader)

/-- The items the digest gives a run. -/
def assignedItems (s : Snapshot) (runId : Text) : List InboxItem :=
  (inboxProjection calendar s).filter fun item => firstRun (groupedRuns s.panes) item == some runId

/-- The entry of a run. -/
def digestEntry (s : Snapshot) (run : DigestRun) : DigestItem :=
  ((run.push (assignedItems calendar s run.item.runId)).applyEvents calendar s).intoItem

theorem digestEntry_runId (s : Snapshot) (run : DigestRun) :
    (digestEntry calendar s run).runId = run.item.runId := (sameRun_foldl _ _).runId

theorem assignedRuns_eq (s : Snapshot) : assignedRuns calendar s =
    (groupedRuns s.panes).map fun run => run.push (assignedItems calendar s run.item.runId) :=
  foldl_assignItem (groupedRuns_nodup s.panes) _

theorem digestProjection_perm (s : Snapshot) :
    (digestProjection calendar s).Perm ((groupedRuns s.panes).map (digestEntry calendar s)) := by
  unfold digestProjection
  rw [assignedRuns_eq, List.map_map]
  exact List.perm_insertionSort _ _

theorem mem_digestProjection {s : Snapshot} {d : DigestItem} :
    d ∈ digestProjection calendar s ↔
      ∃ run ∈ groupedRuns s.panes, digestEntry calendar s run = d := by
  rw [(digestProjection_perm calendar s).mem_iff, List.mem_map]

theorem digestProjection_nodup (s : Snapshot) :
    ((digestProjection calendar s).map fun d => d.runId).Nodup := by
  rw [((digestProjection_perm calendar s).map _).nodup_iff, List.map_map]
  have hids : (groupedRuns s.panes).map ((fun d => d.runId) ∘ digestEntry calendar s) =
      (groupedRuns s.panes).map fun run => run.item.runId :=
    List.map_congr_left fun run _ => digestEntry_runId calendar s run
  rw [hids]
  exact groupedRuns_nodup s.panes

theorem eq_of_runId {s : Snapshot} {d d' : DigestItem} (hd : d ∈ digestProjection calendar s)
    (hd' : d' ∈ digestProjection calendar s) (h : d.runId = d'.runId) : d = d' :=
  List.inj_on_of_nodup_map (digestProjection_nodup calendar s) hd hd' h

/-- The entry of each run is the one that its id finds. -/
theorem find?_digestProjection {s : Snapshot} {d : DigestItem}
    (hd : d ∈ digestProjection calendar s) :
    ((digestProjection calendar s).find? fun item => item.runId = d.runId) = some d := by
  cases hfind : (digestProjection calendar s).find? fun item => item.runId = d.runId with
  | none =>
    have := List.find?_eq_none.mp hfind d hd
    simp at this
  | some d' =>
    have hid : d'.runId = d.runId := by simpa using List.find?_some hfind
    rw [eq_of_runId calendar (List.mem_of_find?_eq_some hfind) hd hid]

/-- An entry counts the items its run was given and chooses among them. -/
theorem actionItemCount_eq {s : Snapshot} {d : DigestItem}
    (hd : d ∈ digestProjection calendar s) :
    d.actionItemCount = (assignedItems calendar s d.runId).length ∧
      d.nextAction =
        runNextAction (assignedItems calendar s d.runId) d.reviewState d.taskState := by
  obtain ⟨run, hrun, rfl⟩ := (mem_digestProjection calendar).mp hd
  have hsame := sameRun_foldl ((run.push (assignedItems calendar s run.item.runId)).events calendar s)
    (run.push (assignedItems calendar s run.item.runId))
  have hitems : ((run.push (assignedItems calendar s run.item.runId)).applyEvents calendar s).actionItems =
      assignedItems calendar s run.item.runId := by
    refine hsame.actionItems.trans ?_
    simp [DigestRun.push, (idle_of_mem_groupedRuns hrun).1]
  rw [digestEntry_runId]
  constructor
  · exact congrArg List.length hitems
  · exact congrArg (fun items => runNextAction items _ _) hitems

/-- A run of the digest has a pane, so the explain view has it. -/
theorem explainPanes_ne_nil {s : Snapshot} {d : DigestItem}
    (hd : d ∈ digestProjection calendar s) : explainPanes s d ≠ [] := by
  obtain ⟨run, hrun, rfl⟩ := (mem_digestProjection calendar).mp hd
  obtain ⟨pane, hp, hid⟩ := exists_pane_of_mem_groupedRuns hrun
  apply List.ne_nil_of_mem (a := pane)
  rw [explainPanes, List.mem_insertionSort]
  apply List.mem_filter.mpr
  refine ⟨hp, ?_⟩
  simp [paneMatchesDigestItem, digestEntry_runId, hid]

theorem exists_explainProjection {s : Snapshot} {d : DigestItem}
    (hd : d ∈ digestProjection calendar s) :
    ∃ pane ∈ explainPanes s d, explainProjection calendar reader s d.runId =
      some ⟨explainRun calendar reader s d pane, d, recentEvents calendar s d⟩ := by
  obtain ⟨pane, panes, heq⟩ := List.exists_cons_of_ne_nil (explainPanes_ne_nil calendar hd)
  refine ⟨pane, by simp [heq], ?_⟩
  unfold explainProjection
  rw [find?_digestProjection calendar hd]
  simp [heq]

/-- The two views of a run say the same. -/
structure ViewsAgree (s : Snapshot) (d : DigestItem) (run : ExplainRun) : Prop where
  paneCount : run.paneCount = (s.group d.runId).length
  labels : run.labels = orDigest (uniqueSorted ((s.group d.runId).map Pane.label)) d.label
  paneIds : run.paneIds = orDigest (uniqueSorted ((s.group d.runId).map Pane.paneId)) d.paneId
  items : explainInboxItems calendar s d = assignedItems calendar s d.runId
  itemCount : run.actionItems.length = d.actionItemCount
  nextAction : d.nextAction =
    runNextAction (explainInboxItems calendar s d) d.reviewState d.taskState

/-- No match crosses the border of the run: a pane that matches its entry has its run id,
and an inbox item matches it just in case the run is the first one the item matches. -/
structure RunApart (s : Snapshot) (d : DigestItem) : Prop where
  panes : ∀ pane ∈ s.panes, paneMatchesDigestItem pane d → runIdFromPane pane = d.runId
  items : ∀ item ∈ inboxProjection calendar s,
    inboxItemMatchesExplainRun item d (s.group d.runId) ↔
      firstRun (groupedRuns s.panes) item = some d.runId

/-- Sorting by a key sorts. -/
theorem pairwise_insertionSort_key {α κ : Type*} [LinearOrder κ] (key : α → κ) (l : List α) :
    (l.insertionSort fun a b => key a ≤ key b).Pairwise fun a b => key a ≤ key b := by
  have : Std.Total fun a b => key a ≤ key b := ⟨fun a b => le_total (key a) (key b)⟩
  have : IsTrans α fun a b => key a ≤ key b := ⟨fun a b c => le_trans⟩
  exact List.pairwise_insertionSort _ l

theorem uniqueSorted_perm {as bs : List Text} (h : as.Perm bs) :
    uniqueSorted as = uniqueSorted bs := by
  unfold uniqueSorted
  apply List.Perm.eq_of_pairwise _ (pairwise_insertionSort_key rank _)
    (pairwise_insertionSort_key rank _)
  · exact ((List.perm_insertionSort _ _).trans ((h.filter _).dedup)).trans
      (List.perm_insertionSort _ _).symm
  · intro a b _ _ hab hba
    exact rank_injective (le_antisymm hab hba)

variable {calendar} {s : Snapshot} {d : DigestItem}

/-- The panes of a run belong to its explain view. -/
theorem group_sublist (s : Snapshot) (d : DigestItem) :
    (s.group d.runId).Sublist (s.panes.filter fun pane => paneMatchesDigestItem pane d) := by
  refine List.monotone_filter_right _ fun pane hp => ?_
  have hid : runIdFromPane pane = d.runId := by simpa using hp
  simp [paneMatchesDigestItem, hid]

theorem explainPanes_length (s : Snapshot) (d : DigestItem) :
    (explainPanes s d).length = (s.panes.filter fun pane => paneMatchesDigestItem pane d).length :=
  List.length_insertionSort _ _

/-- As many panes means the same panes. -/
theorem explainPanes_perm_iff :
    (explainPanes s d).Perm (s.group d.runId) ↔
      ∀ pane ∈ s.panes, paneMatchesDigestItem pane d → runIdFromPane pane = d.runId := by
  constructor
  · intro h pane hp hm
    have hmem : pane ∈ explainPanes s d := by
      rw [explainPanes, List.mem_insertionSort]
      exact List.mem_filter.mpr ⟨hp, hm⟩
    simpa using (List.mem_filter.mp (h.mem_iff.mp hmem)).2
  · intro h
    refine (List.perm_insertionSort _ _).trans (List.Perm.of_eq (List.filter_congr ?_))
    intro pane hp
    have hmem := h pane hp
    by_cases hid : runIdFromPane pane = d.runId
    · simp [paneMatchesDigestItem, hid]
    · have hno : paneMatchesDigestItem pane d = false := by
        by_contra hm
        exact hid (hmem (by simpa using hm))
      simp [hno, hid]

theorem perm_of_length_eq (h : (explainPanes s d).length = (s.group d.runId).length) :
    (explainPanes s d).Perm (s.group d.runId) := by
  rw [explainPanes_length] at h
  have heq := (group_sublist s d).eq_of_length h.symm
  rw [heq]
  exact List.perm_insertionSort _ _

theorem inboxItemMatchesExplainRun_perm {item : InboxItem} {ps qs : List Pane} (h : ps.Perm qs) :
    inboxItemMatchesExplainRun item d ps = inboxItemMatchesExplainRun item d qs := by
  have hany : ∀ p : Pane → Bool, ps.any p = qs.any p := by
    intro p
    rw [Bool.eq_iff_iff, List.any_eq_true, List.any_eq_true]
    simp only [h.mem_iff]
  unfold inboxItemMatchesExplainRun
  rw [hany]

/-- Two choices from one list agree just in case they choose alike. -/
theorem filter_eq_filter_iff {α : Type*} {p q : α → Bool} {l : List α} :
    l.filter p = l.filter q ↔ ∀ a ∈ l, p a ↔ q a := by
  constructor
  · intro h a ha
    have hmem : a ∈ l.filter p ↔ a ∈ l.filter q := by rw [h]
    simpa [List.mem_filter, ha] using hmem
  · intro h
    exact List.filter_congr fun a ha => Bool.eq_iff_iff.mpr (h a ha)

theorem explainInboxItems_eq_iff (h : (explainPanes s d).Perm (s.group d.runId)) :
    explainInboxItems calendar s d = assignedItems calendar s d.runId ↔
      ∀ item ∈ inboxProjection calendar s,
        inboxItemMatchesExplainRun item d (s.group d.runId) ↔
          firstRun (groupedRuns s.panes) item = some d.runId := by
  unfold explainInboxItems assignedItems
  rw [filter_eq_filter_iff]
  simp only [inboxItemMatchesExplainRun_perm h, beq_iff_eq]

theorem viewsAgree_iff (hd : d ∈ digestProjection calendar s) (primaryPane : Pane) :
    ViewsAgree calendar s d (explainRun calendar reader s d primaryPane) ↔
      RunApart calendar s d := by
  obtain ⟨hcount, hnext⟩ := actionItemCount_eq calendar hd
  constructor
  · intro h
    have hperm := perm_of_length_eq h.paneCount
    exact ⟨explainPanes_perm_iff.mp hperm, (explainInboxItems_eq_iff hperm).mp h.items⟩
  · intro h
    have hperm := explainPanes_perm_iff.mpr h.panes
    have hitems := (explainInboxItems_eq_iff hperm).mpr h.items
    constructor
    · exact hperm.length_eq
    · exact congrArg (orDigest · d.label) (uniqueSorted_perm (hperm.map _))
    · exact congrArg (orDigest · d.paneId) (uniqueSorted_perm (hperm.map _))
    · exact hitems
    · simp only [explainRun, List.length_map, hitems, hcount]
    · rw [hitems]
      exact hnext

/-- Every pane is in one run of the digest, every run has its explain view, and the two
views of a run agree just in case the run stands apart. -/
theorem digest_explain_agree_iff (calendar : Calendar) (reader : JsonReader) (s : Snapshot) :
    (∀ pane ∈ s.panes, ∃! d, d ∈ digestProjection calendar s ∧ d.runId = runIdFromPane pane) ∧
      ∀ d ∈ digestProjection calendar s, ∃ e,
        explainProjection calendar reader s d.runId = some e ∧ e.evidenceDigest = d ∧
          (ViewsAgree calendar s d e.run ↔ RunApart calendar s d) := by
  constructor
  · intro pane hp
    obtain ⟨run, hrun, hid⟩ := exists_run_of_pane hp
    have hmem : digestEntry calendar s run ∈ digestProjection calendar s :=
      (mem_digestProjection calendar).mpr ⟨run, hrun, rfl⟩
    have hruns : (digestEntry calendar s run).runId = runIdFromPane pane :=
      (digestEntry_runId calendar s run).trans hid
    refine ⟨_, ⟨hmem, hruns⟩, ?_⟩
    intro d' hd'
    exact eq_of_runId calendar hd'.1 hmem (hd'.2.trans hruns.symm)
  · intro d hd
    obtain ⟨pane, -, heq⟩ := exists_explainProjection calendar reader hd
    exact ⟨_, heq, rfl, viewsAgree_iff reader hd pane⟩

end

/-- Whether a text has the form of a time of whole seconds in UTC. -/
def isUtcSeconds (t : Text) : Bool :=
  let form := utf8 "0000-00-00T00:00:00Z"
  t.length = form.length && (t.zip form).all fun p => if p.2 = 0x30 then isDigit p.1 else p.1 = p.2

/-- A calendar for such times: they are shown as they are, and ordered by their nanoseconds. -/
def utcCalendar : Calendar where
  sortKey t := if isUtcSeconds t then t.dropLast ++ utf8 ".000000000Z" else t
  text t := t

/-- A reader for snapshots without documents. -/
def noDocuments : JsonReader := ⟨fun _ => none, fun _ => rfl⟩

def builderPane : Pane where
  label := utf8 "builder-1"
  paneId := utf8 "%2"
  role := utf8 "Builder"
  state := utf8 "busy"
  taskId := utf8 "task-1"
  goal := []
  task := utf8 "Parser"
  taskType := []
  taskState := utf8 "in_progress"
  reviewState := []
  branch := utf8 "worktree-builder-1"
  securityPolicy := []
  worktree := []
  headSha := utf8 "c0ffee"
  changedFileCount := 0
  changedFiles := []
  verificationPlan := []
  reviewRequired := false
  providerTarget := []
  lastEvent := []
  lastEventAt := []
  paneId_present := by decide
  role_present := by decide
  review_located := by decide
  changes_listed := by decide
  event_dated := by decide
  planned := by decide

def siblingPane : Pane :=
  { builderPane with
    label := utf8 "builder-2"
    paneId := utf8 "%3"
    taskId := utf8 "task-2"
    task := utf8 "Printer"
    branch := utf8 "worktree-builder-2"
    paneId_present := by decide
    review_located := by decide }

def siblingSnapshot : Snapshot where
  sessionName := utf8 "winsmux-orchestra"
  panes := [builderPane, siblingPane]
  events := []
  panes_distinct := by decide
  events_named := by simp
  events_session := by simp

/-- Two tasks on one commit: the digest counts one pane for each run, the explain view two. -/
theorem sibling_panes_counted_twice :
    ¬ ∀ d ∈ digestProjection utcCalendar siblingSnapshot,
      (explainProjection utcCalendar noDocuments siblingSnapshot d.runId).map
        (fun e => e.run.paneCount) = some (siblingSnapshot.group d.runId).length := by
  decide

end Winsmux.Ledger
