import Winsmux.Fallible
import Winsmux.Workflow.WorkflowOrder

/-!
# What a workflow is normalized to

A definition that passes the checks is normalized exactly when it has no cycle and names no dependency
twice. Its order is the least one, whatever the order of the file.
-/
namespace Winsmux.Workflow
open TopologicalOrder Relation

/-- The errors of a graph that does not fit its own counts. -/
def Internal (e : WorkflowError) : Prop := e = .identityChanged ∨ e = .indegreeUnderflow

/-- What the checks in front of the graph let through, but for sets of dependencies. -/
structure Passes (plan : NormalizedWorkspacePlan) (nodes : List WorkflowNodeDefinition) : Prop where
  nodeIds : ∀ node ∈ nodes, requireStableId "node-id" node.nodeId = .ok ()
  paneRefs : ∀ node ∈ nodes, requireStableId "pane-ref" node.paneRef = .ok ()
  dependencies : ∀ node ∈ nodes, ∀ d ∈ node.dependsOn, requireStableId "depends-on" d = .ok ()
  actions : ∀ node ∈ nodes, node.action = "operator-dispatch"
  panes : ∀ node ∈ nodes, node.paneRef ∈ plan.resolvedBindings
  distinct : (nodes.map WorkflowNodeDefinition.nodeId).Nodup
  exist : ∀ node ∈ nodes, ∀ d ∈ node.dependsOn, d ∈ ids nodes

/-- No node names a dependency twice. -/
def Unique (nodes : List WorkflowNodeDefinition) : Prop := ∀ node ∈ nodes, node.dependsOn.Nodup

variable {plan : NormalizedWorkspacePlan} {nodes nodes' definitions out : List WorkflowNodeDefinition}

theorem checkDependencies_eq_ok_iff {nodeId : String} {unique dependencies : List String} :
    checkDependencies nodeId unique dependencies = .ok () ↔
      (∀ d ∈ dependencies, requireStableId "depends-on" d = .ok ()) ∧ nodeId ∉ dependencies ∧
        dependencies.Nodup ∧ ∀ d ∈ dependencies, d ∉ unique := by
  induction dependencies generalizing unique with
  | nil => simp [checkDependencies]
  | cons d dependencies ih =>
    rw [List.forall_mem_cons, List.forall_mem_cons, List.nodup_cons, List.mem_cons]
    simp only [checkDependencies, check_bind_eq_ok, reject_eq_ok_iff, ih, not_or, List.mem_cons]
    constructor
    · rintro ⟨hd, ⟨hself, hnew⟩, hstable, hnot, hnodup, hapart⟩
      exact ⟨⟨hd, hstable⟩, ⟨Ne.symm hself, hnot⟩, ⟨fun hmem => (hapart d hmem).1 rfl, hnodup⟩, hnew,
        fun x hx => (hapart x hx).2⟩
    · rintro ⟨⟨hd, hstable⟩, ⟨hself, hnot⟩, ⟨hfirst, hnodup⟩, hnew, hapart⟩
      refine ⟨hd, ⟨Ne.symm hself, hnew⟩, hstable, hnot, hnodup, fun x hx => ⟨?_, hapart x hx⟩⟩
      rintro rfl
      exact hfirst hx

theorem checkNode_eq_ok_iff {node : WorkflowNodeDefinition} : checkNode plan node = .ok () ↔
    requireStableId "node-id" node.nodeId = .ok () ∧ requireStableId "pane-ref" node.paneRef = .ok () ∧
      node.action = "operator-dispatch" ∧ node.paneRef ∈ plan.resolvedBindings ∧
      (∀ d ∈ node.dependsOn, requireStableId "depends-on" d = .ok ()) ∧ node.nodeId ∉ node.dependsOn ∧
      node.dependsOn.Nodup := by
  simp only [checkNode, check_bind_eq_ok, reject_eq_ok_iff, not_not, checkDependencies_eq_ok_iff,
    List.not_mem_nil, not_false_eq_true, implies_true, and_true]

theorem Passes.checkNode_iff (h : Passes plan nodes) {node : WorkflowNodeDefinition} (hn : node ∈ nodes) :
    checkNode plan node = .ok () ↔ node.nodeId ∉ node.dependsOn ∧ node.dependsOn.Nodup := by
  rw [checkNode_eq_ok_iff]
  constructor
  · rintro ⟨-, -, -, -, -, hself, hnodup⟩
    exact ⟨hself, hnodup⟩
  · rintro ⟨hself, hnodup⟩
    exact ⟨h.nodeIds node hn, h.paneRefs node hn, h.actions node hn, h.panes node hn, h.dependencies node hn,
      hself, hnodup⟩

theorem orderedInsert_append_perm (node : WorkflowNodeDefinition) :
    (definitions.orderedInsert (fun x y => x.nodeId ≤ y.nodeId) node ++ nodes).Perm
      (definitions ++ node :: nodes) :=
  ((List.perm_orderedInsert _ node definitions).append_right nodes).trans List.perm_middle.symm

theorem collectNodes_eq_ok (h : collectNodes plan definitions nodes = .ok out) :
    out.Perm (definitions ++ nodes) ∧ (∀ node ∈ nodes, checkNode plan node = .ok ()) ∧
      ((definitions.map WorkflowNodeDefinition.nodeId).Nodup →
        (out.map WorkflowNodeDefinition.nodeId).Nodup) := by
  induction nodes generalizing definitions with
  | nil =>
    obtain rfl := Except.ok.inj h
    exact ⟨by simp, fun a ha => absurd ha List.not_mem_nil, id⟩
  | cons node nodes ih =>
    rw [collectNodes, check_bind_eq_ok, check_bind_eq_ok] at h
    obtain ⟨hcheck, hnew, h⟩ := h
    obtain ⟨hperm, hchecks, hnodup⟩ := ih h
    refine ⟨hperm.trans (orderedInsert_append_perm node), List.forall_mem_cons.2 ⟨hcheck, hchecks⟩,
      fun hdefinitions => hnodup ?_⟩
    rw [((List.perm_orderedInsert _ node definitions).map _).nodup_iff, List.map_cons, List.nodup_cons]
    refine ⟨fun hmem => reject_eq_ok_iff.1 hnew ?_, hdefinitions⟩
    obtain ⟨other, hother, heq⟩ := List.mem_map.1 hmem
    exact List.any_eq_true.2 ⟨other, hother, decide_eq_true heq⟩

theorem collectNodes_of_checks (definitions : List WorkflowNodeDefinition)
    (hchecks : ∀ node ∈ nodes, checkNode plan node = .ok ())
    (hdistinct : ((definitions ++ nodes).map WorkflowNodeDefinition.nodeId).Nodup) :
    ∃ out, collectNodes plan definitions nodes = .ok out := by
  induction nodes generalizing definitions with
  | nil => exact ⟨definitions, rfl⟩
  | cons node nodes ih =>
    obtain ⟨hcheck, hchecks⟩ := List.forall_mem_cons.1 hchecks
    have hnew : ¬ definitions.any (·.nodeId = node.nodeId) = true := by
      intro hany
      obtain ⟨other, hother, heq⟩ := List.any_eq_true.1 hany
      rw [List.map_append, List.map_cons] at hdistinct
      exact (List.nodup_append.1 hdistinct).2.2 other.nodeId (List.mem_map_of_mem hother) node.nodeId
        List.mem_cons_self (of_decide_eq_true heq)
    have hdistinct' := ((orderedInsert_append_perm node).map WorkflowNodeDefinition.nodeId).nodup_iff.2 hdistinct
    obtain ⟨out, hout⟩ := ih _ hchecks hdistinct'
    refine ⟨out, ?_⟩
    rw [collectNodes, check_bind_eq_ok, check_bind_eq_ok]
    exact ⟨hcheck, reject_eq_ok_iff.2 hnew, hout⟩

theorem checkNodesExist_eq_ok_iff : checkNodesExist definitions = .ok () ↔
    ∀ node ∈ definitions, ∀ d ∈ node.dependsOn, d ∈ ids definitions := by
  simp only [checkNodesExist, forM_eq_ok_iff, reject_eq_ok_iff, not_not, List.any_eq_true, decide_eq_true_eq,
    mem_ids]

theorem graph_of_checks (h : collectNodes plan [] nodes = .ok out) (hexist : checkNodesExist out = .ok ()) :
    Graph out := by
  obtain ⟨hperm, hchecks, hnodup⟩ := collectNodes_eq_ok h
  refine ⟨hnodup List.nodup_nil, fun node hn => ?_, checkNodesExist_eq_ok_iff.1 hexist⟩
  obtain ⟨-, -, -, -, -, -, hunique⟩ := checkNode_eq_ok_iff.1 (hchecks node (hperm.mem_iff.1 hn))
  exact hunique

theorem not_internal_requireStableId (label value : String) : ErrorsIn (¬ Internal ·) (requireStableId label value) :=
  errorsIn_reject (by rintro (h | h) <;> cases h)

theorem not_internal_checkDependencies (nodeId : String) (unique dependencies : List String) :
    ErrorsIn (¬ Internal ·) (checkDependencies nodeId unique dependencies) := by
  induction dependencies generalizing unique with
  | nil => exact errorsIn_ok ()
  | cons d dependencies ih =>
    refine (not_internal_requireStableId _ d).bind fun _ _ => ?_
    refine (errorsIn_reject ?_).bind fun _ _ => ih _
    rintro (h | h) <;> cases h

theorem not_internal_checkNode (node : WorkflowNodeDefinition) : ErrorsIn (¬ Internal ·) (checkNode plan node) := by
  refine (not_internal_requireStableId _ _).bind fun _ _ => ?_
  refine (not_internal_requireStableId _ _).bind fun _ _ => ?_
  refine (errorsIn_reject (by rintro (h | h) <;> cases h)).bind fun _ _ => ?_
  refine (errorsIn_reject (by rintro (h | h) <;> cases h)).bind fun _ _ => ?_
  exact not_internal_checkDependencies _ _ _

theorem not_internal_collectNodes : ErrorsIn (¬ Internal ·) (collectNodes plan definitions nodes) := by
  induction nodes generalizing definitions with
  | nil => exact errorsIn_ok _
  | cons node nodes ih =>
    refine (not_internal_checkNode node).bind fun _ _ => ?_
    exact (errorsIn_reject (by rintro (h | h) <;> cases h)).bind fun _ _ => ih

theorem not_internal_topologicalOrder (h : Graph nodes) : ErrorsIn (¬ Internal ·) (topologicalOrder nodes) := by
  obtain ⟨hacyclic, hcyclic⟩ := topologicalOrder_spec h
  by_cases hc : Acyclic nodes
  · obtain ⟨order, horder, -⟩ := hacyclic hc
    rw [horder]
    exact errorsIn_ok order
  · rw [hcyclic hc]
    exact errorsIn_error (by rintro (h | h) <;> cases h)

theorem not_internal_normalizeDefinition (workflowId runId : String) (definition : WorkflowDefinition) :
    ErrorsIn (¬ Internal ·) (normalizeDefinition plan workflowId runId definition) := by
  refine not_internal_collectNodes.bind fun definitions hcollect => ?_
  refine ErrorsIn.bind ?_ fun _ hexist => ?_
  · refine errorsIn_forM fun node _ => errorsIn_forM fun d _ => errorsIn_reject ?_
    rintro (h | h) <;> cases h
  · exact (not_internal_topologicalOrder (graph_of_checks hcollect hexist)).bind fun _ _ => errorsIn_ok _

/-- A node with its dependencies in another order. -/
structure SameNode (x y : WorkflowNodeDefinition) : Prop where
  nodeId : x.nodeId = y.nodeId
  paneRef : x.paneRef = y.paneRef
  action : x.action = y.action
  dependsOn : x.dependsOn.Perm y.dependsOn

/-- The nodes in another order, and the dependencies of each. -/
def Reordered (nodes nodes' : List WorkflowNodeDefinition) : Prop :=
  ∃ middle, nodes.Perm middle ∧ List.Forall₂ SameNode middle nodes'

namespace Reordered

theorem of_perm (h : nodes.Perm nodes') : Reordered nodes nodes' :=
  ⟨nodes', h, List.forall₂_same.2 fun _ _ => ⟨rfl, rfl, rfl, List.Perm.refl _⟩⟩

theorem perm_ids (h : Reordered nodes nodes') :
    (nodes.map WorkflowNodeDefinition.nodeId).Perm (nodes'.map WorkflowNodeDefinition.nodeId) := by
  obtain ⟨middle, hperm, hsame⟩ := h
  have hids : middle.map WorkflowNodeDefinition.nodeId = nodes'.map WorkflowNodeDefinition.nodeId := by
    rw [← List.forall₂_eq_eq_eq, List.forall₂_map_left_iff, List.forall₂_map_right_iff]
    exact hsame.imp fun _ _ hxy => hxy.nodeId
  exact hids ▸ hperm.map _

theorem exists_left (h : Reordered nodes nodes') {y : WorkflowNodeDefinition} (hy : y ∈ nodes') :
    ∃ x ∈ nodes, SameNode x y := by
  obtain ⟨middle, hperm, hsame⟩ := h
  obtain ⟨i, hi, rfl⟩ := List.getElem_of_mem hy
  have hlen := hsame.length_eq
  exact ⟨middle[i], hperm.mem_iff.2 (List.getElem_mem _), hsame.get (hlen ▸ hi) hi⟩

theorem exists_right (h : Reordered nodes nodes') {x : WorkflowNodeDefinition} (hx : x ∈ nodes) :
    ∃ y ∈ nodes', SameNode x y := by
  obtain ⟨middle, hperm, hsame⟩ := h
  obtain ⟨i, hi, rfl⟩ := List.getElem_of_mem (hperm.mem_iff.1 hx)
  have hlen := hsame.length_eq
  exact ⟨nodes'[i], List.getElem_mem _, hsame.get hi (hlen ▸ hi)⟩

theorem ids_eq (h : Reordered nodes nodes') : ids nodes = ids nodes' := by
  ext id
  exact h.perm_ids.mem_iff

theorem dependsOn_eq (h : Reordered nodes nodes') : DependsOn nodes = DependsOn nodes' := by
  ext d id
  constructor
  · rintro ⟨x, hx, hid, hd⟩
    obtain ⟨y, hy, hxy⟩ := h.exists_right hx
    exact ⟨y, hy, hxy.nodeId ▸ hid, hxy.dependsOn.mem_iff.1 hd⟩
  · rintro ⟨y, hy, hid, hd⟩
    obtain ⟨x, hx, hxy⟩ := h.exists_left hy
    exact ⟨x, hx, hxy.nodeId ▸ hid, hxy.dependsOn.mem_iff.2 hd⟩

theorem unique (h : Reordered nodes nodes') (hu : Unique nodes) : Unique nodes' := by
  intro y hy
  obtain ⟨x, hx, hxy⟩ := h.exists_left hy
  exact hxy.dependsOn.nodup_iff.1 (hu x hx)

theorem acyclic (h : Reordered nodes nodes') (ha : Acyclic nodes) : Acyclic nodes' := by
  unfold Acyclic
  rw [← h.dependsOn_eq]
  exact ha

theorem passes (h : Reordered nodes nodes') (hp : Passes plan nodes) : Passes plan nodes' := by
  have hnode {y : WorkflowNodeDefinition} (hy : y ∈ nodes') := h.exists_left hy
  refine ⟨fun y hy => ?_, fun y hy => ?_, fun y hy d hd => ?_, fun y hy => ?_, fun y hy => ?_,
    h.perm_ids.nodup_iff.1 hp.distinct, fun y hy d hd => ?_⟩
  · obtain ⟨x, hx, hxy⟩ := hnode hy
    exact hxy.nodeId ▸ hp.nodeIds x hx
  · obtain ⟨x, hx, hxy⟩ := hnode hy
    exact hxy.paneRef ▸ hp.paneRefs x hx
  · obtain ⟨x, hx, hxy⟩ := hnode hy
    exact hp.dependencies x hx d (hxy.dependsOn.mem_iff.2 hd)
  · obtain ⟨x, hx, hxy⟩ := hnode hy
    exact hxy.action ▸ hp.actions x hx
  · obtain ⟨x, hx, hxy⟩ := hnode hy
    exact hxy.paneRef ▸ hp.panes x hx
  · obtain ⟨x, hx, hxy⟩ := hnode hy
    exact h.ids_eq ▸ hp.exist x hx d (hxy.dependsOn.mem_iff.2 hd)

end Reordered

theorem mergeSort_eq_of_perm {l l' : List String} (h : l.Perm l') : l.mergeSort = l'.mergeSort := by
  have hsorted (l : List String) : l.mergeSort.Pairwise (· ≤ ·) :=
    (List.pairwise_mergeSort (by simpa using fun a b c => le_trans) (by simpa using le_total) l).imp of_decide_eq_true
  refine List.Perm.eq_of_pairwise (fun a b _ _ => le_antisymm) (hsorted l) (hsorted l') ?_
  exact (List.mergeSort_perm l _).trans (h.trans (List.mergeSort_perm l' _).symm)

theorem normalizedNode_congr {x y : WorkflowNodeDefinition} (h : SameNode x y) (runId : String) :
    normalizedNode plan runId x = normalizedNode plan runId y := by
  rw [normalizedNode, normalizedNode, h.nodeId, h.paneRef, h.action, mergeSort_eq_of_perm h.dependsOn]

/-- The nodes of the result do not depend on the order of the file. -/
theorem normalizedNodes_congr (h : Reordered nodes nodes')
    (hdistinct : (nodes.map WorkflowNodeDefinition.nodeId).Nodup) (runId : String) (order : List String) :
    normalizedNodes plan runId nodes order = normalizedNodes plan runId nodes' order := by
  refine List.filterMap_congr fun id _ => ?_
  by_cases hid : id ∈ ids nodes
  · obtain ⟨x, hx, rfl⟩ := mem_ids.1 hid
    obtain ⟨y, hy, hxy⟩ := h.exists_right hx
    rw [find?_of_mem hdistinct hx, hxy.nodeId, find?_of_mem (h.perm_ids.nodup_iff.1 hdistinct) hy]
    exact normalizedNode_congr hxy runId
  · have hnone {l : List WorkflowNodeDefinition} (hl : id ∉ ids l) : l.find? (·.nodeId = id) = none := by
      refine List.find?_eq_none.2 fun x hx hxid => hl (mem_ids.2 ⟨x, hx, ?_⟩)
      exact of_decide_eq_true hxid
    rw [hnone hid, hnone (h.ids_eq ▸ hid)]

theorem map_filterMap_eq {α β : Type} {f : α → Option β} {g : β → α} {l : List α}
    (h : ∀ a ∈ l, (f a).map g = some a) : (l.filterMap f).map g = l := by
  induction l with
  | nil => rfl
  | cons a l ih =>
    obtain ⟨ha, hl⟩ := List.forall_mem_cons.1 h
    obtain ⟨b, hb, hba⟩ := Option.map_eq_some_iff.1 ha
    rw [List.filterMap_cons_some hb, List.map_cons, ih hl, hba]

/-- Every node of the order is in the result. -/
theorem map_nodeId_normalizedNodes (hp : Passes plan nodes) (runId : String) {order : List String}
    (horder : ∀ id ∈ order, id ∈ ids nodes) :
    (normalizedNodes plan runId nodes order).map NormalizedWorkflowNode.nodeId = order := by
  refine map_filterMap_eq fun id hid => ?_
  obtain ⟨node, hn, rfl⟩ := mem_ids.1 (horder id hid)
  obtain ⟨paneRef, hpane⟩ := Option.isSome_iff_exists.1 (AList.lookup_isSome.2 (hp.panes node hn))
  rw [find?_of_mem hp.distinct hn, Option.bind_some, normalizedNode, hpane]
  rfl

theorem normalizeDefinition_ok {definition : WorkflowDefinition} (hp : Passes plan definition.nodes)
    (ha : Acyclic definition.nodes) (hu : Unique definition.nodes) (workflowId runId : String) :
    ∃ order, Greedy (DependsOn definition.nodes) (ids definition.nodes) order ∧
      Schedule (DependsOn definition.nodes) (ids definition.nodes) order ∧
      normalizeDefinition plan workflowId runId definition = .ok
        ⟨workflowSchemaVersion, workflowId, definition.recipeRef, runId, order,
          normalizedNodes plan runId definition.nodes order⟩ := by
  have hchecks : ∀ node ∈ definition.nodes, checkNode plan node = .ok () := by
    intro node hn
    refine (hp.checkNode_iff hn).2 ⟨fun hself => ?_, hu node hn⟩
    exact ha node.nodeId (TransGen.single ⟨node, hn, rfl, hself⟩)
  obtain ⟨out, hout⟩ := collectNodes_of_checks [] hchecks hp.distinct
  have hr : Reordered definition.nodes out := Reordered.of_perm (collectNodes_eq_ok hout).1.symm
  have hexist : checkNodesExist out = .ok () := checkNodesExist_eq_ok_iff.2 (hr.passes hp).exist
  obtain ⟨order, horder, hgreedy, hschedule⟩ :=
    (topologicalOrder_spec (graph_of_checks hout hexist)).1 (hr.acyclic ha)
  rw [← hr.dependsOn_eq, ← hr.ids_eq] at hgreedy hschedule
  refine ⟨order, hgreedy, hschedule, ?_⟩
  rw [normalizedNodes_congr hr hp.distinct]
  exact bind_eq_ok.2 ⟨out, hout, check_bind_eq_ok.2 ⟨hexist, bind_eq_ok.2 ⟨order, horder, rfl⟩⟩⟩

theorem of_normalizeDefinition {definition : WorkflowDefinition} {workflowId runId : String}
    {w : NormalizedWorkflow} (h : normalizeDefinition plan workflowId runId definition = .ok w) :
    Acyclic definition.nodes ∧ Unique definition.nodes := by
  obtain ⟨out, hout, h⟩ := bind_eq_ok.1 h
  obtain ⟨hexist, h⟩ := check_bind_eq_ok.1 h
  obtain ⟨order, horder, -⟩ := bind_eq_ok.1 h
  have hgraph := graph_of_checks hout hexist
  have hr : Reordered out definition.nodes := Reordered.of_perm (collectNodes_eq_ok hout).1
  refine ⟨hr.acyclic ?_, hr.unique hgraph.unique⟩
  by_contra hcyclic
  rw [(topologicalOrder_spec hgraph).2 hcyclic] at horder
  cases horder

/-- All nodes, each behind its dependencies. -/
def IsOrder (nodes : List WorkflowNodeDefinition) (order : List String) : Prop :=
  order.Perm (nodes.map WorkflowNodeDefinition.nodeId) ∧
    ∀ front id rest, order = front ++ id :: rest → ∀ d, DependsOn nodes d id → d ∈ front

theorem isOrder_iff (hdistinct : (nodes.map WorkflowNodeDefinition.nodeId).Nodup) {order : List String} :
    IsOrder nodes order ↔ Schedule (DependsOn nodes) (ids nodes) order := by
  constructor
  · rintro ⟨hperm, hbehind⟩
    exact ⟨hperm.nodup_iff.2 hdistinct, fun id => hperm.mem_iff, hbehind⟩
  · intro h
    exact ⟨(List.perm_ext_iff_of_nodup h.nodup hdistinct).2 h.mem_iff, h.behind⟩

/-- One definition with its nodes in another order, and the dependencies of each. -/
structure ReorderedDefinition (definition definition' : WorkflowDefinition) : Prop where
  schemaVersion : definition.schemaVersion = definition'.schemaVersion
  recipeRef : definition.recipeRef = definition'.recipeRef
  nodes : Reordered definition.nodes definition'.nodes

/-- A definition that passes the checks is normalized exactly when it has no cycle and names no dependency
twice. The order is the least of all orders, every node is in the result, and nothing of it depends on the
order of the file. The errors of a broken graph do not occur. -/
theorem normalizeWorkflow_spec (fromValue : Yaml → Option WorkflowDefinition) (root : Yaml)
    (workflowId runId : String) (plan : NormalizedWorkspacePlan) (definition : WorkflowDefinition)
    (hload : loadDefinition fromValue root workflowId runId plan = .ok definition)
    (hp : Passes plan definition.nodes) :
    ((∃ w, normalizeWorkflowFromValue fromValue root workflowId runId plan = .ok w) ↔
      Acyclic definition.nodes ∧ Unique definition.nodes) ∧
    (∀ w, normalizeWorkflowFromValue fromValue root workflowId runId plan = .ok w →
      IsOrder definition.nodes w.topologicalOrder ∧
      (∀ order, IsOrder definition.nodes order →
        w.topologicalOrder = order ∨ List.Lex (· < ·) w.topologicalOrder order) ∧
      w.nodes.map NormalizedWorkflowNode.nodeId = w.topologicalOrder ∧
      ∀ root' definition', loadDefinition fromValue root' workflowId runId plan = .ok definition' →
        ReorderedDefinition definition definition' →
        normalizeWorkflowFromValue fromValue root' workflowId runId plan = .ok w) ∧
    ∀ e, normalizeWorkflowFromValue fromValue root workflowId runId plan = .error e → ¬ Internal e := by
  have hnormalize {root : Yaml} {definition : WorkflowDefinition}
      (hload : loadDefinition fromValue root workflowId runId plan = .ok definition) :
      normalizeWorkflowFromValue fromValue root workflowId runId plan =
        normalizeDefinition plan workflowId runId definition := by
    rw [normalizeWorkflowFromValue, hload]
    rfl
  rw [hnormalize hload]
  refine ⟨⟨?_, ?_⟩, fun w hw => ?_, not_internal_normalizeDefinition workflowId runId definition⟩
  · rintro ⟨w, hw⟩
    exact of_normalizeDefinition hw
  · rintro ⟨ha, hu⟩
    obtain ⟨order, -, -, hok⟩ := normalizeDefinition_ok hp ha hu workflowId runId
    exact ⟨_, hok⟩
  · obtain ⟨ha, hu⟩ := of_normalizeDefinition hw
    obtain ⟨order, hgreedy, hschedule, hok⟩ := normalizeDefinition_ok hp ha hu workflowId runId
    obtain rfl := Except.ok.inj (hok.symm.trans hw)
    refine ⟨(isOrder_iff hp.distinct).2 hschedule, fun other hother => ?_, ?_, fun root' definition' hload' hr => ?_⟩
    · exact hgreedy.least hschedule ((isOrder_iff hp.distinct).1 hother)
    · exact map_nodeId_normalizedNodes hp runId fun id hid => (hschedule.mem_iff id).1 hid
    · obtain ⟨order', hgreedy', hschedule', hok'⟩ := normalizeDefinition_ok (hr.nodes.passes hp)
        (hr.nodes.acyclic ha) (hr.nodes.unique hu) workflowId runId
      rw [← hr.nodes.dependsOn_eq, ← hr.nodes.ids_eq] at hgreedy' hschedule'
      rw [hnormalize hload', hok', ← hgreedy.unique hschedule hgreedy' hschedule', ← hr.recipeRef,
        normalizedNodes_congr hr.nodes hp.distinct]

def sampleNode (nodeId : String) (dependsOn : List String) : WorkflowNodeDefinition :=
  ⟨nodeId, "w1", dependsOn, "operator-dispatch"⟩

def sampleDefinition (dependsOn : List String) : WorkflowDefinition :=
  ⟨1, "r", [sampleNode "b" dependsOn, sampleNode "a" []]⟩

def nodeDocument (node : WorkflowNodeDefinition) : Yaml :=
  .mapping [(.string "node-id", .string node.nodeId), (.string "pane-ref", .string node.paneRef),
    (.string "depends-on", .sequence (node.dependsOn.map .string)), (.string "action", .string node.action)]

def definitionDocument (definition : WorkflowDefinition) : Yaml :=
  .mapping [(.string "schema-version", .number "1"), (.string "recipe-ref", .string definition.recipeRef),
    (.string "nodes", .sequence (definition.nodes.map nodeDocument))]

def readText : Yaml → Option String
  | .string s => some s
  | _ => none

def readItems : Yaml → Option (List Yaml)
  | .sequence items => some items
  | _ => none

def readNode (v : Yaml) : Option WorkflowNodeDefinition := do
  let entries ← v.asMapping
  let nodeId ← (Yaml.get "node-id" entries).bind readText
  let paneRef ← (Yaml.get "pane-ref" entries).bind readText
  let dependsOn ← (Yaml.get "depends-on" entries).bind readItems
  let dependsOn ← dependsOn.mapM readText
  let action ← (Yaml.get "action" entries).bind readText
  some ⟨nodeId, paneRef, dependsOn, action⟩

/-- A reader for documents of the first schema that have all their fields. -/
def sampleFromValue (v : Yaml) : Option WorkflowDefinition := do
  let entries ← v.asMapping
  let .number version ← Yaml.get "schema-version" entries | none
  let recipeRef ← (Yaml.get "recipe-ref" entries).bind readText
  let nodes ← (Yaml.get "nodes" entries).bind readItems
  let nodes ← nodes.mapM readNode
  if version = "1" then some ⟨1, recipeRef, nodes⟩ else none

theorem mapM_of_eq {α β : Type} {read : β → Option α} {write : α → β} (h : ∀ a, read (write a) = some a)
    (l : List α) : (l.map write).mapM read = some l := by
  induction l with
  | nil => rfl
  | cons a l ih => simp [h, ih]

theorem readNode_nodeDocument (node : WorkflowNodeDefinition) : readNode (nodeDocument node) = some node := by
  have htexts := mapM_of_eq (fun _ => rfl : ∀ t, readText (.string t) = some t) node.dependsOn
  simp [readNode, nodeDocument, Yaml.asMapping, Yaml.get, readText, readItems, htexts]

theorem sampleFromValue_definitionDocument {definition : WorkflowDefinition} (h : definition.schemaVersion = 1) :
    sampleFromValue (definitionDocument definition) = some definition := by
  have hnodes := mapM_of_eq readNode_nodeDocument definition.nodes
  simp [sampleFromValue, definitionDocument, Yaml.asMapping, Yaml.get, readText, readItems, hnodes, ← h]

def sampleRoot (dependsOn : List String) : Yaml :=
  .mapping [(.string "workflows", .mapping [(.string "w", definitionDocument (sampleDefinition dependsOn))])]

def samplePlan : NormalizedWorkspacePlan := ⟨"r", (∅ : AList fun _ : String => String).insert "w1" "pane-1"⟩

theorem loadDefinition_sample (dependsOn : List String) :
    loadDefinition sampleFromValue (sampleRoot dependsOn) "w" "run" samplePlan =
      .ok (sampleDefinition dependsOn) := by
  have hids : requireStableId "workflow-id" "w" = .ok () ∧ requireStableId "run-id" "run" = .ok () ∧
      requireStableId "recipe-ref" "r" = .ok () := by decide
  obtain ⟨hworkflow, hrun, hrecipe⟩ := hids
  have hread : readDefinition sampleFromValue (sampleRoot dependsOn) "w" = .ok (sampleDefinition dependsOn) := by
    have hvalue := @sampleFromValue_definitionDocument (sampleDefinition dependsOn) rfl
    simp [readDefinition, sampleRoot, Yaml.asMapping, Yaml.get, okOr, hvalue]
  rw [loadDefinition, hworkflow, hrun, hread]
  simp [checkDefinition, reject, sampleDefinition, workflowSchemaVersion, maxWorkflowNodes, samplePlan, hrecipe]

theorem passes_sample {dependsOn : List String} (h : ∀ d ∈ dependsOn, d = "a") :
    Passes samplePlan (sampleDefinition dependsOn).nodes := by
  have hids : requireStableId "node-id" "b" = .ok () ∧ requireStableId "node-id" "a" = .ok () ∧
      requireStableId "pane-ref" "w1" = .ok () ∧ requireStableId "depends-on" "a" = .ok () := by decide
  obtain ⟨hb, ha, hpane, hdependency⟩ := hids
  have hnode {p : WorkflowNodeDefinition → Prop} (hpb : p (sampleNode "b" dependsOn)) (hpa : p (sampleNode "a" [])) :
      ∀ node ∈ (sampleDefinition dependsOn).nodes, p node := by
    simp [sampleDefinition, hpb, hpa]
  have hno {p : String → Prop} : ∀ d ∈ (sampleNode "a" []).dependsOn, p d := fun d hd => absurd hd List.not_mem_nil
  refine ⟨hnode hb ha, hnode hpane hpane, hnode (fun d hd => ?_) hno, hnode rfl rfl, hnode ?_ ?_, ?_,
    hnode (fun d hd => ?_) hno⟩
  · exact h d hd ▸ hdependency
  · exact AList.mem_insert _ |>.2 (.inl rfl)
  · exact AList.mem_insert _ |>.2 (.inl rfl)
  · simp [sampleDefinition, sampleNode]
  · exact mem_ids.2 ⟨sampleNode "a" [], by simp [sampleDefinition], (h d hd).symm⟩

theorem acyclic_sample {dependsOn : List String} (h : ∀ d ∈ dependsOn, d = "a") :
    Acyclic (sampleDefinition dependsOn).nodes := by
  have hedge {d id : String} (hdep : DependsOn (sampleDefinition dependsOn).nodes d id) : d = "a" ∧ id = "b" := by
    obtain ⟨node, hn, rfl, hd⟩ := hdep
    rcases List.mem_pair.1 hn with rfl | rfl
    · exact ⟨h d hd, rfl⟩
    · exact absurd hd List.not_mem_nil
  intro id hcycle
  obtain ⟨_, hfirst, -⟩ := TransGen.head'_iff.1 hcycle
  obtain ⟨_, -, hlast⟩ := TransGen.tail'_iff.1 hcycle
  have hab : "a" = "b" := (hedge hfirst).1.symm.trans (hedge hlast).2
  exact absurd hab (by decide)

theorem normalizeWorkflow_sample : ∃ w,
    normalizeWorkflowFromValue sampleFromValue (sampleRoot ["a"]) "w" "run" samplePlan = .ok w := by
  have hspec := normalizeWorkflow_spec _ _ _ _ _ _ (loadDefinition_sample ["a"]) (passes_sample (by simp))
  refine hspec.1.2 ⟨acyclic_sample (by simp), ?_⟩
  simp [Unique, sampleDefinition, sampleNode]

/-- A dependency that is named twice is refused, though there is no cycle. -/
theorem dependency_twice : ¬ ∀ (fromValue : Yaml → Option WorkflowDefinition) (root : Yaml)
    (workflowId runId : String) (plan : NormalizedWorkspacePlan) (definition : WorkflowDefinition),
    loadDefinition fromValue root workflowId runId plan = .ok definition → Passes plan definition.nodes →
    ((∃ w, normalizeWorkflowFromValue fromValue root workflowId runId plan = .ok w) ↔
      Acyclic definition.nodes) := by
  intro hclaim
  have htwice : ∀ d ∈ ["a", "a"], d = "a" := by simp
  have hload := loadDefinition_sample ["a", "a"]
  obtain ⟨w, hw⟩ := (hclaim _ _ _ _ _ _ hload (passes_sample htwice)).2 (acyclic_sample htwice)
  rw [normalizeWorkflowFromValue, hload, ok_bind] at hw
  have hunique := (of_normalizeDefinition hw).2 (sampleNode "b" ["a", "a"]) List.mem_cons_self
  simp [sampleNode] at hunique

end Winsmux.Workflow
