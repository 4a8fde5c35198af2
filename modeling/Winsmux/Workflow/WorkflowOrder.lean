import Winsmux.KeyedFold
import Winsmux.TopologicalOrder
import Winsmux.Workflow.Workflow

/-!
# The order of a workflow

The loop takes the least node that is ready. The degree that is kept of a node is the number of its
dependencies not yet taken, so the loop has no error, and what it takes is greedy.
-/
namespace Winsmux.Workflow
open TopologicalOrder Relation

def DependsOn (nodes : List WorkflowNodeDefinition) (dependency id : String) : Prop :=
  ∃ node ∈ nodes, node.nodeId = id ∧ dependency ∈ node.dependsOn

def ids (nodes : List WorkflowNodeDefinition) : Set String :=
  {id | id ∈ nodes.map WorkflowNodeDefinition.nodeId}

def Acyclic (nodes : List WorkflowNodeDefinition) : Prop := ∀ id, ¬ TransGen (DependsOn nodes) id id

/-- Ids are distinct, no node names a dependency twice, and dependencies are nodes. -/
structure Graph (nodes : List WorkflowNodeDefinition) : Prop where
  distinct : (nodes.map WorkflowNodeDefinition.nodeId).Nodup
  unique : ∀ node ∈ nodes, node.dependsOn.Nodup
  exist : ∀ node ∈ nodes, ∀ d ∈ node.dependsOn, d ∈ ids nodes

variable {nodes : List WorkflowNodeDefinition}

theorem mem_ids {id : String} : id ∈ ids nodes ↔ ∃ node ∈ nodes, node.nodeId = id := List.mem_map

theorem DependsOn.mem_ids {d id : String} (h : DependsOn nodes d id) : id ∈ ids nodes := by
  obtain ⟨node, hn, hid, -⟩ := h
  exact Workflow.mem_ids.2 ⟨node, hn, hid⟩

namespace Graph

theorem eq_of_id (h : Graph nodes) {x y : WorkflowNodeDefinition} (hx : x ∈ nodes) (hy : y ∈ nodes)
    (heq : x.nodeId = y.nodeId) : x = y := List.inj_on_of_nodup_map h.distinct hx hy heq

theorem dependsOn_iff (h : Graph nodes) {node : WorkflowNodeDefinition} (hn : node ∈ nodes) {d : String} :
    DependsOn nodes d node.nodeId ↔ d ∈ node.dependsOn := by
  constructor
  · rintro ⟨other, ho, heq, hd⟩
    rwa [h.eq_of_id ho hn heq] at hd
  · exact fun hd => ⟨node, hn, rfl, hd⟩

theorem known (h : Graph nodes) {d id : String} (hd : DependsOn nodes d id) : d ∈ ids nodes := by
  obtain ⟨node, hn, -, hmem⟩ := hd
  exact h.exist node hn d hmem

end Graph

theorem lookup_indegreeOf (h : (nodes.map WorkflowNodeDefinition.nodeId).Nodup) (id : String) :
    (indegreeOf nodes).lookup id = (nodes.find? (·.nodeId = id)).map (·.dependsOn.length) := by
  rw [indegreeOf, KeyedFold.view_foldl WorkflowNodeDefinition.nodeId (fun m k => AList.lookup k m)
    (g := fun _ node => some node.dependsOn.length) (fun m _ => AList.lookup_insert m)
    (fun _ _ _ hk => AList.lookup_insert_ne hk) h]
  cases nodes.find? (·.nodeId = id) with
  | none => rfl
  | some node => rfl

theorem find?_of_mem (h : (nodes.map WorkflowNodeDefinition.nodeId).Nodup) {node : WorkflowNodeDefinition}
    (hn : node ∈ nodes) : nodes.find? (·.nodeId = node.nodeId) = some node := by
  cases hfind : nodes.find? (·.nodeId = node.nodeId) with
  | none => exact absurd (decide_eq_true rfl) (List.find?_eq_none.1 hfind node hn)
  | some other =>
    have hid : other.nodeId = node.nodeId := by simpa using List.find?_some hfind
    rw [List.inj_on_of_nodup_map h (List.mem_of_find?_eq_some hfind) hn hid]

theorem lookup_indegreeOf_node (h : (nodes.map WorkflowNodeDefinition.nodeId).Nodup)
    {node : WorkflowNodeDefinition} (hn : node ∈ nodes) :
    (indegreeOf nodes).lookup node.nodeId = some node.dependsOn.length := by
  rw [lookup_indegreeOf h, find?_of_mem h hn]
  rfl

section
variable (dependents : Dependents)

theorem getD_pushDependent (dependency id d : String) :
    ((pushDependent dependents dependency id).lookup d).getD [] =
      (dependents.lookup d).getD [] ++ if dependency = d then [id] else [] := by
  rw [pushDependent]
  by_cases h : d = dependency
  · rw [h, AList.lookup_insert, if_pos rfl]
    rfl
  · rw [AList.lookup_insert_ne h, if_neg (Ne.symm h), List.append_nil]

theorem getD_foldl_pushDependent (dependencies : List String) (id d : String) :
    ((dependencies.foldl (fun m dependency => pushDependent m dependency id) dependents).lookup d).getD [] =
      (dependents.lookup d).getD [] ++ (dependencies.filter (· = d)).map fun _ => id := by
  induction dependencies generalizing dependents with
  | nil => exact (List.append_nil _).symm
  | cons dependency dependencies ih =>
    rw [List.foldl_cons, ih, getD_pushDependent, List.append_assoc]
    by_cases h : dependency = d
    · rw [if_pos h, List.filter_cons_of_pos (by simpa using h)]
      rfl
    · rw [if_neg h, List.filter_cons_of_neg (by simpa using h)]
      rfl

theorem getD_foldl_nodes (nodes : List WorkflowNodeDefinition) (d : String) :
    ((nodes.foldl (fun m node => node.dependsOn.foldl (fun m dependency => pushDependent m dependency node.nodeId) m)
        dependents).lookup d).getD [] =
      (dependents.lookup d).getD [] ++ nodes.flatMap fun node =>
        (node.dependsOn.filter (· = d)).map fun _ => node.nodeId := by
  induction nodes generalizing dependents with
  | nil => exact (List.append_nil _).symm
  | cons node nodes ih =>
    rw [List.foldl_cons, ih, getD_foldl_pushDependent, List.append_assoc, List.flatMap_cons]

end

/-- The dependents of a node, in the order of the nodes. -/
theorem getD_dependentsOf (h : ∀ node ∈ nodes, node.dependsOn.Nodup) (d : String) :
    ((dependentsOf nodes).lookup d).getD [] =
      (nodes.filter (d ∈ ·.dependsOn)).map WorkflowNodeDefinition.nodeId := by
  rw [dependentsOf, getD_foldl_nodes]
  change nodes.flatMap _ = _
  induction nodes with
  | nil => rfl
  | cons node nodes ih =>
    obtain ⟨hnode, hnodes⟩ := List.forall_mem_cons.1 h
    rw [List.flatMap_cons, ih hnodes, List.filter_eq, List.map_replicate, hnode.count]
    by_cases hd : d ∈ node.dependsOn
    · rw [if_pos hd, List.filter_cons_of_pos (by simpa using hd)]
      rfl
    · rw [if_neg hd, List.filter_cons_of_neg (by simpa using hd)]
      rfl

theorem mem_childrenOf (h : Graph nodes) {d id : String} :
    id ∈ childrenOf (dependentsOf nodes) d ↔ DependsOn nodes d id := by
  rw [childrenOf, List.mem_mergeSort, getD_dependentsOf h.unique, List.mem_map]
  constructor
  · rintro ⟨node, hn, hid⟩
    obtain ⟨hn, hd⟩ := List.mem_filter.1 hn
    exact ⟨node, hn, hid, of_decide_eq_true hd⟩
  · rintro ⟨node, hn, hid, hd⟩
    exact ⟨node, List.mem_filter.2 ⟨hn, decide_eq_true hd⟩, hid⟩

theorem nodup_childrenOf (h : Graph nodes) (d : String) : (childrenOf (dependentsOf nodes) d).Nodup := by
  rw [childrenOf, (List.mergeSort_perm _ _).nodup_iff, getD_dependentsOf h.unique]
  exact h.distinct.sublist (List.filter_sublist.map _)

theorem foldlM_relax {s : Open} {children : List String} (hnodup : children.Nodup)
    (hpos : ∀ c ∈ children, ∃ k, s.indegree.lookup c = some (k + 1)) :
    ∃ s', children.foldlM relax s = .ok s' ∧
      (∀ id, s'.indegree.lookup id =
        if id ∈ children then (s.indegree.lookup id).map (· - 1) else s.indegree.lookup id) ∧
      ∀ id, id ∈ s'.ready ↔ id ∈ s.ready ∨ id ∈ children ∧ s.indegree.lookup id = some 1 := by
  induction children generalizing s with
  | nil => exact ⟨s, rfl, fun id => by simp, fun id => by simp⟩
  | cons c children ih =>
    obtain ⟨hc, hnodup⟩ := List.nodup_cons.1 hnodup
    obtain ⟨⟨k, hk⟩, hpos⟩ := List.forall_mem_cons.1 hpos
    let t : Open := ⟨s.indegree.insert c k, if k = 0 then insert c s.ready else s.ready⟩
    have hrelax : relax s c = .ok t := by rw [relax, hk]
    have hkept (id : String) (hne : id ≠ c) : t.indegree.lookup id = s.indegree.lookup id :=
      AList.lookup_insert_ne hne
    have hne {id : String} (hid : id ∈ children) : id ≠ c := fun heq => hc (heq ▸ hid)
    obtain ⟨s', hs', hlookup, hready⟩ := ih hnodup (s := t) fun id hid => by
      rw [hkept id (hne hid)]
      exact hpos id hid
    refine ⟨s', ?_, fun id => ?_, fun id => ?_⟩
    · rw [List.foldlM_cons, hrelax]
      exact hs'
    · rw [hlookup]
      by_cases heq : id = c
      · subst heq
        rw [if_neg hc, if_pos List.mem_cons_self, hk]
        exact AList.lookup_insert _
      · rw [hkept id heq]
        simp only [List.mem_cons, heq, false_or]
    · rw [hready]
      by_cases heq : id = c
      · subst heq
        have hmem : id ∈ t.ready ↔ id ∈ s.ready ∨ k = 0 := by
          by_cases hzero : k = 0
          · simp [t, hzero]
          · simp [t, hzero]
        rw [hmem, hk]
        simp [hc]
      · have hmem : id ∈ t.ready ↔ id ∈ s.ready := by
          by_cases hzero : k = 0
          · simp [t, hzero, heq]
          · simp [t, hzero]
        rw [hmem, hkept id heq]
        simp [heq]

/-- What is known in front of a turn, with what was taken. -/
structure Account (nodes : List WorkflowNodeDefinition) (order : List String) (s : Open) : Prop where
  greedy : Greedy (DependsOn nodes) (ids nodes) order
  degree : ∀ node ∈ nodes, s.indegree.lookup node.nodeId = some (node.dependsOn.countP (· ∉ order))
  ready : ∀ id, id ∈ s.ready ↔ Ready (DependsOn nodes) (ids nodes) order id

theorem account_start (h : Graph nodes) : Account nodes [] (startOpen nodes) := by
  refine ⟨greedy_nil, fun node hn => ?_, fun id => ?_⟩
  · refine (lookup_indegreeOf_node h.distinct hn).trans (congrArg some ?_)
    exact (List.countP_eq_length.2 fun d _ => by simp).symm
  · have hmem : id ∈ (startOpen nodes).ready ↔ (indegreeOf nodes).lookup id = some 0 := by
      refine Finset.mem_filter.trans (and_iff_right_of_imp fun hzero => ?_)
      rw [List.mem_toFinset, ← AList.mem_keys, ← AList.lookup_isSome, hzero]
      rfl
    rw [hmem]
    constructor
    · intro hzero
      rw [lookup_indegreeOf h.distinct, Option.map_eq_some_iff] at hzero
      obtain ⟨node, hfind, hlen⟩ := hzero
      have hn := List.mem_of_find?_eq_some hfind
      obtain rfl : node.nodeId = id := by simpa using List.find?_some hfind
      refine ⟨mem_ids.2 ⟨node, hn, rfl⟩, List.not_mem_nil, fun d hd => ?_⟩
      rw [h.dependsOn_iff hn, List.length_eq_zero_iff.1 hlen] at hd
      exact hd
    · intro hready
      obtain ⟨node, hn, rfl⟩ := mem_ids.1 hready.mem
      rw [lookup_indegreeOf_node h.distinct hn]
      refine congrArg some (List.length_eq_zero_iff.2 (List.eq_nil_iff_forall_not_mem.2 fun d hd => ?_))
      exact absurd (hready.met d ((h.dependsOn_iff hn).2 hd)) List.not_mem_nil

/-- Taking a node leaves one dependency less to those that depend on it. -/
theorem countP_taken {order dependencies : List String} {id : String} (hnodup : dependencies.Nodup)
    (hid : id ∉ order) : dependencies.countP (· ∉ order) =
      dependencies.countP (· ∉ order ++ [id]) + if id ∈ dependencies then 1 else 0 := by
  induction dependencies with
  | nil => rfl
  | cons d dependencies ih =>
    obtain ⟨hd, hnodup⟩ := List.nodup_cons.1 hnodup
    rw [List.countP_cons, List.countP_cons, ih hnodup]
    by_cases heq : d = id
    · subst heq
      simp [hid, hd]
    · have hiff : d ∉ order ++ [id] ↔ d ∉ order := by simp [heq]
      simp only [hiff, List.mem_cons, Ne.symm heq, false_or]
      omega

theorem account_step (h : Graph nodes) {order : List String} {s : Open} (ha : Account nodes order s)
    (hs : s.ready.Nonempty) :
    ∃ s', (childrenOf (dependentsOf nodes) (s.next hs)).foldlM relax (s.take hs) = .ok s' ∧
      Account nodes (order ++ [s.next hs]) s' := by
  have hid : Ready (DependsOn nodes) (ids nodes) order (s.next hs) :=
    (ha.ready _).1 (Finset.min'_mem s.ready hs)
  have hleast : ∀ w, Ready (DependsOn nodes) (ids nodes) order w → s.next hs ≤ w := fun w hw =>
    Finset.min'_le s.ready w ((ha.ready w).2 hw)
  have htaken : ∀ w, w ∈ (s.take hs).ready ↔ w ≠ s.next hs ∧ w ∈ s.ready := fun w => Finset.mem_erase
  generalize s.next hs = id at hid hleast htaken ⊢
  have hcount {node : WorkflowNodeDefinition} (hn : node ∈ nodes) := countP_taken (h.unique node hn) hid.new
  have hpos : ∀ c ∈ childrenOf (dependentsOf nodes) id, ∃ k, (s.take hs).indegree.lookup c = some (k + 1) := by
    intro c hc
    obtain ⟨node, hn, rfl, hd⟩ := (mem_childrenOf h).1 hc
    refine ⟨node.dependsOn.countP (· ∉ order ++ [id]), (ha.degree node hn).trans (congrArg some ?_)⟩
    rw [hcount hn, if_pos hd]
  obtain ⟨s', hs', hlookup, hready⟩ := foldlM_relax (nodup_childrenOf h id) hpos
  refine ⟨s', hs', ha.greedy.concat hid hleast, fun node hn => ?_, fun w => ?_⟩
  · have hdegree : (s.take hs).indegree.lookup node.nodeId = _ := ha.degree node hn
    have hchild : node.nodeId ∈ childrenOf (dependentsOf nodes) id ↔ id ∈ node.dependsOn :=
      (mem_childrenOf h).trans (h.dependsOn_iff hn)
    rw [hlookup, hdegree, hcount hn]
    by_cases hd : id ∈ node.dependsOn
    · rw [if_pos (hchild.2 hd), if_pos hd]
      rfl
    · rw [if_neg (mt hchild.1 hd), if_neg hd]
      rfl
  · rw [hready, htaken, ha.ready, mem_childrenOf h]
    constructor
    · rintro (⟨hne, hw⟩ | ⟨hdep, hone⟩)
      · refine ⟨hw.mem, ?_, fun d hd => List.mem_append_left _ (hw.met d hd)⟩
        simp [hw.new, hne]
      · obtain ⟨node, hn, rfl, hd⟩ := hdep
        have hnew : node.nodeId ∉ order := fun hmem =>
          hid.new (ha.greedy.needs hmem ⟨node, hn, rfl, hd⟩)
        have hne : node.nodeId ≠ id := by
          rintro heq
          exact hid.new (hid.met id ⟨node, hn, heq, hd⟩)
        have hdegree : (s.take hs).indegree.lookup node.nodeId = _ := ha.degree node hn
        rw [hdegree, hcount hn, if_pos hd] at hone
        have hzero := Nat.succ.inj (Option.some.inj hone)
        refine ⟨mem_ids.2 ⟨node, hn, rfl⟩, by simp [hnew, hne], fun d' hd' => ?_⟩
        rw [h.dependsOn_iff hn] at hd'
        by_contra hnot
        exact List.countP_eq_zero.1 hzero d' hd' (decide_eq_true hnot)
    · intro hw
      obtain ⟨node, hn, rfl⟩ := mem_ids.1 hw.mem
      have hne : node.nodeId ≠ id := fun heq => hw.new (by simp [heq])
      have hnew : node.nodeId ∉ order := fun hmem => hw.new (List.mem_append_left _ hmem)
      by_cases hd : id ∈ node.dependsOn
      · refine .inr ⟨⟨node, hn, rfl, hd⟩, (ha.degree node hn).trans (congrArg some ?_)⟩
        rw [hcount hn, if_pos hd]
        refine congrArg (· + 1) (List.countP_eq_zero.2 fun d' hd' => ?_)
        exact fun hnot => of_decide_eq_true hnot (hw.met d' ((h.dependsOn_iff hn).2 hd'))
      · refine .inl ⟨hne, hw.mem, hnew, fun d' hd' => ?_⟩
        rcases List.mem_append.1 (hw.met d' hd') with hmem | hmem
        · exact hmem
        · rw [List.mem_singleton.1 hmem, h.dependsOn_iff hn] at hd'
          exact absurd hd' hd

theorem takeAll_spec (h : Graph nodes) {order : List String} {s : Open} (ha : Account nodes order s) :
    ∃ order', takeAll (dependentsOf nodes) s order = .ok order' ∧
      Greedy (DependsOn nodes) (ids nodes) order' ∧ ∀ id, ¬ Ready (DependsOn nodes) (ids nodes) order' id := by
  induction hw : s.weight using Nat.strong_induction_on generalizing s order with
  | _ w ih =>
    rw [takeAll]
    split
    · next hs =>
      obtain ⟨s', hfold, ha'⟩ := account_step h ha hs
      have hlt : s'.weight < w := hw ▸ (foldlM_relax_weight hfold).trans_lt (take_weight s hs)
      obtain ⟨order', hrun, hgreedy, hnone⟩ := ih _ hlt ha' rfl
      refine ⟨order', ?_, hgreedy, hnone⟩
      split
      · next e he =>
        rw [hfold] at he
        cases he
      · next t ht =>
        rw [hfold] at ht
        rw [← Except.ok.inj ht, hrun]
    · next hs => exact ⟨order, rfl, ha.greedy, fun id hid => hs ⟨id, (ha.ready id).2 hid⟩⟩

/-- The loop took every node if it took as many as there are. -/
theorem length_eq_iff (h : Graph nodes) {order : List String}
    (ho : Greedy (DependsOn nodes) (ids nodes) order) :
    order.length = nodes.length ↔ ∀ id ∈ ids nodes, id ∈ order := by
  have hsub : order ⊆ nodes.map WorkflowNodeDefinition.nodeId := fun id hid => ho.mem hid
  constructor
  · intro hlen id hid
    have hperm := (List.subperm_of_subset ho.nodup hsub).perm_of_length_le (by rw [List.length_map, hlen])
    exact hperm.mem_iff.2 hid
  · intro hall
    rw [← List.length_map WorkflowNodeDefinition.nodeId]
    refine ((List.perm_ext_iff_of_nodup ho.nodup h.distinct).2 fun id => ?_).length_eq
    exact ⟨fun hid => hsub hid, hall id⟩

/-- The order of an acyclic workflow, and the error of another. -/
theorem topologicalOrder_spec (h : Graph nodes) :
    (Acyclic nodes → ∃ order, topologicalOrder nodes = .ok order ∧
      Greedy (DependsOn nodes) (ids nodes) order ∧ Schedule (DependsOn nodes) (ids nodes) order) ∧
      (¬ Acyclic nodes → topologicalOrder nodes = .error .cycle) := by
  obtain ⟨order, hrun, hgreedy, hnone⟩ := takeAll_spec h (account_start h)
  have hresult : topologicalOrder nodes =
      if order.length ≠ nodes.length then .error .cycle else .ok order := by
    rw [topologicalOrder, hrun, ok_bind, reject]
    split_ifs
    · rfl
    · rfl
  rw [hresult]
  constructor
  · intro hacyclic
    have hall : ∀ id ∈ ids nodes, id ∈ order := by
      by_contra hleft
      push Not at hleft
      obtain ⟨id, hid, hnew⟩ := hleft
      obtain ⟨w, hw⟩ := exists_ready (List.finite_toSet _) (fun d v => h.known) hacyclic hid hnew
      exact hnone w hw
    refine ⟨order, if_neg (not_not.2 ((length_eq_iff h hgreedy).2 hall)), hgreedy, hgreedy.schedule hall⟩
  · intro hcyclic
    refine if_pos fun hlen => hcyclic ?_
    exact (hgreedy.schedule ((length_eq_iff h hgreedy).1 hlen)).acyclic fun d v => DependsOn.mem_ids

end Winsmux.Workflow
