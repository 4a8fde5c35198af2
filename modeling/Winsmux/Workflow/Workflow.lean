import Winsmux.Fallible
import Mathlib.Data.Finset.Max
import Mathlib.Data.List.AList
import Mathlib.Data.List.Sort
import Mathlib.Data.String.Basic
import Mathlib.Tactic

/-!
# Workflows

A workflow of the project file: nodes with the nodes they depend on. It is read, checked and put in an
order in which every node comes behind its dependencies.
-/
namespace Winsmux.Workflow

/-- A value of the project file. -/
inductive Yaml where
  | null
  | bool (b : Bool)
  | number (literal : String)
  | string (s : String)
  | sequence (items : List Yaml)
  | mapping (entries : List (Yaml × Yaml))
  | tagged (tag : String) (value : Yaml)

namespace Yaml

def asMapping : Yaml → Option (List (Yaml × Yaml))
  | .mapping entries => some entries
  | .tagged _ value => value.asMapping
  | _ => none

/-- The entry of a mapping under a name. -/
def get (key : String) : List (Yaml × Yaml) → Option Yaml
  | [] => none
  | (.string k, value) :: entries => if k = key then some value else get key entries
  | _ :: entries => get key entries

end Yaml

structure WorkflowNodeDefinition where
  nodeId : String
  paneRef : String
  dependsOn : List String
  action : String
  deriving DecidableEq

structure WorkflowDefinition where
  schemaVersion : ℕ
  recipeRef : String
  nodes : List WorkflowNodeDefinition
  deriving DecidableEq

/-- What is read of the plan of the workspace. -/
structure NormalizedWorkspacePlan where
  recipeId : String
  resolvedBindings : AList fun _ : String => String

structure NormalizedWorkflowNode where
  nodeId : String
  paneRef : String
  dependsOn : List String
  action : String
  idempotencyKey : String
  deriving DecidableEq

structure NormalizedWorkflow where
  schemaVersion : ℕ
  workflowId : String
  recipeRef : String
  runId : String
  topologicalOrder : List String
  nodes : List NormalizedWorkflowNode
  deriving DecidableEq

inductive ErrorKind where
  | invalidInput
  | invalidData
  deriving DecidableEq

inductive WorkflowError where
  | unstableId (label : String)
  | rootNotMapping
  | notConfigured
  | workflowsNotMapping
  | notFound (workflowId : String)
  | invalidSchema
  | unsupportedVersion (schemaVersion : ℕ)
  | recipeMismatch (recipeRef recipeId : String)
  | nodeCount
  | unknownAction
  | unknownPane (nodeId paneRef : String)
  | invalidDependencySet (nodeId : String)
  | duplicateNode
  | unknownNode (nodeId dependency : String)
  | identityChanged
  | indegreeUnderflow
  | cycle
  deriving DecidableEq

def workflowSchemaVersion : ℕ := 1

def maxWorkflowNodes : ℕ := 128

namespace WorkflowError

def kind : WorkflowError → ErrorKind
  | .notConfigured => .invalidInput
  | .notFound _ => .invalidInput
  | _ => .invalidData

def message : WorkflowError → String
  | .unstableId label => label ++ " must be a non-empty stable ASCII identifier."
  | .rootNotMapping => ".winsmux.yaml must be a mapping."
  | .notConfigured => "workflows is not configured."
  | .workflowsNotMapping => "workflows must be a mapping."
  | .notFound workflowId => "workflow '" ++ workflowId ++ "' was not found."
  | .invalidSchema => "invalid workflow schema."
  | .unsupportedVersion schemaVersion =>
    "unsupported workflow schema-version '" ++ toString schemaVersion ++ "'; supported version is " ++
      toString workflowSchemaVersion ++ "."
  | .recipeMismatch recipeRef recipeId =>
    "workflow recipe-ref '" ++ recipeRef ++ "' does not match selected recipe '" ++ recipeId ++ "'."
  | .nodeCount => "workflow must contain between 1 and " ++ toString maxWorkflowNodes ++ " nodes."
  | .unknownAction => "unknown workflow action."
  | .unknownPane nodeId paneRef =>
    "workflow node '" ++ nodeId ++ "' references unknown pane '" ++ paneRef ++ "'."
  | .invalidDependencySet nodeId => "workflow node '" ++ nodeId ++ "' has an invalid dependency set."
  | .duplicateNode => "duplicate workflow node-id."
  | .unknownNode nodeId dependency =>
    "workflow node '" ++ nodeId ++ "' depends on unknown node '" ++ dependency ++ "'."
  | .identityChanged => "workflow graph identity changed."
  | .indegreeUnderflow => "workflow graph indegree underflow."
  | .cycle => "workflow_cycle"

end WorkflowError

abbrev Result := Except WorkflowError

def isIdChar (c : Char) : Bool := c.isLower || c.isDigit

/-- `is_stable_id`: parts between hyphens, of lower case letters and digits, the first of which begins with
a letter. -/
def isStableId (value : String) : Bool :=
  match value.toList.splitOn '-' with
  | [] => false
  | first :: parts =>
    (first.head?.any Char.isLower && first.all isIdChar) && parts.all fun part => part ≠ [] && part.all isIdChar

def requireStableId (label value : String) : Result Unit :=
  reject (value.utf8ByteSize > 128 ∨ isStableId value = false) (.unstableId label)

/-- The definition that the project file has under the id; the schema is checked by the deserializer. -/
def readDefinition (fromValue : Yaml → Option WorkflowDefinition) (root : Yaml) (workflowId : String) :
    Result WorkflowDefinition := do
  let root ← okOr root.asMapping .rootNotMapping
  let workflows ← okOr (Yaml.get "workflows" root) .notConfigured
  let workflows ← okOr workflows.asMapping .workflowsNotMapping
  let value ← okOr (Yaml.get workflowId workflows) (.notFound workflowId)
  okOr (fromValue value) .invalidSchema

def checkDefinition (plan : NormalizedWorkspacePlan) (definition : WorkflowDefinition) : Result Unit := do
  reject (definition.schemaVersion ≠ workflowSchemaVersion) (.unsupportedVersion definition.schemaVersion)
  requireStableId "recipe-ref" definition.recipeRef
  reject (definition.recipeRef ≠ plan.recipeId) (.recipeMismatch definition.recipeRef plan.recipeId)
  reject (definition.nodes = [] ∨ definition.nodes.length > maxWorkflowNodes) .nodeCount

def checkDependencies (nodeId : String) (unique : List String) : List String → Result Unit
  | [] => .ok ()
  | dependency :: dependencies => do
    requireStableId "depends-on" dependency
    reject (dependency = nodeId ∨ dependency ∈ unique) (.invalidDependencySet nodeId)
    checkDependencies nodeId (dependency :: unique) dependencies

def checkNode (plan : NormalizedWorkspacePlan) (node : WorkflowNodeDefinition) : Result Unit := do
  requireStableId "node-id" node.nodeId
  requireStableId "pane-ref" node.paneRef
  reject (node.action ≠ "operator-dispatch") .unknownAction
  reject (node.paneRef ∉ plan.resolvedBindings) (.unknownPane node.nodeId node.paneRef)
  checkDependencies node.nodeId [] node.dependsOn

/-- The nodes by id. -/
def collectNodes (plan : NormalizedWorkspacePlan) (definitions : List WorkflowNodeDefinition) :
    List WorkflowNodeDefinition → Result (List WorkflowNodeDefinition)
  | [] => .ok definitions
  | node :: nodes => do
    checkNode plan node
    reject (definitions.any (·.nodeId = node.nodeId)) .duplicateNode
    collectNodes plan (definitions.orderedInsert (fun x y => x.nodeId ≤ y.nodeId) node) nodes

def checkNodesExist (definitions : List WorkflowNodeDefinition) : Result Unit :=
  definitions.forM fun node => node.dependsOn.forM fun dependency =>
    reject (¬ definitions.any (·.nodeId = dependency)) (.unknownNode node.nodeId dependency)

abbrev Indegree := AList fun _ : String => ℕ

abbrev Dependents := AList fun _ : String => List String

def indegreeOf (definitions : List WorkflowNodeDefinition) : Indegree :=
  definitions.foldl (fun indegree node => indegree.insert node.nodeId node.dependsOn.length) ∅

def pushDependent (dependents : Dependents) (dependency nodeId : String) : Dependents :=
  dependents.insert dependency ((dependents.lookup dependency).getD [] ++ [nodeId])

def dependentsOf (definitions : List WorkflowNodeDefinition) : Dependents :=
  definitions.foldl (fun dependents node =>
    node.dependsOn.foldl (fun dependents dependency => pushDependent dependents dependency node.nodeId)
      dependents) ∅

/-- The dependents of a node, sorted. -/
def childrenOf (dependents : Dependents) (nodeId : String) : List String :=
  ((dependents.lookup nodeId).getD []).mergeSort

/-- What the loop changes: dependencies not yet taken, by node, and the nodes without any. -/
structure Open where
  indegree : Indegree
  ready : Finset String

def relax (s : Open) (child : String) : Result Open :=
  match s.indegree.lookup child with
  | none => .error .identityChanged
  | some 0 => .error .indegreeUnderflow
  | some (degree + 1) =>
    .ok ⟨s.indegree.insert child degree, if degree = 0 then insert child s.ready else s.ready⟩

/-- The nodes with a dependency to come. -/
def Open.waiting (s : Open) : Finset String :=
  s.indegree.keys.toFinset.filter fun id => 0 < (s.indegree.lookup id).getD 0

theorem mem_waiting {s : Open} {id : String} : id ∈ s.waiting ↔ 0 < (s.indegree.lookup id).getD 0 := by
  rw [Open.waiting, Finset.mem_filter, List.mem_toFinset, ← AList.mem_keys]
  refine and_iff_right_of_imp fun hpos => ?_
  by_contra hid
  rw [AList.lookup_eq_none.2 hid] at hpos
  exact absurd hpos (lt_irrefl 0)

/-- The nodes that the loop has not taken yet, as far as it can see. -/
def Open.weight (s : Open) : ℕ := s.ready.card + s.waiting.card

theorem relax_weight {s s' : Open} {child : String} (h : relax s child = .ok s') : s'.weight ≤ s.weight := by
  unfold relax at h
  split at h
  · cases h
  · cases h
  · next degree hdegree =>
    obtain rfl := Except.ok.inj h
    have hchild : child ∈ s.waiting := by
      rw [mem_waiting, hdegree]
      exact Nat.succ_pos degree
    have hsub : Open.waiting ⟨s.indegree.insert child degree, s.ready⟩ ⊆ s.waiting := by
      intro id hid
      by_cases heq : id = child
      · exact heq ▸ hchild
      · rw [mem_waiting, AList.lookup_insert_ne heq] at hid
        exact mem_waiting.2 hid
    unfold Open.weight
    dsimp only
    split_ifs with hzero
    · have herase : Open.waiting ⟨s.indegree.insert child degree, insert child s.ready⟩ ⊆ s.waiting.erase child := by
        intro id hid
        refine Finset.mem_erase.2 ⟨?_, hsub hid⟩
        rintro rfl
        rw [mem_waiting, AList.lookup_insert, hzero] at hid
        exact absurd hid (lt_irrefl 0)
      have hcard := Finset.card_le_card herase
      have hready := Finset.card_insert_le child s.ready
      rw [Finset.card_erase_of_mem hchild] at hcard
      have hpos : 0 < s.waiting.card := Finset.card_pos.2 ⟨child, hchild⟩
      omega
    · exact Nat.add_le_add_left (Finset.card_le_card hsub) _

theorem foldlM_relax_weight {s s' : Open} {children : List String} (h : children.foldlM relax s = .ok s') :
    s'.weight ≤ s.weight := by
  induction children generalizing s with
  | nil =>
    obtain rfl := Except.ok.inj h
    exact le_rfl
  | cons child children ih =>
    rw [List.foldlM_cons] at h
    cases hs : relax s child with
    | error e =>
      rw [hs] at h
      cases h
    | ok t =>
      rw [hs] at h
      exact (ih h).trans (relax_weight hs)

def Open.next (s : Open) (h : s.ready.Nonempty) : String := s.ready.min' h

def Open.take (s : Open) (h : s.ready.Nonempty) : Open := { s with ready := s.ready.erase (s.next h) }

theorem take_weight (s : Open) (h : s.ready.Nonempty) : (s.take h).weight < s.weight :=
  Nat.add_lt_add_right (Finset.card_erase_lt_of_mem (Finset.min'_mem s.ready h)) _

/-- The loop over the nodes that are ready. -/
def takeAll (dependents : Dependents) (s : Open) (order : List String) : Result (List String) :=
  if h : s.ready.Nonempty then
    match _hrelax : (childrenOf dependents (s.next h)).foldlM relax (s.take h) with
    | .error e => .error e
    | .ok s' => takeAll dependents s' (order ++ [s.next h])
  else .ok order
termination_by s.weight
decreasing_by exact (foldlM_relax_weight _hrelax).trans_lt (take_weight s h)

def startOpen (definitions : List WorkflowNodeDefinition) : Open :=
  let indegree := indegreeOf definitions
  ⟨indegree, indegree.keys.toFinset.filter fun id => indegree.lookup id = some 0⟩

def topologicalOrder (definitions : List WorkflowNodeDefinition) : Result (List String) := do
  let order ← takeAll (dependentsOf definitions) (startOpen definitions) []
  reject (order.length ≠ definitions.length) .cycle
  return order

/-- A node of the result; nothing where its pane is unknown. -/
def normalizedNode (plan : NormalizedWorkspacePlan) (runId : String) (node : WorkflowNodeDefinition) :
    Option NormalizedWorkflowNode :=
  (plan.resolvedBindings.lookup node.paneRef).map fun paneRef =>
    { nodeId := node.nodeId
      paneRef := paneRef
      dependsOn := node.dependsOn.mergeSort
      action := node.action
      idempotencyKey := runId ++ ":" ++ node.nodeId }

def normalizedNodes (plan : NormalizedWorkspacePlan) (runId : String)
    (definitions : List WorkflowNodeDefinition) (order : List String) : List NormalizedWorkflowNode :=
  order.filterMap fun id => (definitions.find? (·.nodeId = id)).bind (normalizedNode plan runId)

/-- What is done with a definition that was read. -/
def normalizeDefinition (plan : NormalizedWorkspacePlan) (workflowId runId : String)
    (definition : WorkflowDefinition) : Result NormalizedWorkflow := do
  let definitions ← collectNodes plan [] definition.nodes
  checkNodesExist definitions
  let order ← topologicalOrder definitions
  return {
    schemaVersion := workflowSchemaVersion
    workflowId := workflowId
    recipeRef := definition.recipeRef
    runId := runId
    topologicalOrder := order
    nodes := normalizedNodes plan runId definitions order }

section
variable (fromValue : Yaml → Option WorkflowDefinition)

/-- Everything in front of the nodes. -/
def loadDefinition (root : Yaml) (workflowId runId : String) (plan : NormalizedWorkspacePlan) :
    Result WorkflowDefinition := do
  requireStableId "workflow-id" workflowId
  requireStableId "run-id" runId
  let definition ← readDefinition fromValue root workflowId
  checkDefinition plan definition
  return definition

def normalizeWorkflowFromValue (root : Yaml) (workflowId runId : String) (plan : NormalizedWorkspacePlan) :
    Result NormalizedWorkflow := do
  let definition ← loadDefinition fromValue root workflowId runId plan
  normalizeDefinition plan workflowId runId definition

end

end Winsmux.Workflow
