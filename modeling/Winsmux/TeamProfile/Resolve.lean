import Winsmux.CharText
import Winsmux.Decimal
import Winsmux.Workflow.Workflow

/-!
# Team profiles

A project that opts in gets the slots of the packaged preset, each with the fields that an entry
of `agent-slots` sets over it, and each checked against the catalog of providers and models.
-/
namespace Winsmux.TeamProfile
open Workflow (Yaml)

abbrev Mapping := List (Yaml × Yaml)

def slotIds : List String :=
  ["worker-1", "worker-2", "worker-3", "worker-4", "worker-5", "worker-6"]

def roleProfiles : List String := ["architect", "builder", "reviewer", "researcher", "maintainer"]

def lifecycles : List String := ["session", "task", "one-shot"]

def taskClasses : List String :=
  ["architecture", "protocol", "security", "implementation", "test", "review", "research",
    "documentation", "repository-operations"]

def workerDelegation : List String := ["frozen-spec-implementation", "repro-fix", "mechanical-migration"]

def laneBSlotFields : List String :=
  ["provider", "model", "reasoning-effort", "role-profile", "lifecycle", "task-classes", "delegation"]

def officialPresetId : String := "official-balanced-v1"

structure ValidationIssue where
  slotId : Option String
  field : String
  code : String
  severity : String
  remediation : String
  deriving DecidableEq

structure ResolvedSlot where
  slotId : String
  provider : String
  model : String
  launchModel : String
  reasoningEffort : String
  roleProfile : String
  lifecycle : String
  taskClasses : List String
  delegation : List String
  overrides : List String
  workerBackend : Option String
  deriving DecidableEq

structure TeamProfileMeta where
  schemaVersion : ℤ
  preset : String
  presetRevision : ℤ
  updatePolicy : String
  deriving DecidableEq

structure ResolvedTeam where
  optedIn : Bool
  teamProfile : Option TeamProfileMeta
  slots : List ResolvedSlot
  deriving DecidableEq

structure SlotRecord where
  slotId : String
  provider : String
  model : String
  reasoningEffort : String
  roleProfile : String
  lifecycle : String
  taskClasses : List String
  delegation : List String
  workerBackend : Option String

/-- The slots of the packaged preset, which is refused with other ids. -/
structure Preset where
  slots : List SlotRecord
  ids : slots.map SlotRecord.slotId = slotIds

structure ModelEntry where
  providerId : String
  launchModel : String
  supportedEffortIds : List String
  requiredBackend : String

structure Catalog where
  providers : List String
  models : List (String × ModelEntry)
  backends : List (String × List String)

/-- An entry of `agent-slots`: its fields by their names, and the entries that are none. -/
structure OverlaySlot where
  slotId : String
  fields : List (String × Yaml)
  extras : Mapping

abbrev Checked (α : Type) := Except (List ValidationIssue) α

def issue (slotId : Option String) (field code remediation : String) : ValidationIssue :=
  ⟨slotId, field, code, "error", remediation⟩

def asSequence : Yaml → Option (List Yaml)
  | .sequence items => some items
  | .tagged _ value => asSequence value
  | _ => none

def asStr : Yaml → Option String
  | .string s => some s
  | .tagged _ value => asStr value
  | _ => none

def mapChars (f : Char → Char) (s : String) : String := String.ofList (s.toList.map f)

def snakeCase (name : String) : String := mapChars (fun c => if c = '-' then '_' else c) name

def kebabCase (name : String) : String := mapChars (fun c => if c = '_' then '-' else c) name

def toAsciiLowercase (s : String) : String := mapChars Char.toLower s

def mappingLookup (mapping : Mapping) (kebab : String) : Checked (Option Yaml) :=
  let snake := snakeCase kebab
  let kebabValue := Yaml.get kebab mapping
  let snakeValue := if snake ≠ kebab then Yaml.get snake mapping else none
  if kebabValue.isSome ∧ snakeValue.isSome then
    .error [issue none kebab "ambiguous_alias"
      ("Both '" ++ kebab ++ "' and its snake_case alias are present.")]
  else .ok (kebabValue.or snakeValue)

def trimText (s : String) : String := String.ofList (CharText.trim s.toList)

def yamlText : Yaml → Option String
  | .string s => if trimText s = "" then none else some (trimText s)
  | .number literal => some literal
  | .bool b => some (if b then "true" else "false")
  | _ => none

def yamlI64 : Yaml → Option ℤ
  | .number literal => Json.parseSigned 64 (Json.utf8 literal)
  | .string s => Json.parseSigned 64 (Json.utf8 (trimText s))
  | _ => none

def yamlStringList : Yaml → Checked (Option (List String))
  | .null => .ok none
  | .sequence items =>
    match items.mapM yamlText with
    | some values => .ok (some values)
    | none => .error [issue none "task-classes" "invalid_list_item" "List values must be scalars."]
  | _ => .error [issue none "task-classes" "invalid_list" "Expected a YAML sequence."]

def parseTeamProfileMeta (value : Yaml) : Checked TeamProfileMeta := do
  let mapping ← okOr value.asMapping
    [issue none "team-profile" "invalid_team_profile" "team-profile must be a mapping."]
  let schemaVersion ← mappingLookup mapping "schema-version"
  let schemaVersion ← okOr (schemaVersion.bind yamlI64) [issue none "schema-version"
    "missing_schema_version" "team-profile.schema-version is required and must be 1."]
  reject (schemaVersion ≠ 1) [issue none "schema-version" "unsupported_schema_version"
    "Unknown team-profile schema-version."]
  let preset ← mappingLookup mapping "preset"
  let preset ← okOr (preset.bind yamlText)
    [issue none "preset" "missing_preset" "team-profile.preset is required."]
  let presetRevision ← mappingLookup mapping "preset-revision"
  let presetRevision ← okOr (presetRevision.bind yamlI64) [issue none "preset-revision"
    "missing_preset_revision" "team-profile.preset-revision is required."]
  let updatePolicy ← mappingLookup mapping "update-policy"
  let updatePolicy ← okOr (updatePolicy.bind yamlText) [issue none "update-policy"
    "missing_update_policy" "team-profile.update-policy is required."]
  reject (updatePolicy ≠ "retain-overrides") [issue none "update-policy" "unsupported_update_policy"
    "v1 update-policy must be retain-overrides."]
  .ok ⟨schemaVersion, preset, presetRevision, updatePolicy⟩

def canonicalSlotField (name : String) : String :=
  if kebabCase name = "backend" then "worker-backend" else kebabCase name

/-- The fields and the other entries of an overlay, put to those found so far. -/
def readSlotFields (slotId : String) :
    List (String × Yaml) → Mapping → Mapping → Checked (List (String × Yaml) × Mapping)
  | fields, extras, [] => .ok (fields, extras)
  | fields, extras, (key, value) :: rest =>
    match asStr key with
    | none => readSlotFields slotId fields extras rest
    | some name =>
      let canonical := canonicalSlotField name
      if canonical = "slot-id" ∨ canonical ∈ laneBSlotFields ∨ canonical = "agent" then
        if (fields.lookup canonical).isSome then
          .error [issue (some slotId) name "ambiguous_alias" ("Conflicting aliases for '" ++ name ++ "'.")]
        else readSlotFields slotId ((canonical, value) :: fields) extras rest
      else readSlotFields slotId fields ((key, value) :: extras) rest

def readSlotId (mapping : Mapping) : Checked String := do
  let value ← mappingLookup mapping "slot-id"
  okOr (value.bind yamlText)
    [issue none "slot-id" "missing_slot_id" "Every agent-slots entry must include slot-id."]

/-- The entries of `agent-slots`, behind those whose ids are seen. -/
def readOverlaySlots : List String → List Yaml → Checked (List OverlaySlot)
  | _, [] => .ok []
  | seen, item :: items => do
    let mapping ← okOr item.asMapping
      [issue none "agent-slots" "invalid_slot_entry" "Every agent-slots entry must be a mapping."]
    let slotId ← readSlotId mapping
    reject (toAsciiLowercase slotId ∈ seen)
      [issue (some slotId) "slot-id" "duplicate_slot" "agent-slots slot-id values must be unique."]
    let (fields, extras) ← readSlotFields slotId [] [] mapping
    let slots ← readOverlaySlots (toAsciiLowercase slotId :: seen) items
    .ok (⟨slotId, fields, extras⟩ :: slots)

def parseOverlaySlots (root : Mapping) : Checked (List OverlaySlot) := do
  match ← mappingLookup root "agent-slots" with
  | none => .ok []
  | some value =>
    let sequence ← okOr (asSequence value)
      [issue none "agent-slots" "invalid_agent_slots" "agent-slots must be a sequence of mappings."]
    readOverlaySlots [] sequence

namespace OverlaySlot

def text (overlay : OverlaySlot) (field : String) : Option String :=
  (overlay.fields.lookup field).bind yamlText

def hasField (overlay : OverlaySlot) (field : String) : Bool := (overlay.fields.lookup field).isSome

/-- The fields that are said to be overridden: those that are present. -/
def overrides (overlay : OverlaySlot) : List String :=
  laneBSlotFields.filter fun field =>
    overlay.hasField field || (field = "provider" && overlay.hasField "agent")

/-- The list of a field, where the overlay has it. -/
def list (overlay : OverlaySlot) (record : SlotRecord) (field : String) (default : List String)
    (code remediation : String) : Checked (List String) :=
  match overlay.fields.lookup field with
  | none => .ok default
  | some value => do
    okOr (← yamlStringList value) [issue (some record.slotId) field code remediation]

def workerBackend (overlay : OverlaySlot) : Option String :=
  ((Yaml.get "worker-backend" overlay.extras).bind yamlText).or
    ((Yaml.get "worker_backend" overlay.extras).bind yamlText)

end OverlaySlot

def overlayProvider (overlay : OverlaySlot) : Checked (Option String) :=
  match overlay.text "provider", overlay.text "agent" with
  | some provider, some agent =>
    if provider ≠ agent then
      .error [issue (some overlay.slotId) "provider" "ambiguous_provider_alias"
        "provider and agent disagree; keep provider as the canonical Team Profile field."]
    else .ok (some provider)
  | some provider, none => .ok (some provider)
  | none, agent => .ok agent

/-- The record of a slot with an overlay over it. -/
def overlaid (preset : SlotRecord) (overlay : OverlaySlot) : Checked SlotRecord := do
  let provider ← overlayProvider overlay
  let classes ← overlay.list preset "task-classes" preset.taskClasses "invalid_task_classes"
    "task-classes must be a non-empty list of registered IDs."
  let delegation ← overlay.list preset "delegation" preset.delegation "invalid_delegation"
    "delegation must be a non-empty list of worker ownership classes."
  .ok { slotId := preset.slotId
        provider := provider.getD preset.provider
        model := (overlay.text "model").getD preset.model
        reasoningEffort := (overlay.text "reasoning-effort").getD preset.reasoningEffort
        roleProfile := (overlay.text "role-profile").getD preset.roleProfile
        lifecycle := (overlay.text "lifecycle").getD preset.lifecycle
        taskClasses := classes
        delegation := delegation
        workerBackend := overlay.workerBackend.or preset.workerBackend }

/-- The record of a slot, and the overlay over it where there is one. -/
def slotRecord (preset : SlotRecord) : Option OverlaySlot → Checked SlotRecord
  | none => .ok preset
  | some overlay => overlaid preset overlay

def issueIf (c : Prop) [Decidable c] (i : ValidationIssue) : List ValidationIssue := if c then [i] else []

/-- The issues of a list of registered ids, entry by entry. -/
def listIssues (known : List String) (unknown : String → ValidationIssue) (duplicate : ValidationIssue) :
    List String → List String → List ValidationIssue
  | _, [] => []
  | seen, item :: items =>
    issueIf (item ∉ known) (unknown item) ++ issueIf (item ∈ seen) duplicate ++
      listIssues known unknown duplicate (item :: seen) items

/-- The backends to which a slot of the model may be assigned. -/
def allowedBackends (catalog : Catalog) (model : ModelEntry) (backend : String) : List String :=
  let allowed := (catalog.backends.lookup model.requiredBackend).getD []
  if "*" ∈ allowed then [backend] else allowed

def modelIssues (record : SlotRecord) (catalog : Catalog) : List ValidationIssue :=
  match catalog.models.lookup record.model with
  | none => [issue (some record.slotId) "model" "unknown_model" ("Unknown model capability ID '" ++
      record.model ++ "'. Use a catalog ID, not a raw CLI model argument.")]
  | some model =>
    issueIf (model.providerId ≠ record.provider) (issue (some record.slotId) "model"
      "model_provider_mismatch" ("Model '" ++ record.model ++ "' belongs to provider '" ++
        model.providerId ++ "'.")) ++
    issueIf (record.reasoningEffort ∉ model.supportedEffortIds) (issue (some record.slotId)
      "reasoning-effort" "unsupported_effort" ("Unsupported reasoning-effort '" ++
        record.reasoningEffort ++ "'. Supported values: " ++
        ", ".intercalate model.supportedEffortIds ++ ".")) ++
    match record.workerBackend with
    | none => []
    | some backend => issueIf (backend ∉ allowedBackends catalog model backend)
      (issue (some record.slotId) "worker-backend" "backend_capability_mismatch" ("worker-backend '" ++
        backend ++ "' is not in assignableBackends for required backend '" ++
        model.requiredBackend ++ "'."))

def validateResolvedSlot (record : SlotRecord) (catalog : Catalog) : List ValidationIssue :=
  let slot := some record.slotId
  issueIf (record.provider = "provider-default" ∨ record.model = "provider-default")
    (issue slot (if record.provider = "provider-default" then "provider" else "model")
      "provider_default_forbidden"
      "Resolved Team Profile slots must use a concrete provider and model capability ID.") ++
  issueIf (record.provider ∉ catalog.providers ∨ record.provider = "provider-default")
    (issue slot "provider" "unknown_provider" ("Unknown provider '" ++ record.provider ++ "'.")) ++
  modelIssues record catalog ++
  issueIf (record.roleProfile ∉ roleProfiles) (issue slot "role-profile" "unknown_role_profile"
    ("Unknown role-profile '" ++ record.roleProfile ++ "'.")) ++
  issueIf (record.lifecycle ∉ lifecycles)
    (issue slot "lifecycle" "unknown_lifecycle" ("Unknown lifecycle '" ++ record.lifecycle ++ "'.")) ++
  issueIf (record.taskClasses = []) (issue slot "task-classes" "empty_task_classes"
    "task-classes must be a non-empty duplicate-free list.") ++
  listIssues taskClasses
    (fun item => issue slot "task-classes" "unknown_task_class" ("Unknown task-class '" ++ item ++ "'."))
    (issue slot "task-classes" "duplicate_task_class" "task-classes must not contain duplicates.")
    [] record.taskClasses ++
  issueIf (record.delegation = []) (issue slot "delegation" "empty_delegation"
    "delegation must list the worker-owned classes this slot may accept.") ++
  listIssues workerDelegation (fun item => issue slot "delegation" "unknown_delegation"
      ("Unknown worker delegation class '" ++ item ++ "'."))
    (issue slot "delegation" "duplicate_delegation" "delegation must not contain duplicates.")
    [] record.delegation

/-- The backend of a model that can have one only. -/
def inferredWorkerBackend (model : ModelEntry) (catalog : Catalog) : Option String := do
  let allowed ← catalog.backends.lookup model.requiredBackend
  match allowed.filter fun backend => backend ≠ "" ∧ backend ≠ "*" with
  | [backend] => some backend
  | _ => none

def resolveSlot (catalog : Catalog) (preset : SlotRecord) (overlay : Option OverlaySlot) :
    Checked ResolvedSlot := do
  let record ← slotRecord preset overlay
  reject (validateResolvedSlot record catalog ≠ []) (validateResolvedSlot record catalog)
  let model ← okOr (catalog.models.lookup record.model) [issue (some record.slotId) "model"
    "unknown_model" ("Unknown model capability ID '" ++ record.model ++ "'.")]
  .ok { slotId := record.slotId
        provider := record.provider
        model := record.model
        launchModel := model.launchModel
        reasoningEffort := record.reasoningEffort
        roleProfile := record.roleProfile
        lifecycle := record.lifecycle
        taskClasses := record.taskClasses
        delegation := record.delegation
        overrides := overlay.elim [] OverlaySlot.overrides
        workerBackend := record.workerBackend.or (inferredWorkerBackend model catalog) }

/-- The overlays by their ids, each of a slot of the preset. -/
def collectOverlays : List OverlaySlot → List OverlaySlot → Checked (List OverlaySlot)
  | byId, [] => .ok byId
  | byId, overlay :: overlays => do
    reject (overlay.slotId ∉ slotIds) [issue (some overlay.slotId) "slot-id" "unknown_slot"
      "Opted-in agent-slots may only override worker-1 through worker-6."]
    reject (byId.any (·.slotId = overlay.slotId))
      [issue none "slot-id" "duplicate_slot" "agent-slots slot-id values must be unique."]
    collectOverlays (byId ++ [overlay]) overlays

/-- Each slot of the preset takes its overlay; all issues are collected. -/
def resolveSlots (catalog : Catalog) :
    List SlotRecord → List OverlaySlot → List ResolvedSlot × List ValidationIssue × List OverlaySlot
  | [], byId => ([], [], byId)
  | preset :: presets, byId =>
    let (resolved, issues, rest) :=
      resolveSlots catalog presets (byId.filter fun overlay => overlay.slotId ≠ preset.slotId)
    match resolveSlot catalog preset (byId.find? fun overlay => overlay.slotId = preset.slotId) with
    | .ok slot => (slot :: resolved, issues, rest)
    | .error slotIssues => (resolved, slotIssues ++ issues, rest)

def resolveTeam (preset : Preset) (catalog : Catalog) (profile : TeamProfileMeta)
    (overlays : List OverlaySlot) : Checked ResolvedTeam := do
  let byId ← collectOverlays [] overlays
  let (resolved, issues, rest) := resolveSlots catalog preset.slots byId
  let unknown := ((rest.map OverlaySlot.slotId).mergeSort fun a b => a ≤ b).map fun slotId =>
    issue (some slotId) "slot-id" "unknown_slot"
      "Opted-in agent-slots may not introduce a slot that is not in the preset."
  reject (issues ++ unknown ≠ []) (issues ++ unknown)
  .ok ⟨true, some profile, resolved⟩

/-- A slot of a project that has not opted in. -/
def legacySlot (overlay : OverlaySlot) : ResolvedSlot :=
  let list (field : String) : List String := ((overlay.fields.lookup field).bind fun value =>
    (yamlStringList value).toOption.join).getD []
  { slotId := overlay.slotId
    provider := ((overlay.text "provider").or (overlay.text "agent")).getD ""
    model := (overlay.text "model").getD ""
    launchModel := ""
    reasoningEffort := (overlay.text "reasoning-effort").getD ""
    roleProfile := (overlay.text "role-profile").getD ""
    lifecycle := (overlay.text "lifecycle").getD ""
    taskClasses := list "task-classes"
    delegation := list "delegation"
    overrides := []
    workerBackend := overlay.workerBackend }

/-- `resolve_yaml` on a document that is parsed, or refused with a message. -/
def resolveYaml (preset : Preset) (catalog : Catalog) (root : Except String Yaml) : Checked ResolvedTeam :=
  match root with
  | .error message => .error [issue none "document"
      (if message = "duplicate YAML mapping key." then "duplicate_mapping_key" else "invalid_yaml") message]
  | .ok root => do
    let mapping ← okOr root.asMapping
      [issue none "document" "root_not_mapping" ".winsmux.yaml must be a mapping."]
    let version ← mappingLookup mapping "config-version"
    reject (∃ value ∈ version, yamlI64 value ≠ some 1) [issue none "config-version"
      "unsupported_config_version" "config-version must be 1."]
    let profile ← mappingLookup mapping "team-profile"
    let overlays ← parseOverlaySlots mapping
    match profile with
    | none => .ok ⟨false, none, overlays.map legacySlot⟩
    | some value =>
      let profile ← parseTeamProfileMeta value
      reject (profile.preset ≠ officialPresetId) [issue none "preset" "unknown_preset"
        ("Unknown Team Profile preset '" ++ profile.preset ++ "'.")]
      resolveTeam preset catalog profile overlays

end Winsmux.TeamProfile
