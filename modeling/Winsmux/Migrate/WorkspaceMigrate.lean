import Winsmux.CrashTriple
import Winsmux.Ledger.EventContract
import Winsmux.Utf8

/-!
# Workspace migration

`apply` keeps the settings file in a sidecar and replaces it by the rendered one; `rollback`
puts back what the sidecar keeps. Each write and each rename is one operation on the disk.
The settings renderer is a function of the text and the preset.
-/
namespace Winsmux.Migrate
open Json Crash Ledger

inductive Target where
  | yaml
  | sidecar
  deriving DecidableEq

/-- The two files of the project, and the file each of them is written under first. -/
inductive File where
  | target (t : Target)
  | tmp (t : Target)
  deriving DecidableEq

/-- The bytes of each file that is there. -/
abbrev Disk := File → Option Text

inductive Operation where
  | metadata (f : File)
  | read (f : File)
  | createDirAll
  | write (f : File)
  | rename (old new : File)
  | remove (f : File)
  deriving DecidableEq

inductive ErrorKind where
  | alreadyExists
  | invalidData
  | notFound
  deriving DecidableEq

inductive IoError where
  | os (o : Operation)
  | message (kind : ErrorKind) (text : String)
  deriving DecidableEq

abbrev Migrating := Program Operation Disk IoError

/-- `Path::exists`: a file whose metadata cannot be read is taken to be absent. -/
def pathExists (f : File) : Migrating Bool := do
  let found ← attempt (.metadata f) fun d => some ((d f).isSome, d)
  pure (found.getD false)

def fsRead (f : File) : Migrating (Option Text) :=
  attempt (.read f) fun d => (d f).map (·, d)

/-- `fs::read_to_string` refuses bytes that are not a text. -/
def readToString (f : File) : Migrating (Option Text) := do
  let bytes ← fsRead f
  pure (bytes.filter fun b => decide (Utf8.fromUtf8Lossy b = b))

def fsWrite (f : File) (bytes : Text) : Migrating (Option Unit) :=
  attempt (.write f) fun d => some ((), Function.update d f (some bytes))

def fsRename (old new : File) : Migrating (Option Unit) :=
  attempt (.rename old new) fun d =>
    (d old).map fun bytes => ((), Function.update (Function.update d old none) new (some bytes))

def removeFile (f : File) : Migrating (Option Unit) :=
  attempt (.remove f) fun d => (d f).map fun _ => ((), Function.update d f none)

/-- The directory of the sidecar; the files in it are as they were. -/
def createDirAll : Migrating (Option Unit) := attempt .createDirAll fun d => some ((), d)

/-- `replace_file` -/
def replaceFile (t : Target) (bytes : Text) : Migrating Unit := do
  let written ← fsWrite (.tmp t) bytes
  orRefuse (.os (.write (.tmp t))) written
  let renamed ← fsRename (.tmp t) (.target t)
  (orRefuse (.os (.rename (.tmp t) (.target t))) renamed).catching fun error => do
    let _ ← removeFile (.tmp t)
    refuse error

structure Sidecar where
  schemaVersion : ℕ
  presetId : Text
  yamlExisted : Bool
  previousYaml : Text

/-- The document `serde_json` writes of a sidecar. -/
def Sidecar.value (s : Sidecar) : Value :=
  .obj [(utf8 "schema_version", .num s.schemaVersion), (utf8 "preset_id", .str s.presetId),
    (utf8 "yaml_existed", .bool s.yamlExisted), (utf8 "previous_yaml", .str s.previousYaml)]

/-- The fields of a sidecar in the order of their declaration. -/
def sidecarFields : List String := ["schema_version", "preset_id", "yaml_existed", "previous_yaml"]

def readSidecarFields (field : String → Option Value) : Option Sidecar :=
  match field "schema_version", field "preset_id", field "yaml_existed", field "previous_yaml" with
  | some (.num version), some (.str presetId), some (.bool existed), some (.str previous) =>
    if version < 2 ^ 64 then some ⟨version, presetId, existed, previous⟩ else none
  | _, _, _, _ => none

/-- A sidecar is an object with its fields, each once, or the sequence of its fields. -/
def readSidecar : Value → Option Sidecar
  | .obj entries =>
    if ∀ name ∈ sidecarFields, (entries.map Prod.fst).count (utf8 name) ≤ 1 then
      readSidecarFields fun name => entries.lookup (utf8 name)
    else none
  | .arr items =>
    if items.length ≤ sidecarFields.length then
      readSidecarFields fun name => items[sidecarFields.idxOf name]?
    else none
  | _ => none

@[simp] theorem readSidecar_value (s : Sidecar) (h : s.schemaVersion = 1) :
    readSidecar s.value = some s := by
  obtain ⟨version, presetId, existed, previous⟩ := s
  subst h
  have honce : ∀ name ∈ sidecarFields,
      (sidecarFields.map utf8).count (utf8 name) ≤ 1 := by decide
  show (if ∀ name ∈ sidecarFields, (sidecarFields.map utf8).count (utf8 name) ≤ 1 then
    some _ else none) = _
  rw [if_pos honce]

/-- `WORKSPACE_MIGRATE_SHIPPED_PRESETS` -/
def shippedPresets : List Text :=
  [utf8 "bugfix", utf8 "review", utf8 "research", utf8 "benchmark"]

/-- `workspace_migrate_action_json`, for the two actions that change files. -/
def actionJson (action : String) (preset : Text) : Text :=
  utf8 "\x7b\"schema_version\":1,\"action\":\"" ++ utf8 action ++ utf8 "\",\"preset_id\":\"" ++
    preset ++ utf8 "\",\"recipe_id\":\"" ++ preset ++ utf8 "\"\x7d\n"

/-- `workspace_migrate_read_yaml` -/
def readYaml : Migrating (Bool × Text) := do
  let yamlExisted ← pathExists (.target .yaml)
  if yamlExisted then
    let previous ← readToString (.target .yaml)
    let previousYaml ←
      orRefuse (.message .invalidData "failed to read project .winsmux.yaml.") previous
    pure (true, previousYaml)
  else
    pure (false, [])

section Commands
variable (reader : JsonReader) (render : Text → Text → Except IoError Text)

/-- `workspace_migrate_render_preset` -/
def renderPreset (previousYaml preset : Text) : Migrating Text :=
  match render previousYaml preset with
  | .ok rendered => pure rendered
  | .error error => refuse error

/-- `apply_workspace_migrate_preset` -/
def applyPreset (preset : Text) : Migrating Text := do
  let adopted ← pathExists (.target .sidecar)
  if adopted then
    refuse (.message .alreadyExists
      "workspace-migrate apply requires rollback before another apply.")
  else
    let (yamlExisted, previousYaml) ← readYaml
    let rendered ← renderPreset render previousYaml preset
    let created ← createDirAll
    orRefuse (.os .createDirAll) created
    replaceFile .sidecar (Sidecar.value ⟨1, preset, yamlExisted, previousYaml⟩).toVec
    (replaceFile .yaml rendered).catching fun error => do
      let _ ← removeFile (.target .sidecar)
      refuse error
    pure (actionJson "apply" preset)

/-- The sidecar of a project, where it is a shipped preset's. -/
def parseSidecar (bytes : Text) : Option Sidecar :=
  ((reader.parse bytes).bind readSidecar).filter fun s =>
    s.schemaVersion = 1 && shippedPresets.contains s.presetId

/-- The settings as they stand; a file that is not there counts as empty. -/
def currentYaml : Migrating Text := do
  let there ← pathExists (.target .yaml)
  if there then
    let bytes ← fsRead (.target .yaml)
    orRefuse (.message .invalidData "failed to read project .winsmux.yaml.") bytes
  else
    pure []

/-- The settings as the sidecar keeps them. -/
def restoreYaml (sidecar : Sidecar) : Migrating Unit := do
  if sidecar.yamlExisted then
    replaceFile .yaml sidecar.previousYaml
  else
    let there ← pathExists (.target .yaml)
    if there then
      let removed ← removeFile (.target .yaml)
      orRefuse (.os (.remove (.target .yaml))) removed
    else
      pure ()

/-- `rollback_workspace_migrate` -/
def rollback : Migrating Text := do
  let bytes ← fsRead (.target .sidecar)
  let sidecarBytes ← orRefuse (.message .notFound
    "workspace-migrate rollback requires an adoption sidecar.") bytes
  let sidecar ← orRefuse (.message .invalidData
    "invalid workspace-migrate adoption sidecar.") (parseSidecar reader sidecarBytes)
  let expected ← renderPreset render sidecar.previousYaml sidecar.presetId
  let current ← currentYaml
  if current ≠ expected then
    refuse (.message .invalidData
      "workspace-migrate rollback requires the applied yaml to be unchanged.")
  else
    restoreYaml sidecar
    let removed ← removeFile (.target .sidecar)
    orRefuse (.os (.remove (.target .sidecar))) removed
    pure (actionJson "rollback" sidecar.presetId)

inductive Command where
  | apply (preset : Text)
  | rollback

/-- The command line refuses every other preset. -/
def Command.Shipped : Command → Prop
  | .apply preset => preset ∈ shippedPresets
  | .rollback => True

def Command.program : Command → Migrating Text
  | .apply preset => applyPreset render preset
  | .rollback => Migrate.rollback reader render

/-- A call of one of the commands, with what its operations meet. -/
structure Call where
  command : Command
  faults : Faults Operation

/-- The disk after a call, however it ends. -/
def Call.after (c : Call) (d : Disk) : Disk := ((c.command.program reader render).on c.faults d).2

/-- The disk after one call after another. -/
def afterCalls (calls : List Call) (d : Disk) : Disk :=
  calls.foldl (fun d c => c.after reader render d) d

end Commands

end Winsmux.Migrate
