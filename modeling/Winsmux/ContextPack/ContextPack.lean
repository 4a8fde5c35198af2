import Mathlib.Data.Prod.Lex
import Winsmux.ContextPack.PublicPath
import Winsmux.Shrink

/-!
# The context pack

A policy names the groups a pack takes and its limits. The entries of an input are validated,
sorted and cut to the limits on files and references; then, while the text of the pack is too
long, its last entry is given up. What is left out is counted in the pack itself.
-/
namespace Winsmux.ContextPack
open Json

def contextPackSchemaVersion : ℕ := 1
def hardMaxFiles : ℕ := 1000
def hardMaxBytes : ℕ := 1048576
def hardMaxEvidenceRefs : ℕ := 500

inductive IncludeGroup where
  | codeMap
  | changedFiles
  | tests
  | evidenceRefs
  deriving DecidableEq, Repr

def IncludeGroup.all : List IncludeGroup := [.codeMap, .changedFiles, .tests, .evidenceRefs]

def IncludeGroup.name : IncludeGroup → Text
  | .codeMap => utf8 "code-map"
  | .changedFiles => utf8 "changed-files"
  | .tests => utf8 "tests"
  | .evidenceRefs => utf8 "evidence-refs"

structure ContextPackLimits where
  maxFiles : ℕ
  maxBytes : ℕ
  maxEvidenceRefs : ℕ
  deriving DecidableEq

def ContextPackLimits.document (limits : ContextPackLimits) : Value :=
  .obj [(utf8 "max_files", .num limits.maxFiles), (utf8 "max_bytes", .num limits.maxBytes),
    (utf8 "max_evidence_refs", .num limits.maxEvidenceRefs)]

structure ContextPackPrivacy where
  rawTranscript : Bool
  promptBodies : Bool
  secrets : Bool
  privateLocalPaths : Bool

def ContextPackPrivacy.document (privacy : ContextPackPrivacy) : Value :=
  .obj [(utf8 "raw-transcript", .bool privacy.rawTranscript), (utf8 "prompt-bodies", .bool privacy.promptBodies),
    (utf8 "secrets", .bool privacy.secrets), (utf8 "private-local-paths", .bool privacy.privateLocalPaths)]

structure ContextPackPolicy where
  schemaVersion : ℕ
  includes : List IncludeGroup
  limits : ContextPackLimits
  privacy : ContextPackPrivacy

/-- The YAML values of the settings file: what a mapping has under a string, and the policy a
value is read as. -/
structure PolicyReader (ρ : Type) where
  asMapping : ρ → Option (Text → Option ρ)
  fromValue : ρ → Option ContextPackPolicy

/-- The policy a fingerprint is taken of. -/
def normalizedPolicy (includes : List IncludeGroup) (limits : ContextPackLimits) (privacy : ContextPackPrivacy) :
    Value :=
  .obj [(utf8 "schema_version", .num contextPackSchemaVersion),
    (utf8 "include", .arr (includes.map fun g => .str g.name)),
    (utf8 "limits", limits.document), (utf8 "privacy", privacy.document)]

section
variable {ρ : Type} (yaml : PolicyReader ρ) (sha256 : Text → Ledger.Digest)

def sha256Text (t : Text) : Text := utf8 "sha256:" ++ Ledger.hex (sha256 t)

def normalizePolicy (root : ρ) (packId : Text) : Option (List IncludeGroup × ContextPackLimits × Text) := do
  let root ← yaml.asMapping root
  let policies ← (root (utf8 "context-packs")).bind yaml.asMapping
  let raw ← policies packId
  let policy ← yaml.fromValue raw
  if policy.schemaVersion ≠ contextPackSchemaVersion || policy.includes.isEmpty then none
  else if policy.includes.dedup.length ≠ policy.includes.length then none
  else if policy.limits.maxFiles = 0 || hardMaxFiles < policy.limits.maxFiles || policy.limits.maxBytes = 0 ||
      hardMaxBytes < policy.limits.maxBytes || policy.limits.maxEvidenceRefs = 0 ||
      hardMaxEvidenceRefs < policy.limits.maxEvidenceRefs || policy.privacy.rawTranscript ||
      policy.privacy.promptBodies || policy.privacy.secrets || policy.privacy.privateLocalPaths then none
  else
    let includes := IncludeGroup.all.filter policy.includes.contains
    some (includes, policy.limits, sha256Text sha256 (normalizedPolicy includes policy.limits policy.privacy).toVec)

end

structure CodeMapEntry where
  path : Text
  contentSha256 : Text
  deriving DecidableEq

inductive ChangedFileStatus where
  | added
  | modified
  | deleted
  | renamed
  deriving DecidableEq

structure ChangedFileEntry where
  path : Text
  status : ChangedFileStatus
  contentSha256 : Text
  deriving DecidableEq

inductive TestOutcome where
  | passed
  | failed
  | blocked
  | notApplicable
  deriving DecidableEq

structure TestEntry where
  testId : Text
  outcome : TestOutcome
  evidenceRef : Text
  deriving DecidableEq

structure ContextPackInput where
  schemaVersion : ℕ
  sourceHead : Text
  codeMap : List CodeMapEntry
  changedFiles : List ChangedFileEntry
  tests : List TestEntry
  evidenceRefs : List Text

/-- Entries that are safe, with keys that are new; what comes out are the keys seen. -/
def insertAll {α : Type} (safe : α → Bool) (key : α → Text) : List Text → List α → Option (List Text)
  | seen, [] => some seen
  | seen, e :: es => if !safe e || seen.contains (key e) then none else insertAll safe key (key e :: seen) es

/-- The ids of the tests and the references seen. -/
def insertTests : List Text × List Text → List TestEntry → Option (List Text × List Text)
  | seen, [] => some seen
  | (ids, refs), e :: es =>
    if !isStableTestId e.testId || !isSafeEvidenceRef e.evidenceRef || ids.contains e.testId ||
        refs.contains (canonicalPublicPathKey e.evidenceRef) then none
    else insertTests (e.testId :: ids, canonicalPublicPathKey e.evidenceRef :: refs) es

def validateInput (input : ContextPackInput) : Option Unit := do
  if input.schemaVersion ≠ contextPackSchemaVersion || !isLowerHex input.sourceHead 40 then none
  let _ ← insertAll (fun e => isSafeRepoPath e.path && isSha256 e.contentSha256)
    (fun e => canonicalPublicPathKey e.path) [] input.codeMap
  let _ ← insertAll (fun e => isSafeRepoPath e.path && isSha256 e.contentSha256)
    (fun e => canonicalPublicPathKey e.path) [] input.changedFiles
  let (_, evidenceRefs) ← insertTests ([], []) input.tests
  let _ ← insertAll isSafeEvidenceRef canonicalPublicPathKey evidenceRefs input.evidenceRefs
  some ()

/-- Texts are compared byte by byte. -/
def CodeMapEntry.key (e : CodeMapEntry) : List ℕ ×ₗ List ℕ := toLex (rank e.path, rank e.contentSha256)

def ChangedFileStatus.rank : ChangedFileStatus → ℕ
  | .added => 0
  | .modified => 1
  | .deleted => 2
  | .renamed => 3

def ChangedFileEntry.key (e : ChangedFileEntry) : List ℕ ×ₗ ℕ ×ₗ List ℕ :=
  toLex (Json.rank e.path, toLex (e.status.rank, Json.rank e.contentSha256))

def TestOutcome.rank : TestOutcome → ℕ
  | .passed => 0
  | .failed => 1
  | .blocked => 2
  | .notApplicable => 3

def TestEntry.key (e : TestEntry) : List ℕ ×ₗ ℕ ×ₗ List ℕ :=
  toLex (Json.rank e.testId, toLex (e.outcome.rank, Json.rank e.evidenceRef))

def sortBy {α κ : Type} [LinearOrder κ] (key : α → κ) (l : List α) : List α :=
  l.insertionSort fun a b => key a ≤ key b

def ContextPackInput.sorted (input : ContextPackInput) : ContextPackInput :=
  { input with
    codeMap := sortBy CodeMapEntry.key input.codeMap
    changedFiles := sortBy ChangedFileEntry.key input.changedFiles
    tests := sortBy TestEntry.key input.tests
    evidenceRefs := sortBy rank input.evidenceRefs }

structure ContextPackGroups where
  codeMap : List CodeMapEntry
  changedFiles : List ChangedFileEntry
  tests : List TestEntry
  evidenceRefs : List Text
  deriving DecidableEq

structure ContextPackOmissions where
  codeMap : ℕ
  changedFiles : ℕ
  tests : ℕ
  evidenceRefs : ℕ
  omittedByBytes : ℕ
  deriving DecidableEq

structure CanonicalContextPack where
  schemaVersion : ℕ
  packId : Text
  sourceHead : Text
  policyFingerprint : Text
  limits : ContextPackLimits
  groups : ContextPackGroups
  omissions : ContextPackOmissions
  privacyResult : Text
  deriving DecidableEq

structure ContextPackProjection where
  canonicalJson : Text
  digest : Text
  byteCount : ℕ
  deriving DecidableEq

def CodeMapEntry.document (e : CodeMapEntry) : Value :=
  .obj [(utf8 "path", .str e.path), (utf8 "content_sha256", .str e.contentSha256)]

def ChangedFileStatus.name : ChangedFileStatus → Text
  | .added => utf8 "added"
  | .modified => utf8 "modified"
  | .deleted => utf8 "deleted"
  | .renamed => utf8 "renamed"

def ChangedFileEntry.document (e : ChangedFileEntry) : Value :=
  .obj [(utf8 "path", .str e.path), (utf8 "status", .str e.status.name), (utf8 "content_sha256", .str e.contentSha256)]

def TestOutcome.name : TestOutcome → Text
  | .passed => utf8 "passed"
  | .failed => utf8 "failed"
  | .blocked => utf8 "blocked"
  | .notApplicable => utf8 "not_applicable"

def TestEntry.document (e : TestEntry) : Value :=
  .obj [(utf8 "test_id", .str e.testId), (utf8 "outcome", .str e.outcome.name),
    (utf8 "evidence_ref", .str e.evidenceRef)]

def ContextPackGroups.document (g : ContextPackGroups) : Value :=
  .obj [(utf8 "code_map", .arr (g.codeMap.map (·.document))),
    (utf8 "changed_files", .arr (g.changedFiles.map (·.document))),
    (utf8 "tests", .arr (g.tests.map (·.document))), (utf8 "evidence_refs", .arr (g.evidenceRefs.map .str))]

def ContextPackOmissions.document (o : ContextPackOmissions) : Value :=
  .obj [(utf8 "code_map", .num o.codeMap), (utf8 "changed_files", .num o.changedFiles), (utf8 "tests", .num o.tests),
    (utf8 "evidence_refs", .num o.evidenceRefs), (utf8 "omitted_by_bytes", .num o.omittedByBytes)]

def CanonicalContextPack.document (pack : CanonicalContextPack) : Value :=
  .obj [(utf8 "schema_version", .num pack.schemaVersion), (utf8 "pack_id", .str pack.packId),
    (utf8 "source_head", .str pack.sourceHead), (utf8 "policy_fingerprint", .str pack.policyFingerprint),
    (utf8 "limits", pack.limits.document), (utf8 "groups", pack.groups.document),
    (utf8 "omissions", pack.omissions.document), (utf8 "privacy_result", .str pack.privacyResult)]

/-- The bytes of a pack. -/
def CanonicalContextPack.toVec (pack : CanonicalContextPack) : Text := pack.document.toVec

/-- What a group keeps of its entries, how many it omits, and what is left of the budget. -/
def keepGroup {α : Type} (included : Bool) (remaining : ℕ) (entries : List α) : List α × ℕ × ℕ :=
  if included then
    let keep := min remaining entries.length
    (entries.take keep, entries.length - keep, remaining - keep)
  else ([], entries.length, remaining)

def limitGroups (includes : List IncludeGroup) (limits : ContextPackLimits) (input : ContextPackInput) :
    ContextPackGroups × ContextPackOmissions :=
  let (codeMap, codeMapOmitted, remainingFiles) := keepGroup (includes.contains .codeMap) limits.maxFiles input.codeMap
  let (changedFiles, changedFilesOmitted, _) :=
    keepGroup (includes.contains .changedFiles) remainingFiles input.changedFiles
  let (tests, testsOmitted, remainingRefs) := keepGroup (includes.contains .tests) limits.maxEvidenceRefs input.tests
  let (evidenceRefs, evidenceRefsOmitted, _) :=
    keepGroup (includes.contains .evidenceRefs) remainingRefs input.evidenceRefs
  (⟨codeMap, changedFiles, tests, evidenceRefs⟩,
    ⟨codeMapOmitted, changedFilesOmitted, testsOmitted, evidenceRefsOmitted, 0⟩)

/-- The list without its last entry, where it has one. -/
def popList {α : Type} (l : List α) : Option (List α) := if l.isEmpty then none else some l.dropLast

def removeOneForByteLimit (pack : CanonicalContextPack) : Option CanonicalContextPack :=
  let g := pack.groups
  let o := { pack.omissions with omittedByBytes := pack.omissions.omittedByBytes + 1 }
  match popList g.evidenceRefs with
  | some kept =>
    some { pack with
      groups := { g with evidenceRefs := kept }
      omissions := { o with evidenceRefs := o.evidenceRefs + 1 } }
  | none =>
    match popList g.tests with
    | some kept =>
      some { pack with
        groups := { g with tests := kept }
        omissions := { o with tests := o.tests + 1 } }
    | none =>
      match popList g.changedFiles with
      | some kept =>
        some { pack with
          groups := { g with changedFiles := kept }
          omissions := { o with changedFiles := o.changedFiles + 1 } }
      | none =>
        match popList g.codeMap with
        | some kept =>
          some { pack with
            groups := { g with codeMap := kept }
            omissions := { o with codeMap := o.codeMap + 1 } }
        | none => none

def ContextPackGroups.size (g : ContextPackGroups) : ℕ :=
  g.evidenceRefs.length + g.tests.length + g.changedFiles.length + g.codeMap.length

theorem length_of_popList {α : Type} {l kept : List α} (h : popList l = some kept) : kept.length < l.length := by
  unfold popList at h
  split at h
  · cases h
  · next hne =>
    obtain rfl := Option.some.inj h
    have hpos : 0 < l.length := List.length_pos_iff.2 (by simpa using hne)
    rw [List.length_dropLast]
    omega

/-- A pack gives up its entries one by one. -/
def packShrinking : Shrinking CanonicalContextPack where
  remove := removeOneForByteLimit
  size pack := pack.groups.size
  size_lt {pack pack'} h := by
    unfold removeOneForByteLimit at h
    dsimp only at h
    split at h
    · next kept hpop =>
      have hlt := length_of_popList hpop
      obtain rfl := Option.some.inj h
      simp only [ContextPackGroups.size]
      omega
    · split at h
      · next kept hpop =>
        have hlt := length_of_popList hpop
        obtain rfl := Option.some.inj h
        simp only [ContextPackGroups.size]
        omega
      · split at h
        · next kept hpop =>
          have hlt := length_of_popList hpop
          obtain rfl := Option.some.inj h
          simp only [ContextPackGroups.size]
          omega
        · split at h
          · next kept hpop =>
            have hlt := length_of_popList hpop
            obtain rfl := Option.some.inj h
            simp only [ContextPackGroups.size]
            omega
          · cases h

/-- `String::from_utf8`. -/
def fromUtf8 (t : Text) : Option Text := if Utf8.fromUtf8Lossy t = t then some t else none

section
variable {ρ : Type} (yaml : PolicyReader ρ) (fromSlice : Text → Option ContextPackInput) (sha256 : Text → Ledger.Digest)

/-- The pack before its bytes are counted. -/
def limitedPack (packId policyFingerprint : Text) (includes : List IncludeGroup) (limits : ContextPackLimits)
    (input : ContextPackInput) : CanonicalContextPack where
  schemaVersion := contextPackSchemaVersion
  packId := packId
  sourceHead := input.sourceHead
  policyFingerprint := policyFingerprint
  limits := limits
  groups := (limitGroups includes limits input.sorted).1
  omissions := (limitGroups includes limits input.sorted).2
  privacyResult := utf8 "pass"

def buildContextPack (root : ρ) (packId inputBytes : Text) : Option ContextPackProjection := do
  if !isContextPackId packId then none
  let (includes, limits, policyFingerprint) ← normalizePolicy yaml sha256 root packId
  let input ← fromSlice inputBytes
  validateInput input
  let canonical ← packShrinking.shrink (fun pack => pack.toVec.length ≤ limits.maxBytes)
    (limitedPack packId policyFingerprint includes limits input)
  let canonicalJson ← fromUtf8 canonical.toVec
  some ⟨canonicalJson, sha256Text sha256 canonical.toVec, canonical.toVec.length⟩

end
end Winsmux.ContextPack
