import Winsmux.ContextPack.ContextPack

/-!
# Valid inputs

What validation accepts, without its loops: safe entries, no two of them with one key. It does
not depend on the order of the entries, and the text of a pack of such entries is UTF-8.
-/
namespace Winsmux.ContextPack
open Json

theorem insertAll_eq_some_iff {α : Type} {safe : α → Bool} {key : α → Text} {seen keys : List Text} {l : List α} :
    insertAll safe key seen l = some keys ↔
      (∀ e ∈ l, safe e = true) ∧ (l.map key).Nodup ∧ (∀ e ∈ l, key e ∉ seen) ∧ (l.map key).reverse ++ seen = keys := by
  induction l generalizing seen with
  | nil => simp [insertAll]
  | cons e l ih =>
    rw [insertAll]
    split
    · next hrej =>
      simp only [Bool.or_eq_true, Bool.not_eq_true', List.contains_eq_mem, decide_eq_true_eq] at hrej
      constructor
      · exact nofun
      · rintro ⟨hsafe, -, hnew, -⟩
        rcases hrej with h | h
        · exact absurd (hsafe e List.mem_cons_self) (by simp [h])
        · exact absurd h (hnew e List.mem_cons_self)
    · next hok =>
      simp only [Bool.or_eq_true, Bool.not_eq_true', List.contains_eq_mem, decide_eq_true_eq, not_or,
        Bool.not_eq_false] at hok
      rw [ih]
      simp only [List.forall_mem_cons, List.map_cons, List.nodup_cons, List.reverse_cons, List.append_assoc,
        List.singleton_append]
      constructor
      · rintro ⟨hsafe, hnodup, hnew, hkeys⟩
        refine ⟨⟨hok.1, hsafe⟩, ⟨fun hmem => ?_, hnodup⟩,
          ⟨hok.2, fun x hx h => hnew x hx (List.mem_cons_of_mem _ h)⟩, hkeys⟩
        obtain ⟨x, hx, hxe⟩ := List.mem_map.1 hmem
        exact hnew x hx (hxe ▸ List.mem_cons_self)
      · rintro ⟨⟨-, hsafe⟩, ⟨hfirst, hnodup⟩, ⟨-, hnew⟩, hkeys⟩
        refine ⟨hsafe, hnodup, fun x hx h => ?_, hkeys⟩
        rcases List.mem_cons.1 h with heq | h
        · exact hfirst (heq ▸ List.mem_map_of_mem hx)
        · exact hnew x hx h

def refKey (e : TestEntry) : Text := canonicalPublicPathKey e.evidenceRef

def safeTest (e : TestEntry) : Bool := isStableTestId e.testId && isSafeEvidenceRef e.evidenceRef

/-- The loop over the tests keeps two sets side by side. -/
theorem insertTests_eq_some_iff {seen keys : List Text × List Text} {l : List TestEntry} :
    insertTests seen l = some keys ↔
      insertAll safeTest TestEntry.testId seen.1 l = some keys.1 ∧
        insertAll safeTest refKey seen.2 l = some keys.2 := by
  induction l generalizing seen with
  | nil => simp [insertTests, insertAll, Prod.ext_iff]
  | cons e l ih =>
    obtain ⟨ids, refs⟩ := seen
    simp only [insertTests, insertAll, safeTest, Bool.not_and]
    by_cases hid : isStableTestId e.testId <;> by_cases href : isSafeEvidenceRef e.evidenceRef <;>
      by_cases hseen : ids.contains e.testId <;> by_cases hkey : refs.contains (refKey e) <;>
      simp_all [refKey]

/-- The entries are safe, and no two of a group have one key; tests and references share theirs. -/
structure Valid (input : ContextPackInput) : Prop where
  schemaVersion : input.schemaVersion = contextPackSchemaVersion
  sourceHead : isLowerHex input.sourceHead 40 = true
  codeMap : ∀ e ∈ input.codeMap, isSafeRepoPath e.path = true ∧ isSha256 e.contentSha256 = true
  codePaths : (input.codeMap.map fun e => canonicalPublicPathKey e.path).Nodup
  changedFiles : ∀ e ∈ input.changedFiles, isSafeRepoPath e.path = true ∧ isSha256 e.contentSha256 = true
  changedPaths : (input.changedFiles.map fun e => canonicalPublicPathKey e.path).Nodup
  tests : ∀ e ∈ input.tests, isStableTestId e.testId = true ∧ isSafeEvidenceRef e.evidenceRef = true
  testIds : (input.tests.map TestEntry.testId).Nodup
  testRefs : (input.tests.map refKey).Nodup
  evidenceRefs : ∀ t ∈ input.evidenceRefs, isSafeEvidenceRef t = true
  refKeys : (input.evidenceRefs.map canonicalPublicPathKey).Nodup
  refsApart : ∀ t ∈ input.evidenceRefs, canonicalPublicPathKey t ∉ input.tests.map refKey

theorem validateInput_iff {input : ContextPackInput} : validateInput input = some () ↔ Valid input := by
  unfold validateInput
  by_cases hhead : input.schemaVersion = contextPackSchemaVersion ∧ isLowerHex input.sourceHead 40 = true
  · simp only [hhead.1, hhead.2, ne_eq, not_true_eq_false, decide_false, Bool.not_true, Bool.or_self,
      Bool.false_eq_true, if_false, Option.bind_eq_bind, Option.bind_eq_some_iff, insertTests_eq_some_iff,
      insertAll_eq_some_iff, Prod.exists, and_true, exists_and_left, exists_eq', safeTest, Bool.and_eq_true,
      List.append_nil, List.not_mem_nil, not_false_eq_true, implies_true, true_and]
    constructor
    · rintro ⟨_, ⟨hcode, hpaths, rfl⟩, _, ⟨hchanged, hchangedPaths, rfl⟩, _, _, ⟨⟨htests, hids, rfl⟩, -, hrefs, rfl⟩,
        hevidence, hkeys, hapart⟩
      exact ⟨hhead.1, hhead.2, hcode, hpaths, hchanged, hchangedPaths, htests, hids, hrefs, hevidence, hkeys,
        fun t ht => by simpa using hapart t ht⟩
    · rintro ⟨-, -, hcode, hpaths, hchanged, hchangedPaths, htests, hids, hrefs, hevidence, hkeys, hapart⟩
      exact ⟨_, ⟨hcode, hpaths, rfl⟩, _, ⟨hchanged, hchangedPaths, rfl⟩, _, _,
        ⟨⟨htests, hids, rfl⟩, htests, hrefs, rfl⟩, hevidence, hkeys, fun t ht => by simpa using hapart t ht⟩
  · have hcond :
        (decide (input.schemaVersion ≠ contextPackSchemaVersion) || !isLowerHex input.sourceHead 40) = true := by
      by_contra hnot
      simp_all
    rw [if_pos hcond]
    refine ⟨fun hnone => ?_, fun h => absurd ⟨h.schemaVersion, h.sourceHead⟩ hhead⟩
    cases hnone

/-- One input with its lists in another order. -/
structure Reordered (input input' : ContextPackInput) : Prop where
  schemaVersion : input.schemaVersion = input'.schemaVersion
  sourceHead : input.sourceHead = input'.sourceHead
  codeMap : input.codeMap.Perm input'.codeMap
  changedFiles : input.changedFiles.Perm input'.changedFiles
  tests : input.tests.Perm input'.tests
  evidenceRefs : input.evidenceRefs.Perm input'.evidenceRefs

variable {input input' : ContextPackInput}

theorem Valid.reordered (h : Valid input) (hr : Reordered input input') : Valid input' where
  schemaVersion := hr.schemaVersion ▸ h.schemaVersion
  sourceHead := hr.sourceHead ▸ h.sourceHead
  codeMap e he := h.codeMap e (hr.codeMap.mem_iff.2 he)
  codePaths := (hr.codeMap.map _).nodup h.codePaths
  changedFiles e he := h.changedFiles e (hr.changedFiles.mem_iff.2 he)
  changedPaths := (hr.changedFiles.map _).nodup h.changedPaths
  tests e he := h.tests e (hr.tests.mem_iff.2 he)
  testIds := (hr.tests.map _).nodup h.testIds
  testRefs := (hr.tests.map _).nodup h.testRefs
  evidenceRefs t ht := h.evidenceRefs t (hr.evidenceRefs.mem_iff.2 ht)
  refKeys := (hr.evidenceRefs.map _).nodup h.refKeys
  refsApart t ht hmem := h.refsApart t (hr.evidenceRefs.mem_iff.2 ht) ((hr.tests.map refKey).mem_iff.2 hmem)

section
variable {α κ : Type} [LinearOrder κ] {key : α → κ} {l l' : List α}

theorem perm_sortBy : (sortBy key l).Perm l := List.perm_insertionSort _ l

theorem pairwise_sortBy : (sortBy key l).Pairwise fun a b => key a ≤ key b := by
  have htotal : Std.Total fun a b : α => key a ≤ key b := ⟨fun a b => le_total (key a) (key b)⟩
  have htrans : IsTrans α fun a b => key a ≤ key b := ⟨fun _ _ _ hab hbc => le_trans hab hbc⟩
  exact List.pairwise_insertionSort _ l

/-- Entries that differ have different keys, so one order is left. -/
theorem sortBy_perm (hkey : Function.Injective key) (h : l.Perm l') : sortBy key l = sortBy key l' :=
  (perm_sortBy.trans (h.trans perm_sortBy.symm)).eq_of_pairwise
    (fun _ _ _ _ hab hba => hkey (le_antisymm hab hba)) pairwise_sortBy pairwise_sortBy

end

theorem codeMapEntry_key_injective : Function.Injective CodeMapEntry.key := by
  rintro ⟨path, sha⟩ ⟨path', sha'⟩ h
  obtain ⟨hpath, hsha⟩ := Prod.mk.inj (toLex_inj.1 h)
  obtain rfl : path = path' := rank_injective hpath
  obtain rfl : sha = sha' := rank_injective hsha
  rfl

theorem changedFileStatus_rank_injective : Function.Injective ChangedFileStatus.rank := by
  intro a b h
  cases a <;> cases b <;> first | rfl | cases h

theorem changedFileEntry_key_injective : Function.Injective ChangedFileEntry.key := by
  rintro ⟨path, status, sha⟩ ⟨path', status', sha'⟩ h
  obtain ⟨hpath, hrest⟩ := Prod.mk.inj (toLex_inj.1 h)
  obtain ⟨hstatus, hsha⟩ := Prod.mk.inj (toLex_inj.1 hrest)
  obtain rfl : path = path' := rank_injective hpath
  obtain rfl : status = status' := changedFileStatus_rank_injective hstatus
  obtain rfl : sha = sha' := rank_injective hsha
  rfl

theorem testOutcome_rank_injective : Function.Injective TestOutcome.rank := by
  intro a b h
  cases a <;> cases b <;> first | rfl | cases h

theorem testEntry_key_injective : Function.Injective TestEntry.key := by
  rintro ⟨id, outcome, ref⟩ ⟨id', outcome', ref'⟩ h
  obtain ⟨hid, hrest⟩ := Prod.mk.inj (toLex_inj.1 h)
  obtain ⟨houtcome, href⟩ := Prod.mk.inj (toLex_inj.1 hrest)
  obtain rfl : id = id' := rank_injective hid
  obtain rfl : outcome = outcome' := testOutcome_rank_injective houtcome
  obtain rfl : ref = ref' := rank_injective href
  rfl

theorem limitedPack_reordered (hr : Reordered input input') (packId fingerprint : Text) (includes : List IncludeGroup)
    (limits : ContextPackLimits) :
    limitedPack packId fingerprint includes limits input = limitedPack packId fingerprint includes limits input' := by
  have hsorted : input.sorted = input'.sorted := by
    rw [ContextPackInput.sorted, ContextPackInput.sorted, sortBy_perm codeMapEntry_key_injective hr.codeMap,
      sortBy_perm changedFileEntry_key_injective hr.changedFiles, sortBy_perm testEntry_key_injective hr.tests,
      sortBy_perm rank_injective hr.evidenceRefs, hr.schemaVersion, hr.sourceHead]
  rw [limitedPack, limitedPack, hsorted, hr.sourceHead]

theorem itemsAscii_map {α : Type} {f : α → Value} {l : List α} (h : ∀ e ∈ l, (f e).asciiStrings = true) :
    itemsAscii (l.map f) = true := by
  induction l with
  | nil => rfl
  | cons e l ih =>
    obtain ⟨he, hl⟩ := List.forall_mem_cons.1 h
    rw [List.map_cons, itemsAscii, he, ih hl]
    rfl

/-- The strings of a pack are ASCII. -/
structure AsciiPack (pack : CanonicalContextPack) : Prop where
  packId : isAscii pack.packId = true
  sourceHead : isAscii pack.sourceHead = true
  policyFingerprint : isAscii pack.policyFingerprint = true
  privacyResult : isAscii pack.privacyResult = true
  codeMap : ∀ e ∈ pack.groups.codeMap, isAscii e.path = true ∧ isAscii e.contentSha256 = true
  changedFiles : ∀ e ∈ pack.groups.changedFiles, isAscii e.path = true ∧ isAscii e.contentSha256 = true
  tests : ∀ e ∈ pack.groups.tests, isAscii e.testId = true ∧ isAscii e.evidenceRef = true
  evidenceRefs : ∀ t ∈ pack.groups.evidenceRefs, isAscii t = true

theorem AsciiPack.fromUtf8_eq {pack : CanonicalContextPack} (h : AsciiPack pack) :
    fromUtf8 pack.toVec = some pack.toVec := by
  have hcode : itemsAscii (pack.groups.codeMap.map (·.document)) = true := by
    refine itemsAscii_map fun e he => ?_
    simp [CodeMapEntry.document, Value.asciiStrings, entriesAscii, h.codeMap e he]
    decide
  have hchanged : itemsAscii (pack.groups.changedFiles.map (·.document)) = true := by
    refine itemsAscii_map fun e he => ?_
    have hname : isAscii e.status.name = true := by cases e.status <;> decide
    simp [ChangedFileEntry.document, Value.asciiStrings, entriesAscii, h.changedFiles e he, hname]
    decide
  have htests : itemsAscii (pack.groups.tests.map (·.document)) = true := by
    refine itemsAscii_map fun e he => ?_
    have hname : isAscii e.outcome.name = true := by cases e.outcome <;> decide
    simp [TestEntry.document, Value.asciiStrings, entriesAscii, h.tests e he, hname]
    decide
  have hrefs : itemsAscii (pack.groups.evidenceRefs.map .str) = true :=
    itemsAscii_map fun t ht => by simpa [Value.asciiStrings] using h.evidenceRefs t ht
  have hdocument : pack.document.asciiStrings = true := by
    simp [CanonicalContextPack.document, ContextPackLimits.document, ContextPackGroups.document,
      ContextPackOmissions.document, Value.asciiStrings, entriesAscii, hcode, hchanged, htests, hrefs, h.packId,
      h.sourceHead, h.policyFingerprint, h.privacyResult]
    decide
  have htext : Utf8.fromUtf8Lossy pack.toVec = pack.toVec :=
    Utf8.fromUtf8Lossy_of_isText (isText_of_isAscii (isAscii_toVec _ hdocument))
  rw [fromUtf8, if_pos htext]

end Winsmux.ContextPack
