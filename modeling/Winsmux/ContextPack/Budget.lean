import Winsmux.ContextPack.Valid

/-!
# What a pack keeps

The pack after `n` removals in closed form: the evidence references lose their ends first, then
the tests, the changed files and the code map. The text that comes out is that of the first of
these packs that is short enough; none comes out only if the last one, with no entry, is not.
-/
namespace Winsmux.ContextPack
open Json

/-- The pack with so many entries of its groups, after `n` removals. -/
def CanonicalContextPack.keeping (pack : CanonicalContextPack) (codeMap changedFiles tests evidenceRefs n : ℕ) :
    CanonicalContextPack :=
  let g := pack.groups
  let o := pack.omissions
  { pack with
    groups := {
      codeMap := g.codeMap.take codeMap
      changedFiles := g.changedFiles.take changedFiles
      tests := g.tests.take tests
      evidenceRefs := g.evidenceRefs.take evidenceRefs }
    omissions := {
      codeMap := o.codeMap + (g.codeMap.length - codeMap)
      changedFiles := o.changedFiles + (g.changedFiles.length - changedFiles)
      tests := o.tests + (g.tests.length - tests)
      evidenceRefs := o.evidenceRefs + (g.evidenceRefs.length - evidenceRefs)
      omittedByBytes := o.omittedByBytes + n } }

/-- The pack without its `n` last entries. -/
def CanonicalContextPack.without (pack : CanonicalContextPack) (n : ℕ) : CanonicalContextPack :=
  let g := pack.groups
  pack.keeping
    (g.codeMap.length - (n - g.evidenceRefs.length - g.tests.length - g.changedFiles.length))
    (g.changedFiles.length - (n - g.evidenceRefs.length - g.tests.length))
    (g.tests.length - (n - g.evidenceRefs.length))
    (g.evidenceRefs.length - n) n

@[simp] theorem popList_nil {α : Type} : popList ([] : List α) = none := rfl

theorem popList_take_succ {α : Type} {l : List α} {j : ℕ} (hj : j < l.length) :
    popList (l.take (j + 1)) = some (l.take j) := by
  have hne : (l.take (j + 1)).isEmpty = false := by
    rw [List.isEmpty_eq_false_iff, ← List.length_pos_iff, List.length_take]
    omega
  rw [popList, hne, if_neg (by simp), List.dropLast_eq_take, List.length_take, List.take_take]
  congr 2
  omega

section
variable {pack : CanonicalContextPack} {m c t e n : ℕ}

theorem remove_evidenceRef (h : e < pack.groups.evidenceRefs.length) :
    removeOneForByteLimit (pack.keeping m c t (e + 1) n) = some (pack.keeping m c t e (n + 1)) := by
  have hcount : pack.groups.evidenceRefs.length - (e + 1) + 1 = pack.groups.evidenceRefs.length - e := by omega
  simp only [removeOneForByteLimit, CanonicalContextPack.keeping, popList_take_succ h, Nat.add_assoc, hcount]

theorem remove_test (h : t < pack.groups.tests.length) :
    removeOneForByteLimit (pack.keeping m c (t + 1) 0 n) = some (pack.keeping m c t 0 (n + 1)) := by
  have hcount : pack.groups.tests.length - (t + 1) + 1 = pack.groups.tests.length - t := by omega
  simp only [removeOneForByteLimit, CanonicalContextPack.keeping, List.take_zero, popList_nil, popList_take_succ h,
    Nat.add_assoc, hcount]

theorem remove_changedFile (h : c < pack.groups.changedFiles.length) :
    removeOneForByteLimit (pack.keeping m (c + 1) 0 0 n) = some (pack.keeping m c 0 0 (n + 1)) := by
  have hcount : pack.groups.changedFiles.length - (c + 1) + 1 = pack.groups.changedFiles.length - c := by omega
  simp only [removeOneForByteLimit, CanonicalContextPack.keeping, List.take_zero, popList_nil, popList_take_succ h,
    Nat.add_assoc, hcount]

theorem remove_codeMap (h : m < pack.groups.codeMap.length) :
    removeOneForByteLimit (pack.keeping (m + 1) 0 0 0 n) = some (pack.keeping m 0 0 0 (n + 1)) := by
  have hcount : pack.groups.codeMap.length - (m + 1) + 1 = pack.groups.codeMap.length - m := by omega
  simp only [removeOneForByteLimit, CanonicalContextPack.keeping, List.take_zero, popList_nil, popList_take_succ h,
    Nat.add_assoc, hcount]

theorem remove_nothing : removeOneForByteLimit (pack.keeping 0 0 0 0 n) = none := by
  simp only [removeOneForByteLimit, CanonicalContextPack.keeping, List.take_zero, popList_nil]

end

theorem without_zero (pack : CanonicalContextPack) : pack.without 0 = pack := by
  simp [CanonicalContextPack.without, CanonicalContextPack.keeping]

theorem without_all (pack : CanonicalContextPack) :
    pack.without pack.groups.size = pack.keeping 0 0 0 0 pack.groups.size := by
  simp only [CanonicalContextPack.without, ContextPackGroups.size]
  congr 1 <;> omega

/-- The removals go through the packs without their `n` last entries. -/
theorem removals_without (pack : CanonicalContextPack) : packShrinking.Removals pack.without pack.groups.size where
  next n hn := by
    simp only [ContextPackGroups.size] at hn
    simp only [packShrinking, CanonicalContextPack.without]
    generalize he : pack.groups.evidenceRefs.length = e at *
    generalize ht : pack.groups.tests.length = t at *
    generalize hc : pack.groups.changedFiles.length = c at *
    generalize hm : pack.groups.codeMap.length = m at *
    by_cases hne : n < e
    · obtain ⟨k, hk⟩ : ∃ k, e - n = k + 1 := ⟨e - n - 1, by omega⟩
      rw [hk, show e - (n + 1) = k by omega, show n - e = 0 by omega, show n + 1 - e = 0 by omega]
      exact remove_evidenceRef (by omega)
    · rw [show e - n = 0 by omega, show e - (n + 1) = 0 by omega]
      by_cases hnt : n < e + t
      · obtain ⟨k, hk⟩ : ∃ k, t - (n - e) = k + 1 := ⟨t - (n - e) - 1, by omega⟩
        rw [hk, show t - (n + 1 - e) = k by omega, show n - e - t = 0 by omega, show n + 1 - e - t = 0 by omega]
        exact remove_test (by omega)
      · rw [show t - (n - e) = 0 by omega, show t - (n + 1 - e) = 0 by omega]
        by_cases hnc : n < e + t + c
        · obtain ⟨k, hk⟩ : ∃ k, c - (n - e - t) = k + 1 := ⟨c - (n - e - t) - 1, by omega⟩
          rw [hk, show c - (n + 1 - e - t) = k by omega, show n - e - t - c = 0 by omega,
            show n + 1 - e - t - c = 0 by omega]
          exact remove_changedFile (by omega)
        · obtain ⟨k, hk⟩ : ∃ k, m - (n - e - t - c) = k + 1 := ⟨m - (n - e - t - c) - 1, by omega⟩
          rw [show c - (n - e - t) = 0 by omega, show c - (n + 1 - e - t) = 0 by omega, hk,
            show m - (n + 1 - e - t - c) = k by omega]
          exact remove_codeMap (by omega)
  last := by
    rw [without_all]
    exact @remove_nothing pack pack.groups.size

inductive PackEntry where
  | codeMap (e : CodeMapEntry)
  | changedFile (e : ChangedFileEntry)
  | test (e : TestEntry)
  | evidenceRef (t : Text)

/-- The entries in the order of the groups. -/
def ContextPackGroups.entries (g : ContextPackGroups) : List PackEntry :=
  g.codeMap.map .codeMap ++ (g.changedFiles.map .changedFile ++ (g.tests.map .test ++ g.evidenceRefs.map .evidenceRef))

theorem entries_without {pack : CanonicalContextPack} {n : ℕ} (hn : n ≤ pack.groups.size) :
    (pack.without n).groups.entries = pack.groups.entries.take (pack.groups.size - n) := by
  rw [ContextPackGroups.size] at *
  simp only [CanonicalContextPack.without, CanonicalContextPack.keeping, ContextPackGroups.entries, List.take_append,
    List.map_take, List.length_map]
  congr 1
  · rw [List.take_eq_take_iff, List.length_map]
    omega
  congr 1
  · rw [List.take_eq_take_iff, List.length_map]
    omega
  congr 1
  · rw [List.take_eq_take_iff, List.length_map]
    omega
  · rw [List.take_eq_take_iff, List.length_map]
    omega

/-- The front of all the entries, in order. -/
def KeepsFront {α κ : Type} [LinearOrder κ] (key : α → κ) (kept all : List α) : Prop :=
  ∃ sorted : List α, sorted.Perm all ∧ sorted.Pairwise (fun a b => key a ≤ key b) ∧ kept <+: sorted

theorem KeepsFront.take {α κ : Type} [LinearOrder κ] {key : α → κ} {kept all : List α} (h : KeepsFront key kept all)
    (k : ℕ) : KeepsFront key (kept.take k) all := by
  obtain ⟨sorted, hperm, hsorted, hfront⟩ := h
  exact ⟨sorted, hperm, hsorted, (List.take_prefix k kept).trans hfront⟩

theorem KeepsFront.subset {α κ : Type} [LinearOrder κ] {key : α → κ} {kept all : List α}
    (h : KeepsFront key kept all) : kept ⊆ all := by
  obtain ⟨sorted, hperm, -, hfront⟩ := h
  exact fun e he => hperm.mem_iff.1 (hfront.subset he)

/-- Each included group keeps the front of its entries, the others nothing; what is omitted is
counted, and the limits on files and references hold. -/
structure Packs (includes : List IncludeGroup) (limits : ContextPackLimits) (input : ContextPackInput)
    (pack : CanonicalContextPack) : Prop where
  codeMap : KeepsFront CodeMapEntry.key pack.groups.codeMap input.codeMap
  changedFiles : KeepsFront ChangedFileEntry.key pack.groups.changedFiles input.changedFiles
  tests : KeepsFront TestEntry.key pack.groups.tests input.tests
  evidenceRefs : KeepsFront rank pack.groups.evidenceRefs input.evidenceRefs
  codeMap_excluded : .codeMap ∉ includes → pack.groups.codeMap = []
  changedFiles_excluded : .changedFiles ∉ includes → pack.groups.changedFiles = []
  tests_excluded : .tests ∉ includes → pack.groups.tests = []
  evidenceRefs_excluded : .evidenceRefs ∉ includes → pack.groups.evidenceRefs = []
  codeMap_counted : pack.groups.codeMap.length + pack.omissions.codeMap = input.codeMap.length
  changedFiles_counted : pack.groups.changedFiles.length + pack.omissions.changedFiles = input.changedFiles.length
  tests_counted : pack.groups.tests.length + pack.omissions.tests = input.tests.length
  evidenceRefs_counted : pack.groups.evidenceRefs.length + pack.omissions.evidenceRefs = input.evidenceRefs.length
  files_le : pack.groups.codeMap.length + pack.groups.changedFiles.length ≤ limits.maxFiles
  refs_le : pack.groups.tests.length + pack.groups.evidenceRefs.length ≤ limits.maxEvidenceRefs

/-- Each included group keeps as many entries as the budget has left: the code map comes before
the changed files, and the tests come before the references. -/
structure Fills (includes : List IncludeGroup) (limits : ContextPackLimits) (input : ContextPackInput)
    (groups : ContextPackGroups) : Prop where
  codeMap : .codeMap ∈ includes → groups.codeMap.length = min limits.maxFiles input.codeMap.length
  changedFiles : .changedFiles ∈ includes →
    groups.changedFiles.length = min (limits.maxFiles - groups.codeMap.length) input.changedFiles.length
  tests : .tests ∈ includes → groups.tests.length = min limits.maxEvidenceRefs input.tests.length
  evidenceRefs : .evidenceRefs ∈ includes →
    groups.evidenceRefs.length = min (limits.maxEvidenceRefs - groups.tests.length) input.evidenceRefs.length

section
variable {includes : List IncludeGroup} {limits : ContextPackLimits} {input : ContextPackInput}
    {pack : CanonicalContextPack}

theorem Packs.keeping (h : Packs includes limits input pack) {m c t e : ℕ} (hm : m ≤ pack.groups.codeMap.length)
    (hc : c ≤ pack.groups.changedFiles.length) (ht : t ≤ pack.groups.tests.length)
    (he : e ≤ pack.groups.evidenceRefs.length) (n : ℕ) : Packs includes limits input (pack.keeping m c t e n) where
  codeMap := h.codeMap.take m
  changedFiles := h.changedFiles.take c
  tests := h.tests.take t
  evidenceRefs := h.evidenceRefs.take e
  codeMap_excluded hno := by simp [CanonicalContextPack.keeping, h.codeMap_excluded hno]
  changedFiles_excluded hno := by simp [CanonicalContextPack.keeping, h.changedFiles_excluded hno]
  tests_excluded hno := by simp [CanonicalContextPack.keeping, h.tests_excluded hno]
  evidenceRefs_excluded hno := by simp [CanonicalContextPack.keeping, h.evidenceRefs_excluded hno]
  codeMap_counted := by
    have := h.codeMap_counted
    simp only [CanonicalContextPack.keeping, List.length_take]
    omega
  changedFiles_counted := by
    have := h.changedFiles_counted
    simp only [CanonicalContextPack.keeping, List.length_take]
    omega
  tests_counted := by
    have := h.tests_counted
    simp only [CanonicalContextPack.keeping, List.length_take]
    omega
  evidenceRefs_counted := by
    have := h.evidenceRefs_counted
    simp only [CanonicalContextPack.keeping, List.length_take]
    omega
  files_le := by
    have := h.files_le
    simp only [CanonicalContextPack.keeping, List.length_take]
    omega
  refs_le := by
    have := h.refs_le
    simp only [CanonicalContextPack.keeping, List.length_take]
    omega

theorem Packs.without (h : Packs includes limits input pack) (n : ℕ) : Packs includes limits input (pack.without n) :=
  h.keeping (Nat.sub_le _ _) (Nat.sub_le _ _) (Nat.sub_le _ _) (Nat.sub_le _ _) n

/-- What one group keeps, omits and leaves of its budget. -/
theorem keepGroup_spec {α κ : Type} [LinearOrder κ] {key : α → κ} {included : Bool} {remaining : ℕ} {entries : List α} :
    KeepsFront key (keepGroup included remaining (sortBy key entries)).1 entries ∧
      (included = false → (keepGroup included remaining (sortBy key entries)).1 = []) ∧
      (keepGroup included remaining (sortBy key entries)).1.length +
        (keepGroup included remaining (sortBy key entries)).2.1 = entries.length ∧
      (keepGroup included remaining (sortBy key entries)).1.length +
        (keepGroup included remaining (sortBy key entries)).2.2 = remaining := by
  have hlen : (sortBy key entries).length = entries.length := (perm_sortBy).length_eq
  cases included with
  | true =>
    refine ⟨⟨_, perm_sortBy, pairwise_sortBy, List.take_prefix _ _⟩, nofun, ?_, ?_⟩ <;>
      · simp only [keepGroup, if_true, List.length_take, hlen]
        omega
  | false =>
    refine ⟨⟨_, perm_sortBy, pairwise_sortBy, List.nil_prefix⟩, fun _ => rfl, ?_, ?_⟩ <;> simp [keepGroup, hlen]

theorem packs_limitedPack (packId fingerprint : Text) :
    Packs includes limits input (limitedPack packId fingerprint includes limits input) := by
  obtain ⟨hm, hmno, hmlen, hmleft⟩ :=
    @keepGroup_spec _ _ _ CodeMapEntry.key (includes.contains .codeMap) limits.maxFiles
    input.codeMap
  obtain ⟨hc, hcno, hclen, hcleft⟩ := @keepGroup_spec _ _ _ ChangedFileEntry.key (includes.contains .changedFiles)
    (keepGroup (includes.contains .codeMap) limits.maxFiles (sortBy CodeMapEntry.key input.codeMap)).2.2
    input.changedFiles
  obtain ⟨ht, htno, htlen, htleft⟩ := @keepGroup_spec _ _ _ TestEntry.key (includes.contains .tests)
    limits.maxEvidenceRefs input.tests
  obtain ⟨he, heno, helen, heleft⟩ := @keepGroup_spec _ _ _ rank (includes.contains .evidenceRefs)
    (keepGroup (includes.contains .tests) limits.maxEvidenceRefs (sortBy TestEntry.key input.tests)).2.2
    input.evidenceRefs
  refine ⟨hm, hc, ht, he, fun h => hmno (by simpa using h), fun h => hcno (by simpa using h),
    fun h => htno (by simpa using h), fun h => heno (by simpa using h), hmlen, hclen, htlen, helen, ?_, ?_⟩
  · exact (Nat.add_le_add_left (Nat.le.intro hcleft) _).trans hmleft.le
  · exact (Nat.add_le_add_left (Nat.le.intro heleft) _).trans htleft.le

theorem length_keepGroup {α κ : Type} [LinearOrder κ] {key : α → κ} {included : Bool} {remaining : ℕ}
    {entries : List α} (h : included = true) :
    (keepGroup included remaining (sortBy key entries)).1.length = min remaining entries.length := by
  simp [h, keepGroup, perm_sortBy.length_eq]

theorem left_keepGroup {α κ : Type} [LinearOrder κ] {key : α → κ} {included : Bool} {remaining : ℕ}
    {entries : List α} : (keepGroup included remaining (sortBy key entries)).2.2 =
      remaining - (keepGroup included remaining (sortBy key entries)).1.length :=
  Nat.eq_sub_of_add_eq' keepGroup_spec.2.2.2

theorem fills_limitedPack (packId fingerprint : Text) :
    Fills includes limits input (limitedPack packId fingerprint includes limits input).groups where
  codeMap h := @length_keepGroup _ _ _ CodeMapEntry.key _ limits.maxFiles input.codeMap (List.contains_iff_mem.2 h)
  changedFiles h := by
    have hleft := @left_keepGroup _ _ _ CodeMapEntry.key (includes.contains .codeMap) limits.maxFiles input.codeMap
    exact (@length_keepGroup _ _ _ ChangedFileEntry.key _ _ input.changedFiles (List.contains_iff_mem.2 h)).trans
      (congrArg (min · _) hleft)
  tests h := @length_keepGroup _ _ _ TestEntry.key _ limits.maxEvidenceRefs input.tests (List.contains_iff_mem.2 h)
  evidenceRefs h := by
    have hleft := @left_keepGroup _ _ _ TestEntry.key (includes.contains .tests) limits.maxEvidenceRefs input.tests
    exact (@length_keepGroup _ _ _ rank _ _ input.evidenceRefs (List.contains_iff_mem.2 h)).trans
      (congrArg (min · _) hleft)

end

/-- The pack with no entry at all. -/
def emptyPack (packId policyFingerprint : Text) (includes : List IncludeGroup) (limits : ContextPackLimits)
    (input : ContextPackInput) : CanonicalContextPack where
  schemaVersion := contextPackSchemaVersion
  packId := packId
  sourceHead := input.sourceHead
  policyFingerprint := policyFingerprint
  limits := limits
  groups := ⟨[], [], [], []⟩
  omissions := {
    codeMap := input.codeMap.length
    changedFiles := input.changedFiles.length
    tests := input.tests.length
    evidenceRefs := input.evidenceRefs.length
    omittedByBytes := (limitedPack packId policyFingerprint includes limits input).groups.size }
  privacyResult := utf8 "pass"

section
variable {includes : List IncludeGroup} {limits : ContextPackLimits} {input : ContextPackInput}
  {packId fingerprint : Text}

theorem limitedPack_omittedByBytes :
    (limitedPack packId fingerprint includes limits input).omissions.omittedByBytes = 0 := rfl

theorem limitedPack_without_all :
    (limitedPack packId fingerprint includes limits input).without
      (limitedPack packId fingerprint includes limits input).groups.size =
    emptyPack packId fingerprint includes limits input := by
  have h := @packs_limitedPack includes limits input packId fingerprint
  have hcodeMap := Nat.add_comm _ _ ▸ h.codeMap_counted
  have hchangedFiles := Nat.add_comm _ _ ▸ h.changedFiles_counted
  have htests := Nat.add_comm _ _ ▸ h.tests_counted
  have hevidenceRefs := Nat.add_comm _ _ ▸ h.evidenceRefs_counted
  rw [without_all, CanonicalContextPack.keeping, emptyPack]
  simp only [List.take_zero, Nat.sub_zero, hcodeMap, hchangedFiles, htests, hevidenceRefs, limitedPack_omittedByBytes,
    Nat.zero_add]
  rfl

theorem isAscii_hex (d : Ledger.Digest) : isAscii (Ledger.hex d) = true := by
  have hall : ∀ n < 256, isAscii (Ledger.hexByte (UInt8.ofNat n)) = true := by decide +kernel
  refine isAscii_iff.2 fun c hc => ?_
  obtain ⟨b, -, hcb⟩ := List.mem_flatMap.1 hc
  have hb := hall b.toNat b.toNat_lt
  rw [UInt8.ofNat_toNat] at hb
  exact isAscii_iff.1 hb c hcb

theorem isAscii_sha256Text (sha256 : Text → Ledger.Digest) (t : Text) : isAscii (sha256Text sha256 t) = true := by
  rw [sha256Text, isAscii_append, isAscii_hex]
  decide

/-- The packs of a valid input are text. -/
theorem asciiPack_of_packs {pack : CanonicalContextPack} (h : Packs includes limits input pack) (hvalid : Valid input)
    (hid : isAscii pack.packId = true) (hhead : pack.sourceHead = input.sourceHead)
    (hfingerprint : isAscii pack.policyFingerprint = true) (hpass : pack.privacyResult = utf8 "pass") :
    AsciiPack pack where
  packId := hid
  sourceHead := hhead ▸ isAscii_of_isLowerHex hvalid.sourceHead
  policyFingerprint := hfingerprint
  privacyResult := by rw [hpass]; decide
  codeMap e he :=
    have hsafe := hvalid.codeMap e (h.codeMap.subset he)
    ⟨isAscii_of_isSafeRepoPath hsafe.1, isAscii_of_isSha256 hsafe.2⟩
  changedFiles e he :=
    have hsafe := hvalid.changedFiles e (h.changedFiles.subset he)
    ⟨isAscii_of_isSafeRepoPath hsafe.1, isAscii_of_isSha256 hsafe.2⟩
  tests e he :=
    have hsafe := hvalid.tests e (h.tests.subset he)
    ⟨isAscii_of_isStableTestId hsafe.1, isAscii_of_isSafeEvidenceRef hsafe.2⟩
  evidenceRefs t ht := isAscii_of_isSafeEvidenceRef (hvalid.evidenceRefs t (h.evidenceRefs.subset ht))

end

section
variable {ρ : Type} (yaml : PolicyReader ρ) (fromSlice : Text → Option ContextPackInput) (sha256 : Text → Ledger.Digest)

theorem isAscii_of_normalizePolicy {root : ρ} {packId fingerprint : Text} {includes : List IncludeGroup}
    {limits : ContextPackLimits} (h : normalizePolicy yaml sha256 root packId = some (includes, limits, fingerprint)) :
    isAscii fingerprint = true := by
  simp only [normalizePolicy, Option.bind_eq_bind, Option.bind_eq_some_iff] at h
  obtain ⟨_, -, _, -, _, -, policy, -, h⟩ := h
  split_ifs at h
  obtain ⟨-, -, rfl⟩ : _ ∧ _ ∧ _ := by simpa using h
  exact isAscii_sha256Text _ _

/-- A pack that came out, and its text: nothing of the limited pack is missing but its last
entries, and one of them more would have been too long. -/
structure Built (packId fingerprint : Text) (includes : List IncludeGroup) (limits : ContextPackLimits)
    (input : ContextPackInput) (pack : CanonicalContextPack) (projection : ContextPackProjection) : Prop where
  canonicalJson : projection.canonicalJson = pack.toVec
  digest : projection.digest = sha256Text sha256 projection.canonicalJson
  byteCount : projection.byteCount = projection.canonicalJson.length
  byteCount_le : projection.byteCount ≤ limits.maxBytes
  packs : Packs includes limits input pack
  fills : Fills includes limits input (limitedPack packId fingerprint includes limits input).groups
  removed_le : pack.omissions.omittedByBytes ≤ (limitedPack packId fingerprint includes limits input).groups.size
  removed : pack.groups.entries = (limitedPack packId fingerprint includes limits input).groups.entries.take
    ((limitedPack packId fingerprint includes limits input).groups.size - pack.omissions.omittedByBytes)
  last : 0 < pack.omissions.omittedByBytes → ∃ before, Packs includes limits input before ∧
    before.groups.entries = (limitedPack packId fingerprint includes limits input).groups.entries.take
      ((limitedPack packId fingerprint includes limits input).groups.size - (pack.omissions.omittedByBytes - 1)) ∧
    removeOneForByteLimit before = some pack ∧ limits.maxBytes < before.toVec.length

variable {yaml fromSlice sha256} {root : ρ} {packId inputBytes fingerprint : Text} {includes : List IncludeGroup}
  {limits : ContextPackLimits} {input : ContextPackInput}

theorem built_without {n : ℕ} (hn : n ≤ (limitedPack packId fingerprint includes limits input).groups.size)
    (hfits : ((limitedPack packId fingerprint includes limits input).without n).toVec.length ≤ limits.maxBytes)
    (hbefore : ∀ m < n, ¬((limitedPack packId fingerprint includes limits input).without m).toVec.length ≤
      limits.maxBytes) :
    Built sha256 packId fingerprint includes limits input
      ((limitedPack packId fingerprint includes limits input).without n)
      ⟨((limitedPack packId fingerprint includes limits input).without n).toVec,
        sha256Text sha256 ((limitedPack packId fingerprint includes limits input).without n).toVec,
        ((limitedPack packId fingerprint includes limits input).without n).toVec.length⟩ := by
  have homitted : ((limitedPack packId fingerprint includes limits input).without n).omissions.omittedByBytes = n :=
    Nat.zero_add n
  have hpacks := @packs_limitedPack includes limits input packId fingerprint
  refine ⟨rfl, rfl, rfl, hfits, hpacks.without n, fills_limitedPack packId fingerprint, by rw [homitted]; exact hn,
    by rw [homitted]; exact entries_without hn, ?_⟩
  rw [homitted]
  intro hpos
  refine ⟨_, hpacks.without (n - 1), entries_without (by omega), ?_, Nat.lt_of_not_le (hbefore (n - 1) (by omega))⟩
  have hnext := (removals_without (limitedPack packId fingerprint includes limits input)).next (n - 1) (by omega)
  rwa [Nat.sub_add_cancel hpos] at hnext

/-- For a policy that is accepted and a valid input: what a build gives, when it gives nothing,
and that the order of the input's lists does not matter. -/
theorem buildContextPack_spec (hid : isContextPackId packId = true)
    (hpolicy : normalizePolicy yaml sha256 root packId = some (includes, limits, fingerprint))
    (hinput : fromSlice inputBytes = some input) (hvalid : validateInput input = some ()) :
    (∀ projection, buildContextPack yaml fromSlice sha256 root packId inputBytes = some projection →
      ∃ pack, Built sha256 packId fingerprint includes limits input pack projection) ∧
    (buildContextPack yaml fromSlice sha256 root packId inputBytes = none →
      limits.maxBytes < (emptyPack packId fingerprint includes limits input).toVec.length) ∧
    (∀ inputBytes' input', fromSlice inputBytes' = some input' → Reordered input input' →
      buildContextPack yaml fromSlice sha256 root packId inputBytes' =
        buildContextPack yaml fromSlice sha256 root packId inputBytes) := by
  have hvalid' := validateInput_iff.1 hvalid
  have hpacks := @packs_limitedPack includes limits input packId fingerprint
  have hremovals := removals_without (limitedPack packId fingerprint includes limits input)
  have htext : ∀ n, fromUtf8 ((limitedPack packId fingerprint includes limits input).without n).toVec =
      some ((limitedPack packId fingerprint includes limits input).without n).toVec := fun n =>
    (asciiPack_of_packs (hpacks.without n) hvalid' (isAscii_of_isContextPackId hid) rfl
      (isAscii_of_normalizePolicy yaml sha256 hpolicy) rfl).fromUtf8_eq
  have hbuild : ∀ inputBytes' input', fromSlice inputBytes' = some input' → Reordered input input' →
      buildContextPack yaml fromSlice sha256 root packId inputBytes' =
        (packShrinking.shrink (fun pack => pack.toVec.length ≤ limits.maxBytes)
          (limitedPack packId fingerprint includes limits input)).bind fun canonical =>
            (fromUtf8 canonical.toVec).bind fun canonicalJson =>
              some ⟨canonicalJson, sha256Text sha256 canonical.toVec, canonical.toVec.length⟩ := by
    intro inputBytes' input' hinput' hr
    have hval := validateInput_iff.2 (hvalid'.reordered hr)
    simp [buildContextPack, hid, hpolicy, hinput', hval, limitedPack_reordered hr]
  have hsame := hbuild inputBytes input hinput ⟨rfl, rfl, .refl _, .refl _, .refl _, .refl _⟩
  have hstart := without_zero (limitedPack packId fingerprint includes limits input)
  refine ⟨fun projection h => ?_, fun h => ?_, fun inputBytes' input' hinput' hr => by
    rw [hbuild _ _ hinput' hr, hsame]⟩
  · rw [hsame] at h
    obtain ⟨canonical, hshrink, h⟩ := Option.bind_eq_some_iff.1 h
    rw [← hstart] at hshrink
    obtain ⟨n, hn, rfl, hfits, hbefore⟩ := hremovals.shrink_some hshrink
    rw [htext, Option.bind_some, Option.some.injEq] at h
    subst h
    exact ⟨_, built_without hn (by simpa using hfits) fun m hm => by simpa using hbefore m hm⟩
  · rw [hsame, ← hstart] at h
    cases hshrink : packShrinking.shrink (fun pack => pack.toVec.length ≤ limits.maxBytes)
        ((limitedPack packId fingerprint includes limits input).without 0) with
    | none =>
      have hlong := hremovals.shrink_none hshrink
      rw [limitedPack_without_all] at hlong
      simpa using hlong
    | some canonical =>
      obtain ⟨n, -, rfl, -, -⟩ := hremovals.shrink_some hshrink
      rw [hshrink, Option.bind_some, htext] at h
      cases h

end
def samplePolicy : ContextPackPolicy := ⟨1, [.codeMap], ⟨10, 1000, 5⟩, ⟨false, false, false, false⟩⟩

/-- Settings that hold one policy. -/
def sampleRoot : Value :=
  .obj [(utf8 "context-packs", .obj [(utf8 "review-pack", .obj [(utf8 "schema-version", .num 1),
    (utf8 "include", .arr [.str (utf8 "code-map")]), (utf8 "limits", .obj [(utf8 "max-files", .num 10),
      (utf8 "max-bytes", .num 1000), (utf8 "max-evidence-refs", .num 5)])])])]

def sampleReader : PolicyReader Value where
  asMapping
    | .obj entries => some fun key => entries.lookup key
    | _ => none
  fromValue v :=
    match v.get (utf8 "schema-version"), v.get (utf8 "include"), v.get (utf8 "limits") with
    | some (.num schemaVersion), some (.arr [.str group]), some limits =>
      match IncludeGroup.all.find? fun g => g.name = group, limits.get (utf8 "max-files"),
          limits.get (utf8 "max-bytes"), limits.get (utf8 "max-evidence-refs") with
      | some g, some (.num files), some (.num bytes), some (.num refs) =>
        some ⟨schemaVersion, [g], ⟨files, bytes, refs⟩, ⟨false, false, false, false⟩⟩
      | _, _, _, _ => none
    | _, _, _ => none

def sampleInput : ContextPackInput where
  schemaVersion := 1
  sourceHead := utf8 "0123456789abcdef0123456789abcdef01234567"
  codeMap := [⟨utf8 "core/src/lib.rs",
    utf8 "sha256:aaaaaaaaaaaaaaaaaaaaaaaaaaaaaaaaaaaaaaaaaaaaaaaaaaaaaaaaaaaaaaaa"⟩]
  changedFiles := []
  tests := []
  evidenceRefs := [utf8 "evidence:run/1"]

def sampleInputBytes : Text :=
  utf8 "\x7b\"schema_version\":1,\"source_head\":\"0123456789abcdef0123456789abcdef01234567\"," ++
  utf8 "\"code_map\":[\x7b\"path\":\"core/src/lib.rs\",\"content_sha256\":" ++
  utf8 "\"sha256:aaaaaaaaaaaaaaaaaaaaaaaaaaaaaaaaaaaaaaaaaaaaaaaaaaaaaaaaaaaaaaaa\"\x7d]," ++
  utf8 "\"evidence_refs\":[\"evidence:run/1\"]\x7d"

def sampleFromSlice (t : Text) : Option ContextPackInput := if t = sampleInputBytes then some sampleInput else none

/-- The digests of the policy and of the pack. -/
def sampleDigest (t : Text) : Ledger.Digest :=
  if t = (normalizedPolicy samplePolicy.includes samplePolicy.limits samplePolicy.privacy).toVec then
    #v[1, 111, 197, 198, 90, 155, 219, 97, 114, 193, 72, 184, 223, 208, 44, 110,
    255, 112, 14, 158, 157, 192, 155, 17, 99, 165, 75, 22, 151, 202, 13, 197]
  else
    #v[197, 208, 172, 119, 31, 240, 61, 209, 254, 192, 57, 56, 74, 253, 33, 197,
    93, 150, 224, 187, 37, 7, 218, 75, 22, 85, 70, 191, 34, 41, 50, 29]

theorem buildContextPack_spec_sample : ∃ projection pack,
    buildContextPack sampleReader sampleFromSlice sampleDigest sampleRoot (utf8 "review-pack") sampleInputBytes =
      some projection ∧
    Built sampleDigest (utf8 "review-pack")
      (sha256Text sampleDigest (normalizedPolicy [.codeMap] samplePolicy.limits samplePolicy.privacy).toVec) [.codeMap]
      samplePolicy.limits sampleInput pack projection := by
  obtain ⟨hbuilt, hnone, -⟩ := @buildContextPack_spec Value sampleReader sampleFromSlice sampleDigest sampleRoot
    (utf8 "review-pack") sampleInputBytes
    (sha256Text sampleDigest (normalizedPolicy [.codeMap] samplePolicy.limits samplePolicy.privacy).toVec) [.codeMap]
    samplePolicy.limits sampleInput (by decide +kernel) (by decide +kernel) (if_pos rfl) (by decide +kernel)
  have hshort : (emptyPack (utf8 "review-pack")
      (sha256Text sampleDigest (normalizedPolicy [.codeMap] samplePolicy.limits samplePolicy.privacy).toVec) [.codeMap]
      samplePolicy.limits sampleInput).toVec.length ≤ 1000 := by decide +kernel
  cases hbuild : buildContextPack sampleReader sampleFromSlice sampleDigest sampleRoot (utf8 "review-pack")
    sampleInputBytes with
  | none => exact absurd (hnone hbuild) (Nat.not_lt_of_le hshort)
  | some projection =>
    obtain ⟨pack, hpack⟩ := hbuilt projection hbuild
    exact ⟨projection, pack, rfl, hpack⟩

end Winsmux.ContextPack
