import Winsmux.TeamProfile.Resolve

/-!
# What is resolved

Every slot of a team can be assigned in the catalog. Its fields are those of the overlay where
that has them, and of the preset elsewhere, however the overlays are ordered.
-/
namespace Winsmux.TeamProfile
open Workflow (Yaml)

theorem issueIf_eq_nil {c : Prop} [Decidable c] {i : ValidationIssue} : issueIf c i = [] ↔ ¬ c := by
  unfold issueIf
  split <;> simp_all

theorem listIssues_eq_nil {known : List String} {unknown : String → ValidationIssue}
    {duplicate : ValidationIssue} {seen items : List String} :
    listIssues known unknown duplicate seen items = [] ↔
      items ⊆ known ∧ items.Nodup ∧ ∀ item ∈ items, item ∉ seen := by
  induction items generalizing seen with
  | nil => simp [listIssues]
  | cons item items ih =>
    rw [listIssues, List.append_eq_nil_iff, List.append_eq_nil_iff, issueIf_eq_nil, issueIf_eq_nil, ih]
    rw [List.cons_subset, List.nodup_cons, List.forall_mem_cons, not_not]
    constructor
    · rintro ⟨⟨hknown, hseen⟩, hsub, hnodup, hrest⟩
      exact ⟨⟨hknown, hsub⟩, ⟨fun hmem => hrest item hmem List.mem_cons_self, hnodup⟩, hseen,
        fun x hx hmem => hrest x hx (List.mem_cons_of_mem _ hmem)⟩
    · rintro ⟨⟨hknown, hsub⟩, ⟨hnot, hnodup⟩, hseen, hrest⟩
      refine ⟨⟨hknown, hseen⟩, hsub, hnodup, fun x hx hmem => ?_⟩
      obtain rfl | hmem := List.mem_cons.1 hmem
      · exact hnot hx
      · exact hrest x hx hmem

/-- A list of registered ids: some, known, each once. -/
def Registered (known items : List String) : Prop := items ≠ [] ∧ items ⊆ known ∧ items.Nodup

/-- A backend that the model of a slot allows. -/
def BackendAllowed (catalog : Catalog) (model : ModelEntry) (backend : String) : Prop :=
  backend ∈ allowedBackends catalog model backend

/-- A record that fits its model in the catalog. -/
structure Assignable (catalog : Catalog) (record : SlotRecord) (model : ModelEntry) : Prop where
  found : catalog.models.lookup record.model = some model
  concrete : record.provider ≠ "provider-default" ∧ record.model ≠ "provider-default"
  known : record.provider ∈ catalog.providers
  owner : model.providerId = record.provider
  effort : record.reasoningEffort ∈ model.supportedEffortIds
  backend : ∀ b ∈ record.workerBackend, BackendAllowed catalog model b
  role : record.roleProfile ∈ roleProfiles
  lifecycle : record.lifecycle ∈ lifecycles
  classes : Registered taskClasses record.taskClasses
  delegation : Registered workerDelegation record.delegation

theorem modelIssues_eq_nil {record : SlotRecord} {catalog : Catalog} :
    modelIssues record catalog = [] ↔ ∃ model, catalog.models.lookup record.model = some model ∧
      model.providerId = record.provider ∧ record.reasoningEffort ∈ model.supportedEffortIds ∧
      ∀ b ∈ record.workerBackend, BackendAllowed catalog model b := by
  unfold modelIssues
  cases catalog.models.lookup record.model with
  | none => simp
  | some model =>
    simp only [List.append_eq_nil_iff, issueIf_eq_nil, not_not, Option.some.injEq, exists_eq_left',
      and_assoc]
    cases record.workerBackend with
    | none => simp
    | some backend => simp [issueIf_eq_nil, BackendAllowed]

theorem validateResolvedSlot_eq_nil {record : SlotRecord} {catalog : Catalog} :
    validateResolvedSlot record catalog = [] ↔
      ∃ model, Assignable catalog record model := by
  unfold validateResolvedSlot
  simp only [List.append_eq_nil_iff, issueIf_eq_nil, modelIssues_eq_nil, listIssues_eq_nil, not_or, not_not]
  constructor
  · rintro ⟨⟨⟨⟨⟨⟨⟨⟨hconcrete, hprovider⟩, model, hfound, howner, heffort, hbackend⟩, hrole⟩, hlifecycle⟩,
      hclasses⟩, hclasses'⟩, hdelegation⟩, hdelegation'⟩
    exact ⟨model, hfound, hconcrete, hprovider.1, howner, heffort, hbackend, hrole, hlifecycle,
      ⟨hclasses, hclasses'.1, hclasses'.2.1⟩, ⟨hdelegation, hdelegation'.1, hdelegation'.2.1⟩⟩
  · rintro ⟨model, h⟩
    exact ⟨⟨⟨⟨⟨⟨⟨⟨h.concrete, h.known, h.concrete.1⟩, model, h.found, h.owner, h.effort, h.backend⟩, h.role⟩,
      h.lifecycle⟩, h.classes.1⟩, h.classes.2.1, h.classes.2.2, by simp⟩, h.delegation.1⟩,
      h.delegation.2.1, h.delegation.2.2, by simp⟩

/-- An inferred backend is one that the model allows. -/
theorem inferredWorkerBackend_allowed {model : ModelEntry} {catalog : Catalog} {backend : String}
    (h : inferredWorkerBackend model catalog = some backend) : BackendAllowed catalog model backend := by
  obtain ⟨allowed, hallowed, h⟩ := Option.bind_eq_some_iff.1 h
  have hmem : backend ∈ allowed := by
    split at h
    · next single heq =>
      obtain rfl : single = backend := Option.some.inj h
      have hfilter : single ∈ allowed.filter fun b => b ≠ "" ∧ b ≠ "*" := by
        rw [heq]
        exact List.mem_singleton_self _
      exact (List.mem_filter.1 hfilter).1
    · cases h
  rw [BackendAllowed, allowedBackends, hallowed, Option.getD_some]
  split
  · exact List.mem_singleton_self _
  · exact hmem

/-- The record that a slot was resolved from, with its backend. -/
def ResolvedSlot.record (slot : ResolvedSlot) : SlotRecord :=
  ⟨slot.slotId, slot.provider, slot.model, slot.reasoningEffort, slot.roleProfile, slot.lifecycle,
    slot.taskClasses, slot.delegation, slot.workerBackend⟩

def SlotRecord.inferred (record : SlotRecord) (model : ModelEntry) (catalog : Catalog) : SlotRecord :=
  { record with workerBackend := record.workerBackend.or (inferredWorkerBackend model catalog) }

theorem Assignable.inferred {catalog : Catalog} {record : SlotRecord} {model : ModelEntry}
    (h : Assignable catalog record model) : Assignable catalog (record.inferred model catalog) model := by
  refine ⟨h.found, h.concrete, h.known, h.owner, h.effort, fun b hb => ?_, h.role, h.lifecycle, h.classes,
    h.delegation⟩
  rcases Option.or_eq_some_iff.1 hb with hb | ⟨-, hb⟩
  · exact h.backend b hb
  · exact inferredWorkerBackend_allowed hb

theorem resolveSlot_eq_ok {catalog : Catalog} {preset : SlotRecord} {overlay : Option OverlaySlot}
    {slot : ResolvedSlot} : resolveSlot catalog preset overlay = .ok slot ↔
      ∃ record model, slotRecord preset overlay = .ok record ∧ Assignable catalog record model ∧
        slot.record = record.inferred model catalog ∧ slot.launchModel = model.launchModel ∧
        slot.overrides = overlay.elim [] OverlaySlot.overrides := by
  unfold resolveSlot
  rw [bind_eq_ok]
  refine exists_congr fun record => ?_
  rw [check_bind_eq_ok, reject_eq_ok_iff, not_not, validateResolvedSlot_eq_nil]
  constructor
  · rintro ⟨hrecord, ⟨model, hmodel⟩, h⟩
    rw [hmodel.found] at h
    obtain rfl := Except.ok.inj h
    exact ⟨model, hrecord, hmodel, rfl, rfl, rfl⟩
  · rintro ⟨model, hrecord, hmodel, hslot, hlaunch, hoverrides⟩
    refine ⟨hrecord, ⟨model, hmodel⟩, ?_⟩
    rw [hmodel.found]
    cases slot
    simp only [ResolvedSlot.record, SlotRecord.inferred, SlotRecord.mk.injEq] at hslot hlaunch hoverrides
    simp [okOr, hslot, hlaunch, hoverrides]

/-- A slot is refused with an issue at least. -/
theorem resolveSlot_error (catalog : Catalog) (preset : SlotRecord) (overlay : Option OverlaySlot) :
    ErrorsIn (· ≠ []) (resolveSlot catalog preset overlay) := by
  have hlist : ∀ value, ErrorsIn (· ≠ []) (yamlStringList value) := by
    intro value
    unfold yamlStringList
    split
    · exact errorsIn_ok _
    · split
      · exact errorsIn_ok _
      · exact errorsIn_error (List.cons_ne_nil _ _)
    · exact errorsIn_error (List.cons_ne_nil _ _)
  have hfield : ∀ (o : OverlaySlot) field default code remediation,
      ErrorsIn (· ≠ []) (o.list preset field default code remediation) := by
    intro o field default code remediation
    unfold OverlaySlot.list
    split
    · exact errorsIn_ok _
    · exact (hlist _).bind fun _ _ => errorsIn_okOr (List.cons_ne_nil _ _)
  have hprovider : ∀ o, ErrorsIn (· ≠ []) (overlayProvider o) := by
    intro o
    unfold overlayProvider
    split
    · split
      · exact errorsIn_error (List.cons_ne_nil _ _)
      · exact errorsIn_ok _
    · exact errorsIn_ok _
    · exact errorsIn_ok _
  have hrecord : ErrorsIn (· ≠ []) (slotRecord preset overlay) := by
    cases overlay with
    | none => exact errorsIn_ok _
    | some o =>
      exact (hprovider o).bind fun _ _ => (hfield o _ _ _ _).bind fun _ _ => (hfield o _ _ _ _).bind fun _ _ =>
        errorsIn_ok _
  refine hrecord.bind fun record _ => ErrorsIn.bind ?_ fun _ _ =>
    ErrorsIn.bind (errorsIn_okOr (List.cons_ne_nil _ _)) fun _ _ => errorsIn_ok _
  rintro e he rfl
  unfold reject at he
  split at he
  · next hne => exact hne (Except.error.inj he)
  · cases he

/-- The overlay of a slot. -/
def overlayOf (overlays : List OverlaySlot) (slotId : String) : Option OverlaySlot :=
  overlays.find? fun overlay => overlay.slotId = slotId

theorem overlayOf_filter {overlays : List OverlaySlot} {id id' : String} (h : id ≠ id') :
    overlayOf (overlays.filter fun overlay => overlay.slotId ≠ id) id' = overlayOf overlays id' := by
  unfold overlayOf
  induction overlays with
  | nil => rfl
  | cons overlay overlays ih =>
    by_cases heq : overlay.slotId = id
    · rw [List.filter_cons_of_neg (by simpa using heq), ih, List.find?_cons_of_neg]
      simpa [heq] using h
    · rw [List.filter_cons_of_pos (by simpa using heq), List.find?_cons, List.find?_cons, ih]

/-- Without an issue every slot is resolved, each with its overlay. -/
theorem resolveSlots_spec (catalog : Catalog) {presets : List SlotRecord} {overlays : List OverlaySlot}
    {overlay : String → Option OverlaySlot}
    (hoverlay : ∀ preset ∈ presets, overlayOf overlays preset.slotId = overlay preset.slotId)
    (hnodup : (presets.map SlotRecord.slotId).Nodup) {resolved : List ResolvedSlot} :
    ((resolveSlots catalog presets overlays).1 = resolved ∧ (resolveSlots catalog presets overlays).2.1 = []) ↔
      List.Forall₂ (fun preset slot => resolveSlot catalog preset (overlay preset.slotId) = .ok slot)
        presets resolved := by
  induction presets generalizing overlays resolved with
  | nil => simp [resolveSlots, eq_comm]
  | cons preset presets ih =>
    obtain ⟨hpreset, hpresets⟩ := List.forall_mem_cons.1 hoverlay
    rw [List.map_cons, List.nodup_cons] at hnodup
    have hrest : ∀ p ∈ presets, overlayOf (overlays.filter fun overlay => overlay.slotId ≠ preset.slotId) p.slotId =
        overlay p.slotId := by
      intro p hp
      have hne : preset.slotId ≠ p.slotId := fun heq => hnodup.1 (heq ▸ List.mem_map_of_mem hp)
      rw [overlayOf_filter hne, hpresets p hp]
    change overlays.find? (fun overlay => overlay.slotId = preset.slotId) = _ at hpreset
    rw [resolveSlots, hpreset]
    cases hslot : resolveSlot catalog preset (overlay preset.slotId) with
    | error issues =>
      refine iff_of_false (fun h => ?_) fun h => ?_
      · exact resolveSlot_error catalog preset _ issues hslot (List.append_eq_nil_iff.1 h.2).1
      · cases resolved with
        | nil => cases h
        | cons slot resolved =>
          rw [List.forall₂_cons, hslot] at h
          cases h.1
    | ok slot =>
      dsimp only
      cases resolved with
      | nil => exact iff_of_false (fun h => List.cons_ne_nil _ _ h.1) fun h => by cases h
      | cons slot' resolved =>
        rw [List.forall₂_cons, hslot, ← ih hrest hnodup.2, List.cons.injEq, Except.ok.injEq, and_assoc]

theorem resolveSlots_rest (catalog : Catalog) (presets : List SlotRecord) (overlays : List OverlaySlot) :
    (resolveSlots catalog presets overlays).2.2 =
      overlays.filter fun overlay => overlay.slotId ∉ presets.map SlotRecord.slotId := by
  induction presets generalizing overlays with
  | nil => simp [resolveSlots]
  | cons preset presets ih =>
    have hfilter : (overlays.filter fun overlay => overlay.slotId ≠ preset.slotId).filter
        (fun overlay => overlay.slotId ∉ presets.map SlotRecord.slotId) =
          overlays.filter fun overlay => overlay.slotId ∉ (preset :: presets).map SlotRecord.slotId := by
      rw [List.filter_filter]
      refine List.filter_congr fun overlay _ => ?_
      rw [← Bool.decide_and, List.map_cons]
      exact decide_eq_decide.2 (by rw [List.mem_cons, not_or, and_comm])
    rw [resolveSlots, ← hfilter, ← ih]
    cases resolveSlot catalog preset (overlays.find? fun overlay => overlay.slotId = preset.slotId) <;> rfl

theorem collectOverlays_eq_ok {byId overlays result : List OverlaySlot}
    (hnodup : (byId.map OverlaySlot.slotId).Nodup) : collectOverlays byId overlays = .ok result ↔
      result = byId ++ overlays ∧ (∀ overlay ∈ overlays, overlay.slotId ∈ slotIds) ∧
        ((byId ++ overlays).map OverlaySlot.slotId).Nodup := by
  induction overlays generalizing byId with
  | nil => simp [collectOverlays, hnodup, eq_comm]
  | cons overlay overlays ih =>
    rw [collectOverlays, check_bind_eq_ok, check_bind_eq_ok, reject_eq_ok_iff, reject_eq_ok_iff, not_not,
      List.forall_mem_cons]
    have hfresh : ¬ (byId.any (·.slotId = overlay.slotId)) = true ↔
        overlay.slotId ∉ byId.map OverlaySlot.slotId := by
      simp only [List.any_eq_true, decide_eq_true_eq, List.mem_map]
    rw [hfresh]
    constructor
    · rintro ⟨hknown, hnew, h⟩
      have hsnoc : ((byId ++ [overlay]).map OverlaySlot.slotId).Nodup := by
        rw [List.map_append, List.map_singleton]
        simpa [List.concat_eq_append] using hnodup.concat hnew
      rw [ih hsnoc, List.append_assoc, List.singleton_append] at h
      exact ⟨h.1, ⟨hknown, h.2.1⟩, h.2.2⟩
    · rintro ⟨hresult, ⟨hknown, hall⟩, hall'⟩
      have hcons : byId ++ overlay :: overlays = byId ++ [overlay] ++ overlays := by simp
      have hsnoc : ((byId ++ [overlay]).map OverlaySlot.slotId).Nodup := by
        rw [hcons, List.map_append] at hall'
        exact (List.nodup_append.1 hall').1
      refine ⟨hknown, ?_, (ih hsnoc).2 ⟨by rw [hresult, hcons], hall, hcons ▸ hall'⟩⟩
      rw [List.map_append, List.map_singleton] at hsnoc
      exact fun hmem => (List.nodup_append.1 hsnoc).2.2 _ hmem _ (List.mem_singleton_self _) rfl

/-- A team is resolved where each overlay has a slot of its own and each slot is resolved. -/
theorem resolveTeam_eq_ok {preset : Preset} {catalog : Catalog} {profile : TeamProfileMeta}
    {overlays : List OverlaySlot} {team : ResolvedTeam} :
    resolveTeam preset catalog profile overlays = .ok team ↔
      (∀ overlay ∈ overlays, overlay.slotId ∈ slotIds) ∧ (overlays.map OverlaySlot.slotId).Nodup ∧
      List.Forall₂ (fun p slot => resolveSlot catalog p (overlayOf overlays p.slotId) = .ok slot)
        preset.slots team.slots ∧
      team.optedIn = true ∧ team.teamProfile = some profile := by
  have hids : (preset.slots.map SlotRecord.slotId).Nodup := by
    rw [preset.ids]
    decide
  unfold resolveTeam
  rw [bind_eq_ok]
  constructor
  · rintro ⟨byId, hcollect, h⟩
    obtain ⟨hbyId, hknown, hnodup⟩ := (collectOverlays_eq_ok (by simp)).1 hcollect
    rw [List.nil_append] at hbyId hnodup
    subst hbyId
    dsimp only at h
    rw [check_bind_eq_ok, reject_eq_ok_iff, not_not, List.append_eq_nil_iff] at h
    obtain ⟨⟨hissues, -⟩, h⟩ := h
    obtain rfl := Except.ok.inj h
    exact ⟨hknown, hnodup, (resolveSlots_spec catalog (fun _ _ => rfl) hids).1 ⟨rfl, hissues⟩, rfl, rfl⟩
  · rintro ⟨hknown, hnodup, hslots, hopted, hprofile⟩
    refine ⟨overlays, (collectOverlays_eq_ok (by simp)).2 ⟨rfl, hknown, hnodup⟩, ?_⟩
    obtain ⟨hresolved, hissues⟩ := (resolveSlots_spec catalog (fun _ _ => rfl) hids).2 hslots
    have hrest : (resolveSlots catalog preset.slots overlays).2.2 = [] := by
      rw [resolveSlots_rest, List.filter_eq_nil_iff]
      intro overlay hmem
      rw [preset.ids]
      simpa using hknown overlay hmem
    dsimp only
    rw [check_bind_eq_ok, reject_eq_ok_iff, not_not, hissues, hrest, hresolved]
    refine ⟨by simp, ?_⟩
    cases team
    simp_all

/-- What a document that opts in holds: its overlays and its profile. -/
def OptsIn (root : Except String Yaml) (overlays : List OverlaySlot) (profile : TeamProfileMeta) : Prop :=
  ∃ document mapping version value, root = .ok document ∧ document.asMapping = some mapping ∧
    mappingLookup mapping "config-version" = .ok version ∧ (¬ ∃ v ∈ version, yamlI64 v ≠ some 1) ∧
    mappingLookup mapping "team-profile" = .ok (some value) ∧ parseOverlaySlots mapping = .ok overlays ∧
    parseTeamProfileMeta value = .ok profile ∧ profile.preset = officialPresetId

theorem okOr_eq_ok {ε α : Type} {x : Option α} {e : ε} {a : α} : okOr x e = .ok a ↔ x = some a := by
  cases x <;> simp [okOr]

theorem resolveYaml_opted_in {preset : Preset} {catalog : Catalog} {root : Except String Yaml}
    {team : ResolvedTeam} : resolveYaml preset catalog root = .ok team ∧ team.optedIn = true ↔
      ∃ overlays profile, OptsIn root overlays profile ∧
        resolveTeam preset catalog profile overlays = .ok team := by
  cases root with
  | error message => simp [resolveYaml, OptsIn]
  | ok document =>
    simp only [resolveYaml, bind_eq_ok, okOr_eq_ok]
    constructor
    · rintro ⟨⟨mapping, hmapping, version, hversion, ⟨⟩, hone, profile, hprofile, overlays, hoverlays, h⟩, hopted⟩
      cases profile with
      | none =>
        obtain rfl := Except.ok.inj h
        cases hopted
      | some value =>
        obtain ⟨info, hinfo, ⟨⟩, hpreset, h⟩ : ∃ info, parseTeamProfileMeta value = .ok info ∧ ∃ u,
            reject (info.preset ≠ officialPresetId) _ = .ok u ∧ _ := by
          simpa only [bind_eq_ok] using h
        exact ⟨overlays, info, ⟨document, mapping, version, value, rfl, hmapping, hversion,
          reject_eq_ok_iff.1 hone, hprofile, hoverlays, hinfo, not_not.1 (reject_eq_ok_iff.1 hpreset)⟩, h⟩
    · rintro ⟨overlays, info, ⟨document', mapping, version, value, hdocument, hmapping, hversion, hone,
        hprofile, hoverlays, hinfo, hpreset⟩, h⟩
      obtain rfl := Except.ok.inj hdocument
      refine ⟨⟨mapping, hmapping, version, hversion, (), reject_eq_ok_iff.2 hone, some value, hprofile,
        overlays, hoverlays, ?_⟩, (resolveTeam_eq_ok.1 h).2.2.2.1⟩
      simp only [bind_eq_ok]
      exact ⟨info, hinfo, (), reject_eq_ok_iff.2 (not_not.2 hpreset), h⟩

theorem overlaid_slotId {preset record : SlotRecord} {overlay : Option OverlaySlot}
    (h : slotRecord preset overlay = .ok record) : record.slotId = preset.slotId := by
  cases overlay with
  | none =>
    obtain rfl := Except.ok.inj h
    rfl
  | some overlay =>
    simp only [slotRecord, overlaid, bind_eq_ok] at h
    obtain ⟨_, -, _, -, _, -, h⟩ := h
    obtain rfl := Except.ok.inj h
    rfl

theorem resolveSlot_slotId {catalog : Catalog} {preset : SlotRecord} {overlay : Option OverlaySlot}
    {slot : ResolvedSlot} (h : resolveSlot catalog preset overlay = .ok slot) :
    slot.slotId = preset.slotId := by
  obtain ⟨record, model, hrecord, -, hslot, -, -⟩ := resolveSlot_eq_ok.1 h
  calc slot.slotId = slot.record.slotId := rfl
    _ = record.slotId := by rw [hslot]; rfl
    _ = preset.slotId := overlaid_slotId hrecord

/-- A team that is opted in has the six workers in their order, each as the catalog allows it. -/
theorem resolveYaml_assignable {preset : Preset} {catalog : Catalog} {root : Except String Yaml}
    {team : ResolvedTeam} (h : resolveYaml preset catalog root = .ok team) (hopted : team.optedIn = true) :
    team.slots.map ResolvedSlot.slotId = slotIds ∧ ∀ slot ∈ team.slots, ∃ model,
      Assignable catalog slot.record model ∧ slot.launchModel = model.launchModel := by
  obtain ⟨overlays, profile, -, hteam⟩ := resolveYaml_opted_in.1 ⟨h, hopted⟩
  obtain ⟨-, -, hslots, -, -⟩ := resolveTeam_eq_ok.1 hteam
  constructor
  · rw [← preset.ids]
    generalize preset.slots = presets, team.slots = slots at hslots
    induction hslots with
    | nil => rfl
    | cons hslot _ ih => rw [List.map_cons, List.map_cons, ih, resolveSlot_slotId hslot]
  · generalize preset.slots = presets, team.slots = slots at hslots
    induction hslots with
    | nil => simp
    | cons hslot _ ih =>
      refine List.forall_mem_cons.2 ⟨?_, ih⟩
      obtain ⟨record, model, -, hassignable, hrecord, hlaunch, -⟩ := resolveSlot_eq_ok.1 hslot
      exact ⟨model, hrecord ▸ hassignable.inferred, hlaunch⟩

def sampleRecord (slotId : String) : SlotRecord :=
  ⟨slotId, "codex", "gpt", "high", "builder", "session", ["implementation", "test"], ["repro-fix"], none⟩

def samplePreset : Preset := ⟨slotIds.map sampleRecord, by decide⟩

def sampleCatalog : Catalog :=
  ⟨["codex"], [("gpt", ⟨"codex", "gpt-5", ["high", "low"], "local"⟩)], [("local", ["codex", "*"])]⟩

/-- A project that opts in and overrides two slots. -/
def sampleMapping (items : List Yaml) : Mapping :=
  [(.string "config-version", .number "1"),
    (.string "team-profile", .mapping [(.string "schema-version", .number "1"),
      (.string "preset", .string "official-balanced-v1"), (.string "preset_revision", .number "1"),
      (.string "update-policy", .string "retain-overrides")]),
    (.string "agent-slots", .sequence items)]

def sampleItems : List Yaml :=
  [.mapping [(.string "slot-id", .string "worker-2"), (.string "lifecycle", .string " task ")],
    .mapping [(.string "slot_id", .string "worker-1"), (.string "role_profile", .string "reviewer"),
      (.string "task-classes", .sequence [.string "review"])]]

theorem sample_resolved (items : List Yaml) (h : (resolveYaml samplePreset sampleCatalog
    (.ok (.mapping (sampleMapping items)))).toOption.map ResolvedTeam.optedIn = some true) :
    ∃ team, resolveYaml samplePreset sampleCatalog (.ok (.mapping (sampleMapping items))) = .ok team ∧
      team.optedIn = true := by
  cases hteam : resolveYaml samplePreset sampleCatalog (.ok (.mapping (sampleMapping items))) with
  | error issues =>
    rw [hteam] at h
    cases h
  | ok team =>
    rw [hteam] at h
    exact ⟨team, rfl, Option.some.inj h⟩

theorem resolveYaml_assignable_sample : ∃ team,
    resolveYaml samplePreset sampleCatalog (.ok (.mapping (sampleMapping sampleItems))) = .ok team ∧
      team.slots.map ResolvedSlot.slotId = slotIds ∧ ∀ slot ∈ team.slots, ∃ model,
        Assignable sampleCatalog slot.record model ∧ slot.launchModel = model.launchModel := by
  obtain ⟨team, h, hopted⟩ := sample_resolved sampleItems (by decide +kernel)
  exact ⟨team, h, resolveYaml_assignable h hopted⟩

end Winsmux.TeamProfile
