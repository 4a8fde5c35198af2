import Mathlib.Data.List.Find
import Winsmux.TeamProfile.ResolveSpec

/-!
# What overrides a preset

Each of seven fields of a slot is the one of its overlay, where that has a value for it, and the one
of the preset elsewhere; a field that the overlay lists without a value follows the preset. The order
in which the overlays are written is of no account.
-/
namespace Winsmux.TeamProfile
open Workflow (Yaml)

/-- The fields that an overlay may have a value for; the backend is resolved in another way. -/
inductive SlotField where
  | provider
  | model
  | reasoningEffort
  | roleProfile
  | lifecycle
  | taskClasses
  | delegation
  deriving DecidableEq

def SlotField.name : SlotField → String
  | .provider => "provider"
  | .model => "model"
  | .reasoningEffort => "reasoning-effort"
  | .roleProfile => "role-profile"
  | .lifecycle => "lifecycle"
  | .taskClasses => "task-classes"
  | .delegation => "delegation"

/-- The value of a field, a list of one text where the field is a text. -/
def SlotRecord.value (record : SlotRecord) : SlotField → List String
  | .provider => [record.provider]
  | .model => [record.model]
  | .reasoningEffort => [record.reasoningEffort]
  | .roleProfile => [record.roleProfile]
  | .lifecycle => [record.lifecycle]
  | .taskClasses => record.taskClasses
  | .delegation => record.delegation

namespace OverlaySlot

def items (overlay : OverlaySlot) (field : String) : Option (List String) :=
  (overlay.fields.lookup field).bind fun value => (yamlStringList value).toOption.join

/-- The value that an overlay has for a field. -/
def value (overlay : OverlaySlot) (field : SlotField) : Option (List String) :=
  match field with
  | .provider => ((overlay.text "provider").or (overlay.text "agent")).map fun text => [text]
  | .taskClasses | .delegation => overlay.items field.name
  | _ => (overlay.text field.name).map fun text => [text]

theorem value_eq_none {overlay : OverlaySlot} {field : SlotField}
    (h : field.name ∉ overlay.overrides) : overlay.value field = none := by
  have hmem : field.name ∈ laneBSlotFields := by cases field <;> decide
  have habsent : overlay.fields.lookup field.name = none ∧
      (field = .provider → overlay.fields.lookup "agent" = none) := by
    simp only [overrides, List.mem_filter, hmem, true_and, hasField, Bool.or_eq_true, Bool.and_eq_true,
      decide_eq_true_eq, not_or, Option.isSome_iff_ne_none, ne_eq, not_not, not_and] at h
    exact ⟨h.1, fun heq => h.2 (by rw [heq]; rfl)⟩
  cases field with
  | provider => simp [value, text, show overlay.fields.lookup "provider" = none from habsent.1, habsent.2 rfl]
  | _ => simp [value, text, items, habsent.1]

end OverlaySlot

theorem overlayProvider_eq_ok {overlay : OverlaySlot} {provider : Option String}
    (h : overlayProvider overlay = .ok provider) :
    provider = (overlay.text "provider").or (overlay.text "agent") := by
  unfold overlayProvider at h
  split at h
  · next hprovider _ =>
    split at h
    · cases h
    · rw [← Except.ok.inj h, hprovider, Option.some_or]
  · next hprovider _ => rw [← Except.ok.inj h, hprovider, Option.some_or]
  · next hprovider => rw [← Except.ok.inj h, hprovider, Option.none_or]

theorem list_eq_ok {overlay : OverlaySlot} {record : SlotRecord} {field : String} {default items : List String}
    {code remediation : String} (h : overlay.list record field default code remediation = .ok items) :
    items = (overlay.items field).getD default := by
  unfold OverlaySlot.list at h
  unfold OverlaySlot.items
  cases hfield : overlay.fields.lookup field with
  | none =>
    rw [hfield] at h
    exact (Except.ok.inj h).symm
  | some value =>
    rw [hfield] at h
    obtain ⟨read, hread, h⟩ := bind_eq_ok.1 h
    rw [okOr_eq_ok] at h
    simp [hread, h, Except.toOption]

/-- Field by field: the value of the overlay, and of the preset where that has none. -/
theorem slotRecord_value {preset record : SlotRecord} {overlay : Option OverlaySlot}
    (h : slotRecord preset overlay = .ok record) (field : SlotField) :
    record.value field = (overlay.bind (·.value field)).getD (preset.value field) := by
  cases overlay with
  | none =>
    obtain rfl := Except.ok.inj h
    rfl
  | some overlay =>
    simp only [slotRecord, overlaid, bind_eq_ok] at h
    obtain ⟨provider, hprovider, classes, hclasses, delegation, hdelegation, h⟩ := h
    obtain rfl := Except.ok.inj h
    have htext : ∀ name default, [(overlay.text name).getD default] =
        ((overlay.text name).map fun text => [text]).getD [default] := by
      intro name default
      cases overlay.text name <;> rfl
    rw [Option.bind_some]
    cases field with
    | provider =>
      rw [overlayProvider_eq_ok hprovider]
      simp only [SlotRecord.value, OverlaySlot.value]
      cases (overlay.text "provider").or (overlay.text "agent") <;> rfl
    | taskClasses => exact list_eq_ok hclasses
    | delegation => exact list_eq_ok hdelegation
    | _ => exact htext _ _

/-- The overlays of a document. -/
def documentOverlays (root : Except String Yaml) : List OverlaySlot :=
  ((root.toOption.bind Yaml.asMapping).bind fun mapping => (parseOverlaySlots mapping).toOption).getD []

theorem OptsIn.documentOverlays {root : Except String Yaml} {overlays : List OverlaySlot}
    {profile : TeamProfileMeta} (h : OptsIn root overlays profile) : documentOverlays root = overlays := by
  obtain ⟨document, mapping, -, -, rfl, hmapping, -, -, -, hoverlays, -, -⟩ := h
  simp [TeamProfile.documentOverlays, hmapping, hoverlays, Except.toOption]

/-- The seven fields of a slot of a team are those that the overlay of the document has values for,
whichever the preset and the catalog, and those of the preset elsewhere. -/
theorem resolveYaml_fields {preset : Preset} {catalog : Catalog} {root : Except String Yaml}
    {team : ResolvedTeam} (h : resolveYaml preset catalog root = .ok team) (hopted : team.optedIn = true) :
    List.Forall₂ (fun p slot =>
      let overlay := overlayOf (documentOverlays root) p.slotId
      slot.slotId = p.slotId ∧ slot.overrides = overlay.elim [] OverlaySlot.overrides ∧
        ∀ field, (field.name ∉ slot.overrides → slot.record.value field = p.value field) ∧
          slot.record.value field = (overlay.bind (·.value field)).getD (p.value field))
      preset.slots team.slots := by
  obtain ⟨overlays, profile, hdocument, hteam⟩ := resolveYaml_opted_in.1 ⟨h, hopted⟩
  obtain ⟨-, -, hslots, -, -⟩ := resolveTeam_eq_ok.1 hteam
  rw [hdocument.documentOverlays]
  refine hslots.imp fun p slot hslot => ?_
  obtain ⟨record, model, hrecord, -, hslot', -, hoverrides⟩ := resolveSlot_eq_ok.1 hslot
  have hvalue : ∀ field, slot.record.value field =
      ((overlayOf overlays p.slotId).bind (·.value field)).getD (p.value field) := by
    intro field
    rw [hslot', ← slotRecord_value hrecord field]
    cases field <;> rfl
  refine ⟨resolveSlot_slotId hslot, hoverrides, fun field => ⟨fun hnot => ?_, hvalue field⟩⟩
  rw [hvalue field]
  cases hoverlay : overlayOf overlays p.slotId with
  | none => rfl
  | some overlay =>
    rw [hoverrides, hoverlay] at hnot
    rw [Option.bind_some, OverlaySlot.value_eq_none hnot, Option.getD_none]

theorem resolveYaml_fields_sample : ∃ team,
    resolveYaml samplePreset sampleCatalog (.ok (.mapping (sampleMapping sampleItems))) = .ok team ∧
      List.Forall₂ (fun p slot =>
        let overlay := overlayOf (documentOverlays (.ok (.mapping (sampleMapping sampleItems)))) p.slotId
        slot.slotId = p.slotId ∧ slot.overrides = overlay.elim [] OverlaySlot.overrides ∧
          ∀ field, (field.name ∉ slot.overrides → slot.record.value field = p.value field) ∧
            slot.record.value field = (overlay.bind (·.value field)).getD (p.value field))
        samplePreset.slots team.slots := by
  obtain ⟨team, h, hopted⟩ := sample_resolved sampleItems (by decide +kernel)
  exact ⟨team, h, resolveYaml_fields h hopted⟩

/-- What an entry of `agent-slots` is read as by itself. -/
def Reads (item : Yaml) (overlay : OverlaySlot) : Prop :=
  ∃ mapping, item.asMapping = some mapping ∧ readSlotId mapping = .ok overlay.slotId ∧
    readSlotFields overlay.slotId [] [] mapping = .ok (overlay.fields, overlay.extras)

def OverlaySlot.key (overlay : OverlaySlot) : String := toAsciiLowercase overlay.slotId

theorem readOverlaySlots_eq_ok {seen : List String} {items : List Yaml} {overlays : List OverlaySlot} :
    readOverlaySlots seen items = .ok overlays ↔ List.Forall₂ Reads items overlays ∧
      (overlays.map OverlaySlot.key).Nodup ∧ ∀ overlay ∈ overlays, overlay.key ∉ seen := by
  induction items generalizing seen overlays with
  | nil =>
    rw [readOverlaySlots, Except.ok.injEq]
    constructor
    · rintro rfl
      exact ⟨.nil, List.nodup_nil, by simp⟩
    · rintro ⟨h, -⟩
      cases h
      rfl
  | cons item items ih =>
    simp only [readOverlaySlots, bind_eq_ok, okOr_eq_ok]
    constructor
    · rintro ⟨mapping, hmapping, slotId, hslotId, ⟨⟩, hseen, ⟨fields, extras⟩, hfields, slots, hslots, h⟩
      obtain rfl := Except.ok.inj h
      obtain ⟨hread, hnodup, hnew⟩ := ih.1 hslots
      refine ⟨.cons ⟨mapping, hmapping, hslotId, hfields⟩ hread, List.nodup_cons.2 ⟨?_, hnodup⟩,
        List.forall_mem_cons.2 ⟨reject_eq_ok_iff.1 hseen, fun overlay hmem hkey =>
          hnew overlay hmem (List.mem_cons_of_mem _ hkey)⟩⟩
      rintro hmem
      obtain ⟨overlay, hoverlay, hkey⟩ := List.mem_map.1 hmem
      exact hnew overlay hoverlay (hkey ▸ List.mem_cons_self)
    · rintro ⟨hread, hnodup, hnew⟩
      cases hread with
      | cons hitem hread =>
        next overlay overlays =>
        obtain ⟨mapping, hmapping, hslotId, hfields⟩ := hitem
        obtain ⟨hfirst, hrest⟩ := List.forall_mem_cons.1 hnew
        rw [List.map_cons, List.nodup_cons] at hnodup
        refine ⟨mapping, hmapping, overlay.slotId, hslotId, (), reject_eq_ok_iff.2 hfirst,
          (overlay.fields, overlay.extras), hfields, overlays, ih.2 ⟨hread, hnodup.2, ?_⟩, rfl⟩
        intro other hother hkey
        obtain heq | hkey := List.mem_cons.1 hkey
        · have hsame : other.key = overlay.key := heq
          exact hnodup.1 (hsame ▸ List.mem_map_of_mem hother)
        · exact hrest other hother hkey

/-- Entries in another order are read as the same overlays in another order. -/
theorem readOverlaySlots_perm {items items' : List Yaml} {overlays : List OverlaySlot}
    (hperm : items.Perm items') (h : readOverlaySlots [] items = .ok overlays) :
    ∃ overlays', readOverlaySlots [] items' = .ok overlays' ∧ overlays.Perm overlays' := by
  obtain ⟨hread, hnodup, -⟩ := readOverlaySlots_eq_ok.1 h
  obtain ⟨overlays', hread', hperm'⟩ := List.perm_comp_forall₂ hperm.symm hread
  exact ⟨overlays', readOverlaySlots_eq_ok.2 ⟨hread', (hperm'.symm.map _).nodup_iff.1 hnodup, by simp⟩,
    hperm'.symm⟩

theorem overlayOf_perm {overlays overlays' : List OverlaySlot} (hperm : overlays.Perm overlays')
    (hnodup : (overlays.map OverlaySlot.slotId).Nodup) (id : String) :
    overlayOf overlays id = overlayOf overlays' id := by
  refine List.find?_eq_find?_of_perm hperm fun x hx y hy => ?_
  refine List.inj_on_of_nodup_map hnodup hx.1 hy.1 ?_
  rw [of_decide_eq_true hx.2, of_decide_eq_true hy.2]

theorem resolveTeam_perm {preset : Preset} {catalog : Catalog} {profile : TeamProfileMeta}
    {overlays overlays' : List OverlaySlot} {team : ResolvedTeam} (hperm : overlays.Perm overlays')
    (h : resolveTeam preset catalog profile overlays = .ok team) :
    resolveTeam preset catalog profile overlays' = .ok team := by
  obtain ⟨hknown, hnodup, hslots, hteam⟩ := resolveTeam_eq_ok.1 h
  refine resolveTeam_eq_ok.2 ⟨fun overlay hmem => hknown overlay (hperm.mem_iff.2 hmem),
    (hperm.map _).nodup_iff.1 hnodup, hslots.imp fun p slot hslot => ?_, hteam⟩
  rwa [← overlayOf_perm hperm hnodup]

/-- The same mapping, but for what stands under some names. -/
def SameBut (names : List String) (mapping mapping' : Mapping) : Prop :=
  ∀ key ∉ names, Yaml.get key mapping = Yaml.get key mapping'

theorem mappingLookup_congr {names : List String} {kebab : String} {mapping mapping' : Mapping}
    (h : SameBut names mapping mapping') (hkebab : kebab ∉ names) (hsnake : snakeCase kebab ∉ names) :
    mappingLookup mapping kebab = mappingLookup mapping' kebab := by
  simp only [mappingLookup, h kebab hkebab, h (snakeCase kebab) hsnake]

/-- The entries of `agent-slots`, under either of its names and with a tag or without. -/
def agentSlots (mapping : Mapping) : Option (List Yaml) :=
  (mappingLookup mapping "agent-slots").toOption.join.bind asSequence

theorem parseOverlaySlots_eq {mapping : Mapping} {items : List Yaml} (h : agentSlots mapping = some items) :
    parseOverlaySlots mapping = readOverlaySlots [] items := by
  rw [agentSlots] at h
  rw [parseOverlaySlots]
  cases hlookup : mappingLookup mapping "agent-slots" with
  | error issues =>
    rw [hlookup] at h
    cases h
  | ok value =>
    rw [hlookup] at h
    obtain ⟨sequence, rfl, hitems⟩ := Option.bind_eq_some_iff.1 h
    rw [ok_bind]
    dsimp only
    rw [hitems]
    rfl

/-- A project whose entries of `agent-slots` stand in another order gets the same team. -/
theorem agent_slots_perm {preset : Preset} {catalog : Catalog} {root root' : Yaml} {mapping mapping' : Mapping}
    {items items' : List Yaml} {team : ResolvedTeam} (hroot : root.asMapping = some mapping)
    (hroot' : root'.asMapping = some mapping')
    (hsame : SameBut ["agent-slots", "agent_slots"] mapping mapping') (hitems : agentSlots mapping = some items)
    (hitems' : agentSlots mapping' = some items') (hperm : items.Perm items')
    (h : resolveYaml preset catalog (.ok root) = .ok team) (hopted : team.optedIn = true) :
    resolveYaml preset catalog (.ok root') = .ok team := by
  obtain ⟨overlays, profile, ⟨document, _, version, value, hdocument, hmapping, hversion, hone, hprofile,
    hoverlays, hinfo, hpreset⟩, hteam⟩ := resolveYaml_opted_in.1 ⟨h, hopted⟩
  obtain rfl := Except.ok.inj hdocument
  obtain rfl := Option.some.inj (hmapping.symm.trans hroot)
  rw [parseOverlaySlots_eq hitems] at hoverlays
  obtain ⟨overlays', hoverlays', hperm'⟩ := readOverlaySlots_perm hperm hoverlays
  rw [mappingLookup_congr hsame (by decide) (by decide)] at hversion hprofile
  refine (resolveYaml_opted_in.2 ⟨overlays', profile, ⟨_, mapping', version, value, rfl, hroot', hversion, hone,
    hprofile, ?_, hinfo, hpreset⟩, resolveTeam_perm hperm' hteam⟩).1
  rw [parseOverlaySlots_eq hitems', hoverlays']

/-- The entries in the opposite order, under the other name and with a tag. -/
def reversedMapping : Mapping :=
  (sampleMapping []).dropLast ++
    [(.string "agent_slots", .tagged "!team" (.sequence sampleItems.reverse))]

theorem agent_slots_perm_sample : ∃ team,
    resolveYaml samplePreset sampleCatalog (.ok (.mapping (sampleMapping sampleItems))) = .ok team ∧
      resolveYaml samplePreset sampleCatalog (.ok (.mapping reversedMapping)) = .ok team := by
  obtain ⟨team, h, hopted⟩ := sample_resolved sampleItems (by decide +kernel)
  refine ⟨team, h, @agent_slots_perm _ _ _ _ _ _ sampleItems _ _ rfl rfl ?_ rfl rfl
    sampleItems.reverse_perm.symm h hopted⟩
  intro key hkey
  simp only [List.mem_cons, List.not_mem_nil, or_false, not_or] at hkey
  simp [sampleMapping, reversedMapping, Yaml.get, Ne.symm hkey.1, Ne.symm hkey.2]

end Winsmux.TeamProfile
