import Winsmux.Migrate.SidecarReader

/-!
# Adoption can be taken back

After any calls, cut short or not, the settings are what they were, or a sidecar keeps them
and `rollback` accepts it. An existence check that fails counts as absence: it is the one
fault that loses the original.
-/
namespace Winsmux.Migrate
open Json Crash Ledger

section Steps
variable {faults : Faults Operation}

def Failing (faults : Faults Operation) : Prop := ∃ n o, faults n o = .fail

def Stopping (faults : Faults Operation) : Prop := ∃ n o, faults n o = .stop

theorem not_failing_faultless : ¬ Failing faultless := fun ⟨_, _, h⟩ => by cases h

theorem not_stopping_faultless : ¬ Stopping faultless := fun ⟨_, _, h⟩ => by cases h

/-- The existence check of a file that is there does not fail. -/
def Seen (faults : Faults Operation) (t : Target) (content : Option Text) : Prop :=
  content.isSome → ∀ n, faults n (.metadata (.target t)) ≠ .fail

/-- Writing the file beside a target, or renaming it, fails. -/
def ReplaceFails (faults : Faults Operation) (t : Target) : Prop :=
  ∃ n, faults n (.write (.tmp t)) = .fail ∨ faults n (.rename (.tmp t) (.target t)) = .fail

/-- The settings file and the sidecar; the files beside them may hold anything. -/
def Has (yaml sidecar : Option Text) (d : Disk) : Prop :=
  d (.target .yaml) = yaml ∧ d (.target .sidecar) = sidecar

theorem Has.tmp {yaml sidecar : Option Text} {d : Disk} (h : Has yaml sidecar d) (t : Target)
    (v : Option Text) : Has yaml sidecar (Function.update d (.tmp t) v) := by
  simpa [Has] using h

theorem Has.setYaml {yaml sidecar : Option Text} {d : Disk} (h : Has yaml sidecar d)
    (v : Option Text) : Has v sidecar (Function.update d (.target .yaml) v) := by
  simpa [Has] using h.2

theorem Has.setSidecar {yaml sidecar : Option Text} {d : Disk} (h : Has yaml sidecar d)
    (v : Option Text) : Has yaml v (Function.update d (.target .sidecar) v) := by
  simpa [Has] using h.1

/-- Both files, by the one a step is about. -/
def Has.content (yaml sidecar : Option Text) : Target → Option Text
  | .yaml => yaml
  | .sidecar => sidecar

theorem Has.eq {yaml sidecar : Option Text} {d : Disk} (h : Has yaml sidecar d) (t : Target) :
    d (.target t) = Has.content yaml sidecar t := by
  cases t with
  | yaml => exact h.1
  | sidecar => exact h.2

variable {yaml sidecar : Option Text}

theorem leaves_pathExists {t : Target} {post : Post IoError Bool Disk}
    (hseen : Seen faults t (Has.content yaml sidecar t))
    (hdone : ∀ d, Has yaml sidecar d → post.returned (Has.content yaml sidecar t).isSome d)
    (hstop : ∀ d, Has yaml sidecar d → Stopping faults → post.stopped d) :
    Leaves faults (Has yaml sidecar) (pathExists (.target t)) post := by
  unfold pathExists
  refine Leaves.bind (fun found d =>
    found.getD false = (Has.content yaml sidecar t).isSome ∧ Has yaml sidecar d) ?_ ?_
  · refine leaves_attempt ?_ ?_ ?_
    · intro d a d' hd hact
      obtain ⟨rfl, rfl⟩ := Prod.mk.inj (Option.some.inj hact)
      exact ⟨by rw [Option.getD_some, hd.eq t], hd⟩
    · rintro d hd (⟨n, hn⟩ | hact)
      · refine ⟨?_, hd⟩
        cases hcontent : (Has.content yaml sidecar t).isSome with
        | false => rfl
        | true => exact absurd hn (hseen hcontent n)
      · cases hact
    · rintro d hd ⟨n, hn⟩
      exact hstop d hd ⟨n, _, hn⟩
  · intro found
    refine leaves_and fun hfound => leaves_pure fun d hd => ?_
    rw [hfound]
    exact hdone d hd

theorem leaves_fsRead {t : Target} {post : Post IoError (Option Text) Disk}
    (hdone : ∀ d, Has yaml sidecar d → post.returned (Has.content yaml sidecar t) d)
    (hfail : ∀ d, Has yaml sidecar d → Failing faults → post.returned none d)
    (hstop : ∀ d, Has yaml sidecar d → Stopping faults → post.stopped d) :
    Leaves faults (Has yaml sidecar) (fsRead (.target t)) post := by
  refine leaves_attempt ?_ ?_ ?_
  · intro d a d' hd hact
    obtain ⟨bytes, hbytes, heq⟩ := Option.map_eq_some_iff.mp hact
    obtain ⟨rfl, rfl⟩ := Prod.mk.inj heq
    rw [← hbytes, hd.eq t]
    exact hdone d hd
  · rintro d hd (⟨n, hn⟩ | hact)
    · exact hfail d hd ⟨n, _, hn⟩
    · have hnone : Has.content yaml sidecar t = none := by
        rw [← hd.eq t]
        exact Option.map_eq_none_iff.mp hact
      simpa only [hnone] using hdone d hd
  · rintro d hd ⟨n, hn⟩
    exact hstop d hd ⟨n, _, hn⟩

theorem leaves_removeFile {t : Target} {post : Post IoError (Option Unit) Disk}
    (hthere : (Has.content yaml sidecar t).isSome)
    (hdone : ∀ d, Has yaml sidecar d →
      post.returned (some ()) (Function.update d (.target t) none))
    (hfail : ∀ d, Has yaml sidecar d → (∃ n, faults n (.remove (.target t)) = .fail) →
      post.returned none d)
    (hstop : ∀ d, Has yaml sidecar d → Stopping faults → post.stopped d) :
    Leaves faults (Has yaml sidecar) (removeFile (.target t)) post := by
  refine leaves_attempt ?_ ?_ ?_
  · intro d a d' hd hact
    obtain ⟨bytes, -, heq⟩ := Option.map_eq_some_iff.mp hact
    obtain ⟨rfl, rfl⟩ := Prod.mk.inj heq
    exact hdone d hd
  · rintro d hd (hn | hact)
    · exact hfail d hd hn
    · rw [Option.map_eq_none_iff, hd.eq t] at hact
      rw [hact] at hthere
      cases hthere
  · rintro d hd ⟨n, hn⟩
    exact hstop d hd ⟨n, _, hn⟩

theorem leaves_replaceFile {t : Target} {bytes : Text} {post : Post IoError Unit Disk}
    (hdone : ∀ d, Has yaml sidecar d →
      post.returned () (Function.update d (.target t) (some bytes)))
    (hfail : ∀ d e, Has yaml sidecar d → ReplaceFails faults t → post.failed e d)
    (hstop : ∀ d, Has yaml sidecar d → Stopping faults → post.stopped d) :
    Leaves faults (Has yaml sidecar) (replaceFile t bytes) post := by
  unfold replaceFile
  refine Leaves.bind (fun written d => (written = none → ReplaceFails faults t) ∧
    (written = some () → d (.tmp t) = some bytes) ∧ Has yaml sidecar d) ?_ fun written => ?_
  · refine leaves_attempt ?_ ?_ ?_
    · intro d a d' hd hact
      obtain ⟨rfl, rfl⟩ := Prod.mk.inj (Option.some.inj hact)
      exact ⟨nofun, fun _ => Function.update_self .., hd.tmp t _⟩
    · rintro d hd (⟨n, hn⟩ | hact)
      · exact ⟨fun _ => ⟨n, .inl hn⟩, nofun, hd⟩
      · cases hact
    · rintro d hd ⟨n, hn⟩
      exact hstop d hd ⟨n, _, hn⟩
  · refine leaves_and fun hwritten => ?_
    refine Leaves.bind (fun _ d => d (.tmp t) = some bytes ∧ Has yaml sidecar d) ?_
      fun _ => ?_
    · refine leaves_orRefuse ?_ ?_
      · rintro a rfl d hd
        exact ⟨hd.1 rfl, hd.2⟩
      · intro hnone d hd
        exact hfail d _ hd.2 (hwritten hnone)
    · refine Leaves.bind (fun renamed d => (renamed = none → ReplaceFails faults t ∧
        Has yaml sidecar d) ∧ (renamed = some () → post.returned () d)) ?_ fun renamed => ?_
      · refine leaves_attempt ?_ ?_ ?_
        · intro d a d' hd hact
          obtain ⟨b, hb, heq⟩ := Option.map_eq_some_iff.mp hact
          obtain ⟨rfl, rfl⟩ := Prod.mk.inj heq
          rw [hd.1] at hb
          obtain rfl := Option.some.inj hb
          exact ⟨nofun, fun _ => hdone _ (hd.2.tmp t none)⟩
        · rintro d hd (⟨n, hn⟩ | hact)
          · exact ⟨fun _ => ⟨⟨n, .inr hn⟩, hd.2⟩, nofun⟩
          · rw [hd.1] at hact
            cases hact
        · rintro d hd ⟨n, hn⟩
          exact hstop d hd.2 ⟨n, _, hn⟩
      · refine Leaves.catching (fun _ d => ReplaceFails faults t ∧ Has yaml sidecar d)
          ?_ fun e => ?_
        · refine leaves_orRefuse ?_ ?_
          · rintro a rfl d hd
            exact hd.2 rfl
          · rintro rfl d hd
            exact hd.1 rfl
        · refine leaves_and fun hfails => ?_
          refine Leaves.bind (fun _ => Has yaml sidecar) ?_ fun _ => ?_
          · refine leaves_attempt ?_ ?_ ?_
            · intro d a d' hd hact
              obtain ⟨b, -, heq⟩ := Option.map_eq_some_iff.mp hact
              obtain ⟨-, rfl⟩ := Prod.mk.inj heq
              exact hd.tmp t none
            · exact fun d hd _ => hd
            · rintro d hd ⟨n, hn⟩
              exact hstop d hd ⟨n, _, hn⟩
          · exact leaves_refuse fun d hd => hfail d e hd hfails

theorem leaves_readYaml {post : Post IoError (Bool × Text) Disk} (hseen : Seen faults .yaml yaml)
    (hdone : ∀ d, (∀ t ∈ yaml, Utf8.IsText t) → Has yaml sidecar d →
      post.returned (yaml.isSome, yaml.getD []) d)
    (hfail : ∀ d e, Has yaml sidecar d → post.failed e d)
    (hstop : ∀ d, Has yaml sidecar d → Stopping faults → post.stopped d) :
    Leaves faults (Has yaml sidecar) readYaml post := by
  unfold readYaml
  refine Leaves.bind (fun there d => there = yaml.isSome ∧ Has yaml sidecar d)
    (leaves_pathExists hseen (fun d hd => ⟨rfl, hd⟩) hstop) fun there => ?_
  refine leaves_and ?_
  rintro rfl
  cases yaml with
  | none => exact leaves_pure fun d hd => hdone d nofun hd
  | some t =>
    refine Leaves.bind (fun previous d =>
      (∀ p, previous = some p → p = t ∧ Utf8.IsText t) ∧ Has (some t) sidecar d) ?_
      fun previous => leaves_and fun hprevious => ?_
    · refine Leaves.bind (fun bytes d => (∀ p, bytes = some p → p = t) ∧
        Has (some t) sidecar d) ?_ fun bytes => leaves_and fun hbytes => ?_
      · exact leaves_fsRead (fun d hd => ⟨fun p hp => (Option.some.inj hp).symm, hd⟩)
          (fun d hd _ => ⟨nofun, hd⟩) hstop
      · refine leaves_pure fun d hd => ⟨fun p hp => ?_, hd⟩
        obtain ⟨hp, htext⟩ := Option.filter_eq_some_iff.mp hp
        obtain rfl := hbytes p hp
        exact ⟨rfl, Utf8.fromUtf8Lossy_eq_iff.mp (of_decide_eq_true htext)⟩
    · refine Leaves.bind (fun p d => (p = t ∧ Utf8.IsText t) ∧ Has (some t) sidecar d)
        (leaves_orRefuse (fun p hp d hd => ⟨hprevious p hp, hd⟩) fun _ d hd => hfail d _ hd)
        fun p => leaves_and ?_
      rintro ⟨rfl, htext⟩
      exact leaves_pure fun d hd => hdone d (fun _ h => Option.some.inj h ▸ htext) hd

theorem leaves_currentYaml {post : Post IoError Text Disk} (hseen : Seen faults .yaml yaml)
    (hdone : ∀ d, Has yaml sidecar d → post.returned (yaml.getD []) d)
    (hfail : ∀ d e, Has yaml sidecar d → Failing faults → post.failed e d)
    (hstop : ∀ d, Has yaml sidecar d → Stopping faults → post.stopped d) :
    Leaves faults (Has yaml sidecar) currentYaml post := by
  unfold currentYaml
  refine Leaves.bind (fun there d => there = yaml.isSome ∧ Has yaml sidecar d)
    (leaves_pathExists hseen (fun d hd => ⟨rfl, hd⟩) hstop) fun there => ?_
  refine leaves_and ?_
  rintro rfl
  cases yaml with
  | none => exact leaves_pure hdone
  | some t =>
    refine Leaves.bind (fun bytes d => (bytes = none → Failing faults) ∧
      (∀ p, bytes = some p → p = t) ∧ Has (some t) sidecar d) ?_
      fun bytes => leaves_and fun hnone => leaves_and fun hbytes => ?_
    · exact leaves_fsRead (fun d hd => ⟨nofun, fun p hp => (Option.some.inj hp).symm, hd⟩)
        (fun d hd hfails => ⟨fun _ => hfails, nofun, hd⟩) hstop
    · refine leaves_orRefuse (fun p hp d hd => ?_) fun h d hd => hfail d _ hd (hnone h)
      rw [hbytes p hp]
      exact hdone d hd

end Steps

/-- The sidecar that keeps the original. -/
def keeper (preset : Text) (original : Option Text) : Sidecar :=
  ⟨1, preset, original.isSome, original.getD []⟩

def keeps (preset : Text) (original : Option Text) : Text := (keeper preset original).value.toVec

section Commands
variable {faults : Faults Operation} {reader : JsonReader}
  {render : Text → Text → Except IoError Text} {original yaml : Option Text} {preset : Text}

/-- The settings beside a sidecar that keeps the original: still the original, or rendered. -/
structure Adopted (render : Text → Text → Except IoError Text) (original : Option Text)
    (preset : Text) (yaml : Option Text) : Prop where
  shipped : preset ∈ shippedPresets
  text : ∀ t ∈ original, Utf8.IsText t
  stands : yaml = original ∨
    ∃ rendered, render (original.getD []) preset = .ok rendered ∧ yaml = some rendered

/-- The invariant of every run that began with the original and no sidecar. -/
inductive Recoverable (render : Text → Text → Except IoError Text) (original : Option Text)
    (d : Disk) : Prop where
  | untouched (h : Has original none d)
  | adopted (preset : Text) (yaml : Option Text) (hadopted : Adopted render original preset yaml)
      (h : Has yaml (some (keeps preset original)) d)

theorem Adopted.keeps (h : Adopted render original preset yaml) :
    Adopted render original preset original := ⟨h.shipped, h.text, .inl rfl⟩

theorem leaves_renderPreset {pre : Disk → Prop} {previous : Text} {post : Post IoError Text Disk}
    (hok : ∀ rendered, render previous preset = .ok rendered → ∀ d, pre d →
      post.returned rendered d)
    (herror : ∀ e, render previous preset = .error e → ∀ d, pre d → post.failed e d) :
    Leaves faults pre (renderPreset render previous preset) post := by
  unfold renderPreset
  cases hrender : render previous preset with
  | ok rendered => exact leaves_pure (hok rendered hrender)
  | error e => exact leaves_refuse (herror e hrender)

/-- The removal of the sidecar that follows a failed replacement fails as well. -/
def CleanupFails (faults : Faults Operation) : Prop :=
  ReplaceFails faults .yaml ∧ ∃ n, faults n (.remove (.target .sidecar)) = .fail

theorem leaves_applyPreset (hpreset : preset ∈ shippedPresets)
    (hseen : Seen faults .yaml original) :
    Leaves faults (Has original none) (applyPreset render preset)
      ⟨fun out d => out = actionJson "apply" preset ∧ (∀ t ∈ original, Utf8.IsText t) ∧
          ∃ rendered, render (original.getD []) preset = .ok rendered ∧
            Has (some rendered) (some (keeps preset original)) d,
        fun _ d => Has original none d ∨ CleanupFails faults ∧ Recoverable render original d,
        Recoverable render original⟩ := by
  have hstop : ∀ d, Has original none d → Stopping faults → Recoverable render original d :=
    fun d hd _ => .untouched hd
  unfold applyPreset
  refine Leaves.bind (fun there d => there = false ∧ Has original none d)
    (leaves_pathExists (fun h => by cases h) (fun d hd => ⟨rfl, hd⟩) hstop) fun there => ?_
  refine leaves_and ?_
  rintro rfl
  refine Leaves.bind (fun previous d => ((∀ t ∈ original, Utf8.IsText t) ∧
    previous = (original.isSome, original.getD [])) ∧ Has original none d)
    (leaves_readYaml hseen (fun d htext hd => ⟨⟨htext, rfl⟩, hd⟩) (fun d e hd => .inl hd) hstop)
    fun previous => leaves_and ?_
  rintro ⟨htext, rfl⟩
  refine Leaves.bind (fun rendered d =>
    render (original.getD []) preset = .ok rendered ∧ Has original none d)
    (leaves_renderPreset (fun rendered hrender d hd => ⟨hrender, hd⟩) fun e _ d hd => .inl hd)
    fun rendered => leaves_and fun hrender => ?_
  have hadopted : Adopted render original preset original := ⟨hpreset, htext, .inl rfl⟩
  refine Leaves.bind (fun _ => Has original none) ?_ fun created => ?_
  · refine leaves_attempt ?_ (fun d hd _ => hd) fun d hd ⟨n, hn⟩ => hstop d hd ⟨n, _, hn⟩
    intro d a d' hd hact
    obtain ⟨-, rfl⟩ := Prod.mk.inj (Option.some.inj hact)
    exact hd
  refine Leaves.bind (fun _ => Has original none)
    (leaves_orRefuse (fun _ _ d hd => hd) fun _ d hd => .inl hd) fun _ => ?_
  refine Leaves.bind (fun _ => Has original (some (keeps preset original)))
    (leaves_replaceFile (fun d hd => hd.setSidecar _) (fun d e hd _ => .inl hd) hstop)
    fun _ => ?_
  refine Leaves.bind (fun _ => Has (some rendered) (some (keeps preset original)))
    (Leaves.catching
      (fun _ d => ReplaceFails faults .yaml ∧ Has original (some (keeps preset original)) d)
      (leaves_replaceFile (fun d hd => hd.setYaml _) (fun d e hd hfails => ⟨hfails, hd⟩)
        fun d hd _ => .adopted preset original hadopted hd)
      fun e => leaves_and fun hfails => ?_)
    fun _ => leaves_pure fun d hd => ⟨rfl, htext, rendered, hrender, hd⟩
  refine Leaves.bind
    (fun _ d => Has original none d ∨ CleanupFails faults ∧ Recoverable render original d)
    (leaves_removeFile rfl (fun d hd => .inl (hd.setSidecar none))
      (fun d hd hn => .inr ⟨⟨hfails, hn⟩, .adopted preset original hadopted hd⟩)
      fun d hd _ => .adopted preset original hadopted hd)
    fun _ => leaves_refuse fun d hd => hd

/-- `apply` refuses beside a sidecar. -/
theorem leaves_applyPreset_adopted {sidecar : Text} (hseen : Seen faults .sidecar (some sidecar)) :
    Leaves faults (Has yaml (some sidecar)) (applyPreset render preset)
      ⟨fun _ => Has yaml (some sidecar), fun _ => Has yaml (some sidecar),
        Has yaml (some sidecar)⟩ := by
  unfold applyPreset
  refine Leaves.bind (fun there d => there = true ∧ Has yaml (some sidecar) d)
    (leaves_pathExists hseen (fun d hd => ⟨rfl, hd⟩) fun d hd _ => hd) fun there => ?_
  refine leaves_and ?_
  rintro rfl
  exact leaves_refuse fun d hd => hd

/-- `rollback` refuses without a sidecar. -/
theorem leaves_rollback_untouched :
    Leaves faults (Has yaml none) (rollback reader render)
      ⟨fun _ => Has yaml none, fun _ => Has yaml none, Has yaml none⟩ := by
  unfold rollback
  refine Leaves.bind (fun bytes d => bytes = none ∧ Has yaml none d)
    (leaves_fsRead (fun d hd => ⟨rfl, hd⟩) (fun d hd _ => ⟨rfl, hd⟩) fun d hd _ => hd)
    fun bytes => leaves_and ?_
  rintro rfl
  exact Leaves.bind (fun _ _ => False) (leaves_refuse fun d hd => hd)
    fun _ _ h => h.elim

theorem ReplaceFails.failing {t : Target} (h : ReplaceFails faults t) : Failing faults := by
  obtain ⟨n, hn | hn⟩ := h
  · exact ⟨n, _, hn⟩
  · exact ⟨n, _, hn⟩

theorem leaves_restoreYaml {sidecar : Option Text} (hseen : Seen faults .yaml yaml) :
    Leaves faults (Has yaml sidecar) (restoreYaml (keeper preset original))
      ⟨fun _ => Has original sidecar, fun _ d => Failing faults ∧ Has yaml sidecar d,
        fun d => Stopping faults ∧ Has yaml sidecar d⟩ := by
  unfold restoreYaml
  cases original with
  | some t =>
    exact leaves_replaceFile (fun d hd => hd.setYaml _)
      (fun d e hd hfails => ⟨hfails.failing, hd⟩) fun d hd hstops => ⟨hstops, hd⟩
  | none =>
    refine Leaves.bind (fun there d => there = yaml.isSome ∧ Has yaml sidecar d)
      (leaves_pathExists hseen (fun d hd => ⟨rfl, hd⟩) fun d hd hstops => ⟨hstops, hd⟩)
      fun there => leaves_and ?_
    rintro rfl
    cases yaml with
    | none => exact leaves_pure fun d hd => hd
    | some current =>
      refine Leaves.bind (fun removed d => (removed = none → Failing faults ∧
        Has (some current) sidecar d) ∧ (removed = some () → Has none sidecar d)) ?_
        fun removed => ?_
      · exact leaves_removeFile rfl (fun d hd => ⟨nofun, fun _ => hd.setYaml none⟩)
          (fun d hd ⟨n, hn⟩ => ⟨fun _ => ⟨⟨n, _, hn⟩, hd⟩, nofun⟩) fun d hd hstops => ⟨hstops, hd⟩
      · exact leaves_orRefuse (fun _ h d hd => hd.2 h) fun h d hd => hd.1 h

theorem parseSidecar_keeps (hread : ReadsSidecars reader) (h : Adopted render original preset yaml) :
    parseSidecar reader (keeps preset original) = some (keeper preset original) := by
  have htext : Utf8.IsText (original.getD []) := by
    cases original with
    | none => exact ⟨[], nofun, rfl⟩
    | some t => exact h.text t rfl
  have hparse : reader.parse (keeps preset original) = some (keeper preset original).value :=
    hread _ rfl h.shipped htext
  rw [parseSidecar, hparse, Option.bind_some, readSidecar_value _ rfl, Option.filter_some]
  simp [keeper, h.shipped]

/-- `rollback` beside a sidecar that keeps the original. It refuses without a fault only where
the settings are not as rendered. -/
theorem leaves_rollback_adopted (hread : ReadsSidecars reader)
    (h : Adopted render original preset yaml) (hseen : Seen faults .yaml yaml) :
    Leaves faults (Has yaml (some (keeps preset original))) (rollback reader render)
      ⟨fun _ => Has original none,
        fun _ d => (render (original.getD []) preset = .ok (yaml.getD []) → Failing faults) ∧
          Recoverable render original d,
        fun d => Stopping faults ∧ Recoverable render original d⟩ := by
  have hstop : ∀ d, Has yaml (some (keeps preset original)) d → Stopping faults →
      Stopping faults ∧ Recoverable render original d :=
    fun d hd hstops => ⟨hstops, .adopted preset yaml h hd⟩
  unfold rollback
  refine Leaves.bind (fun bytes d => (bytes = none → Failing faults) ∧
    (∀ b, bytes = some b → b = keeps preset original) ∧ Has yaml (some (keeps preset original)) d)
    (leaves_fsRead (fun d hd => ⟨nofun, fun b hb => (Option.some.inj hb).symm, hd⟩)
      (fun d hd hfails => ⟨fun _ => hfails, nofun, hd⟩) hstop)
    fun bytes => leaves_and fun hnone => leaves_and fun hbytes => ?_
  refine Leaves.bind (fun b d => b = keeps preset original ∧
    Has yaml (some (keeps preset original)) d)
    (leaves_orRefuse (fun b hb d hd => ⟨hbytes b hb, hd⟩)
      fun hb d hd => ⟨fun _ => hnone hb, .adopted preset yaml h hd⟩)
    fun b => leaves_and ?_
  rintro rfl
  rw [parseSidecar_keeps hread h]
  refine Leaves.bind (fun s d => s = keeper preset original ∧
    Has yaml (some (keeps preset original)) d)
    (leaves_orRefuse (fun s hs d hd => ⟨(Option.some.inj hs).symm, hd⟩) nofun)
    fun s => leaves_and ?_
  rintro rfl
  refine Leaves.bind (fun expected d => render (original.getD []) preset = .ok expected ∧
    Has yaml (some (keeps preset original)) d)
    (leaves_renderPreset (fun expected hexpected d hd => ⟨hexpected, hd⟩)
      fun e he d hd => ⟨fun hok => ?_, .adopted preset yaml h hd⟩)
    fun expected => leaves_and fun hexpected => ?_
  · cases he.symm.trans hok
  refine Leaves.bind (fun current d => current = yaml.getD [] ∧
    Has yaml (some (keeps preset original)) d)
    (leaves_currentYaml hseen (fun d hd => ⟨rfl, hd⟩)
      (fun d e hd hfails => ⟨fun _ => hfails, .adopted preset yaml h hd⟩) hstop)
    fun current => leaves_and ?_
  rintro rfl
  split
  · next hne =>
    refine leaves_refuse fun d hd => ⟨fun hok => ?_, .adopted preset yaml h hd⟩
    exact absurd (Except.ok.inj (hok.symm.trans hexpected)) hne
  · refine Leaves.bind (fun _ => Has original (some (keeps preset original)))
      ((leaves_restoreYaml hseen).weaken (fun d hd => hd) ?_) fun _ => ?_
    · rintro (_ | _ | _) d hd
      · exact hd
      · exact ⟨fun _ => hd.1, .adopted preset yaml h hd.2⟩
      · exact hstop d hd.2 hd.1
    · refine Leaves.bind (fun removed d => (removed = none → Failing faults ∧
        Recoverable render original d) ∧ (removed = some () → Has original none d)) ?_
        fun removed => ?_
      · exact leaves_removeFile rfl (fun d hd => ⟨nofun, fun _ => hd.setSidecar none⟩)
          (fun d hd ⟨n, hn⟩ => ⟨fun _ => ⟨⟨n, _, hn⟩, .adopted preset original h.keeps hd⟩, nofun⟩)
          fun d hd hstops => ⟨hstops, .adopted preset original h.keeps hd⟩
      · exact Leaves.bind (fun _ => Has original none)
          (leaves_orRefuse (fun _ h d hd => hd.2 h)
            fun h d hd => ⟨fun _ => (hd.1 h).1, (hd.1 h).2⟩)
          fun _ => leaves_pure fun d hd => hd

end Commands

section Runs
variable {reader : JsonReader} {render : Text → Text → Except IoError Text}
  {original : Option Text}

/-- No existence check of a file that is there fails. -/
def Call.Sighted (c : Call) (d : Disk) : Prop := ∀ t, Seen c.faults t (d (.target t))

/-- The call sees the files that are there, and the removal of a sidecar whose settings could
not be replaced does not fail as well. -/
def Call.Sound (c : Call) (d : Disk) : Prop :=
  c.Sighted d ∧ ∀ preset, c.command = .apply preset → ¬ CleanupFails c.faults

/-- Calls of shipped presets, each of them as allowed on the disk it meets. -/
def Allowed (reader : JsonReader) (render : Text → Text → Except IoError Text)
    (allowed : Call → Disk → Prop) : List Call → Disk → Prop
  | [], _ => True
  | c :: cs, d => c.command.Shipped ∧ allowed c d ∧
      Allowed reader render allowed cs (c.after reader render d)

theorem Call.Sighted.seen {c : Call} {d : Disk} (h : c.Sighted d) {yaml sidecar : Option Text}
    (hd : Has yaml sidecar d) (t : Target) : Seen c.faults t (Has.content yaml sidecar t) := by
  rw [← hd.eq t]
  exact h t

/-- A call keeps the original recoverable, wherever it fails or is cut short. -/
theorem recoverable_after (hread : ReadsSidecars reader) {c : Call} {d : Disk}
    (hshipped : c.command.Shipped) (hsighted : c.Sighted d)
    (h : Recoverable render original d) : Recoverable render original (c.after reader render d) := by
  obtain ⟨command, faults⟩ := c
  cases h with
  | untouched hd =>
    cases command with
    | apply preset =>
      have hrun := (@leaves_applyPreset _ render _ _ hshipped (hsighted.seen hd .yaml)).on hd
      unfold Call.after Command.program
      revert hrun
      rcases (applyPreset render preset).on faults d with ⟨_ | _ | _, d'⟩
      · rintro ⟨-, htext, rendered, hrender, hd'⟩
        exact .adopted preset (some rendered) ⟨hshipped, htext, .inr ⟨rendered, hrender, rfl⟩⟩ hd'
      · rintro (hd' | ⟨-, hd'⟩)
        · exact .untouched hd'
        · exact hd'
      · exact id
    | rollback =>
      have hrun := (@leaves_rollback_untouched faults reader render _).on hd
      unfold Call.after Command.program
      revert hrun
      rcases (rollback reader render).on faults d with ⟨_ | _ | _, d'⟩ <;> exact .untouched
  | adopted preset yaml hadopted hd =>
    cases command with
    | apply preset' =>
      have hrun := (@leaves_applyPreset_adopted _ render _ preset' _
        (hsighted.seen hd .sidecar)).on hd
      unfold Call.after Command.program
      revert hrun
      rcases (applyPreset render preset').on faults d with ⟨_ | _ | _, d'⟩ <;>
        exact .adopted preset yaml hadopted
    | rollback =>
      have hrun := (leaves_rollback_adopted hread hadopted (hsighted.seen hd .yaml)).on hd
      unfold Call.after Command.program
      revert hrun
      rcases (rollback reader render).on faults d with ⟨_ | _ | _, d'⟩
      · exact .untouched
      · exact And.right
      · exact And.right

theorem recoverable_afterCalls (hread : ReadsSidecars reader) {calls : List Call} {d : Disk}
    (hcalls : Allowed reader render Call.Sound calls d) (h : Recoverable render original d) :
    Recoverable render original (afterCalls reader render calls d) := by
  induction calls generalizing d with
  | nil => exact h
  | cons c cs ih =>
    obtain ⟨hshipped, hsound, hrest⟩ := hcalls
    exact ih hrest (recoverable_after hread hshipped hsound.1 h)

/-- Beside rendered settings, a `rollback` that meets no fault puts the original back. -/
theorem rollback_faultless (hread : ReadsSidecars reader) {preset rendered : Text} {d : Disk}
    (hshipped : preset ∈ shippedPresets) (htext : ∀ t ∈ original, Utf8.IsText t)
    (hrender : render (original.getD []) preset = .ok rendered)
    (hd : Has (some rendered) (some (keeps preset original)) d) :
    ∃ answer d', (rollback reader render).on faultless d = (.returned answer, d') ∧
      Has original none d' := by
  have hrun := (@leaves_rollback_adopted faultless _ _ _ _ _ hread
    ⟨hshipped, htext, .inr ⟨rendered, hrender, rfl⟩⟩
    (fun _ _ h => by cases h)).on hd
  revert hrun
  rcases (rollback reader render).on faultless d with ⟨answer | _ | _, d'⟩
  · exact fun hd' => ⟨answer, d', rfl, hd'⟩
  · exact fun h => absurd (h.1 hrender) not_failing_faultless
  · exact fun h => absurd h.1 not_stopping_faultless

/-- Where the original is not in the settings, `rollback` accepts the sidecar that keeps it. -/
theorem Recoverable.accepts (hread : ReadsSidecars reader) {d : Disk}
    (h : Recoverable render original d) :
    d (.target .yaml) = original ∨ ∃ answer d',
      (rollback reader render).on faultless d = (.returned answer, d') ∧ Has original none d' := by
  cases h with
  | untouched hd => exact .inl hd.1
  | adopted preset yaml hadopted hd =>
    obtain rfl | ⟨rendered, hrender, rfl⟩ := hadopted.stands
    · exact .inl hd.1
    · exact .inr (rollback_faultless hread hadopted.shipped hadopted.text hrender hd)

/-- Migration can be taken back, where calls are as allowed. -/
structure Reversible (reader : JsonReader) (render : Text → Text → Except IoError Text)
    (allowed : Call → Disk → Prop) (original : Option Text) : Prop where
  /-- What an `apply` that returned did, a `rollback` takes back. -/
  takenBack : ∀ preset ∈ shippedPresets, ∀ faults d answer d', Has original none d →
    allowed ⟨.apply preset, faults⟩ d →
    (applyPreset render preset).on faults d = (.returned answer, d') →
    (∃ answer' d'', (rollback reader render).on faultless d' = (.returned answer', d'')) ∧
      ∀ faults' answer' d'', allowed ⟨.rollback, faults'⟩ d' →
        (rollback reader render).on faults' d' = (.returned answer', d'') → Has original none d''
  /-- An `apply` that returns an error leaves the project as it was. -/
  refused : ∀ preset ∈ shippedPresets, ∀ faults d e d', Has original none d →
    allowed ⟨.apply preset, faults⟩ d →
    (applyPreset render preset).on faults d = (.failed e, d') → Has original none d'
  /-- After any calls, some further calls without faults bring the original back. -/
  recovers : ∀ calls d, Has original none d → Allowed reader render allowed calls d →
    ∃ further : List Call, (∀ c ∈ further, c.command.Shipped ∧ c.faults = faultless) ∧
      afterCalls reader render further (afterCalls reader render calls d) (.target .yaml) = original
  /-- The original is never in the sidecar only, where `rollback` refuses it. -/
  accepts : ∀ calls d, Has original none d → Allowed reader render allowed calls d →
    afterCalls reader render calls d (.target .yaml) = original ∨ ∃ answer d',
      (rollback reader render).on faultless (afterCalls reader render calls d) =
        (.returned answer, d') ∧ Has original none d'

/-- Migration can be taken back wherever no existence check of a file that is there fails,
and no removal of the sidecar after a failed replacement. -/
theorem reversible_of_sound (reader : JsonReader) (render : Text → Text → Except IoError Text)
    (original : Option Text) (hread : ReadsSidecars reader) :
    Reversible reader render Call.Sound original := by
  have haccepts : ∀ calls d, Has original none d → Allowed reader render Call.Sound calls d →
      afterCalls reader render calls d (.target .yaml) = original ∨ ∃ answer d',
        (rollback reader render).on faultless (afterCalls reader render calls d) =
          (.returned answer, d') ∧ Has original none d' :=
    fun calls d hd hcalls => (recoverable_afterCalls hread hcalls (.untouched hd)).accepts hread
  refine ⟨?_, ?_, ?_, haccepts⟩
  · intro preset hpreset faults d answer d' hd hsound happly
    have hrun := (@leaves_applyPreset _ render _ _ hpreset (hsound.1.seen hd .yaml)).on hd
    rw [happly] at hrun
    obtain ⟨-, htext, rendered, hrender, hd'⟩ := hrun
    obtain ⟨answer', d'', hrollback, -⟩ := rollback_faultless hread hpreset htext hrender hd'
    refine ⟨⟨answer', d'', hrollback⟩, ?_⟩
    intro faults' answer' d'' hsound' hrollback
    have hrun := (leaves_rollback_adopted hread ⟨hpreset, htext, .inr ⟨rendered, hrender, rfl⟩⟩
      (hsound'.1.seen hd' .yaml)).on hd'
    rw [hrollback] at hrun
    exact hrun
  · intro preset hpreset faults d e d' hd hsound happly
    have hrun := (@leaves_applyPreset _ render _ _ hpreset (hsound.1.seen hd .yaml)).on hd
    rw [happly] at hrun
    obtain hd' | ⟨hcleanup, -⟩ := hrun
    · exact hd'
    · exact absurd hcleanup (hsound.2 preset rfl)
  · intro calls d hd hcalls
    obtain h | ⟨answer, d', hrollback, hd'⟩ := haccepts calls d hd hcalls
    · exact ⟨[], nofun, h⟩
    · refine ⟨[⟨.rollback, faultless⟩], fun c hc => ?_, ?_⟩
      · obtain rfl := List.mem_singleton.mp hc
        exact ⟨trivial, rfl⟩
      · show ((rollback reader render).on faultless _).2 _ = original
        rw [hrollback]
        exact hd'.1

/-- A renderer that adds the name of the preset. -/
def addPreset (previous preset : Text) : Except IoError Text := .ok (previous ++ preset)

def settings : Text := utf8 "a: 1\n"

def settingsOnly : Disk := fun f => if f = .target .yaml then some settings else none

/-- The existence check of the settings fails. -/
def unseen : Faults Operation := fun _ o =>
  if o = .metadata (.target .yaml) then .fail else .none

theorem settingsOnly_has : Has (some settings) none settingsOnly := ⟨rfl, rfl⟩

/-- Settings whose existence check fails are replaced without a copy, and the `rollback` that
follows removes them. -/
theorem unseen_settings_lost :
    ¬ ∀ (reader : JsonReader) (render : Text → Text → Except IoError Text)
      (original : Option Text), ReadsSidecars reader →
      Reversible reader render (fun _ _ => True) original := by
  intro h
  have hrev := h sidecarReader addPreset (some settings) sidecarReader_reads
  have hpreset : utf8 "bugfix" ∈ shippedPresets := by decide
  have happly : ((applyPreset addPreset (utf8 "bugfix")).on unseen settingsOnly).1 =
      .returned (actionJson "apply" (utf8 "bugfix")) := by decide
  obtain ⟨⟨answer, d'', hrollback⟩, htaken⟩ := hrev.takenBack _ hpreset unseen settingsOnly _ _
    settingsOnly_has trivial (Prod.ext happly rfl)
  have hlost := (htaken faultless answer d'' trivial hrollback).1
  have hafter : d'' = ((rollback sidecarReader addPreset).on faultless
      ((applyPreset addPreset (utf8 "bugfix")).on unseen settingsOnly).2).2 :=
    (congrArg Prod.snd hrollback).symm
  have hgone : ((rollback sidecarReader addPreset).on faultless
      ((applyPreset addPreset (utf8 "bugfix")).on unseen settingsOnly).2).2 (.target .yaml) =
      none := by decide
  rw [hafter, hgone] at hlost
  cases hlost

theorem reversible_of_sound_settings :
    ReadsSidecars sidecarReader ∧ Reversible sidecarReader addPreset Call.Sound (some settings) :=
  ⟨sidecarReader_reads,
    reversible_of_sound sidecarReader addPreset (some settings) sidecarReader_reads⟩

end Runs

end Winsmux.Migrate
