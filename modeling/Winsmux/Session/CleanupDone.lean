import Winsmux.Session.CleanupSafe

/-!
# What a cleanup leaves of a dead server

The files of a dead server whose registry is complete evidence are gone when a cleanup that
listed them is done, unless a server starts under the base or a new process is taken for
the dead one in between.
-/
namespace Winsmux.Stale
open Json Transition

/-- A process stands for the one that a registry names. -/
def Stands (windows : Bool) (r : Value) (pid startedAt : ℕ) : Prop :=
  registryU128 r (utf8 "server_pid") = some pid ∧
    (windows = true → registryU128 r (utf8 "process_started_at") = some startedAt)

def Label.own {ι κ : Type} [DecidableEq κ] (c : κ) : Label ι κ → Bool
  | .cleanup c' _ => c' = c
  | _ => false

instance (windows : Bool) (r : Value) (pid startedAt : ℕ) : Decidable (Stands windows r pid startedAt) :=
  inferInstanceAs (Decidable (registryU128 r (utf8 "server_pid") = some pid ∧
    (windows = true → registryU128 r (utf8 "process_started_at") = some startedAt)))

/-- How many steps are left at most. -/
def Point.left : Point → ℕ
  | .checkStartup => 12
  | .checkAlive => 11
  | .legacyRecent => 10
  | .legacyExists => 9
  | .readPort _ => 8
  | .readKey _ _ => 7
  | .probe _ _ _ => 6
  | .probeOpen _ _ => 5
  | .removePort => 4
  | .removeKey => 3
  | .removeRegistry => 2
  | .removeTmp => 1

def Cleanup.left : Cleanup → ℕ
  | .next todo => 13 * todo.length
  | .busy e p => 13 * e.rest.length + p.left

def Dir.Bare (base : Text) (dir : Dir) : Prop :=
  dir.port base = none ∧ dir.key base = none ∧ dir.registry base = none

/-- What a cleanup has removed is not there. -/
def Cleared (dir : Dir) (e : Entry) (p : Point) : Prop :=
  (p.pending .port = false → dir.port e.base = none) ∧ (p.pending .key = false → dir.key e.base = none) ∧
    (p.pending .registry = false → dir.registry e.base = none)

namespace Setting
variable {ι κ : Type} [DecidableEq ι] [DecidableEq κ] (P : Setting ι κ)

/-- The step neither writes under the base for a server nor starts a process that stands
for the one of the registry. -/
def Undisturbed (base : Text) (r : Value) (_ : World ι κ) : Label ι κ → Prop
  | .launch i => ¬ Stands P.windows r (P.launch i).pid (P.launch i).startedAt
  | .server i _ _ => (P.launch i).base ≠ base
  | .spawn pid startedAt => ¬ Stands P.windows r pid startedAt
  | _ => True

instance decidableUndisturbed (base : Text) (r : Value) (w : World ι κ) :
    ∀ l, Decidable (P.Undisturbed base r w l)
  | .launch i => inferInstanceAs (Decidable (¬ Stands P.windows r (P.launch i).pid (P.launch i).startedAt))
  | .server i _ _ => inferInstanceAs (Decidable ((P.launch i).base ≠ base))
  | .spawn pid startedAt => inferInstanceAs (Decidable (¬ Stands P.windows r pid startedAt))
  | .die _ | .exit _ | .call _ _ | .cleanup _ _ => .isTrue trivial

/-- The files under a base are those of a dead server: its registry is in place and names
no process that runs, no living server has written a file, and none that a cleanup has
removed is there again. -/
structure Dead (base : Text) (r : Value) (w : World ι κ) : Prop where
  registry : w.dir.registry base = some (some r)
  gone : ∀ pid startedAt, w.host.running pid = some startedAt → ¬ Stands P.windows r pid startedAt
  written : ∀ i, w.alive i = true → (P.launch i).base = base → (w.stage i).wrote .port = false
  cleared : ∀ c e p, w.cleanups c = .busy e p → e.base = base → Cleared w.dir e p

/-- Each key file is the one of a server under its base, or no server's. -/
def KeysPlaced (dir : Dir) : Prop :=
  ∀ base key, dir.key base = some key → ∀ i, (P.launch i).key = trim key → trim key ≠ [] → (P.launch i).base = base

end Setting

section Keys
variable {l : Launch} {windows : Bool} {readyAt : ℕ} {restore : Option Value} {dir dir' : Dir} {s s' : Stage}

theorem renameRegistry_key {base : Text} (h : dir.renameRegistry base = some dir') : dir'.key = dir.key := by
  obtain ⟨record, -, rfl⟩ := renameRegistry_eq_some h
  rfl

/-- A server leaves the key file, writes its key or empties the file. -/
theorem advance_key (h : l.advance windows readyAt restore dir s = some (dir', s')) :
    dir'.key = dir.key ∨ dir'.key = Function.update dir.key l.base (some l.key) ∨
      dir'.key = Function.update dir.key l.base (some []) := by
  cases s with
  | unborn => contradiction
  | wroteTmp | readyTmp =>
    obtain ⟨d, hd, he⟩ := Option.map_eq_some_iff.1 h
    obtain ⟨rfl, -⟩ := Prod.mk.inj he
    exact .inl (renameRegistry_key hd)
  | wrotePort | truncated =>
    obtain ⟨rfl, -⟩ := Prod.mk.inj (Option.some.inj h)
    exact .inr (.inl rfl)
  | starting =>
    cases windows <;> obtain ⟨rfl, -⟩ := Prod.mk.inj (Option.some.inj h)
    · exact .inl rfl
    · exact .inr (.inr rfl)
  | refreshTmp =>
    obtain ⟨rfl, -⟩ := Prod.mk.inj (Option.some.inj h)
    cases hd : dir.renameRegistry l.base with
    | none => exact .inl rfl
    | some d => exact .inl (renameRegistry_key hd)
  | _ =>
    obtain ⟨rfl, -⟩ := Prod.mk.inj (Option.some.inj h)
    exact .inl rfl

end Keys

section Steps
variable {host : Host} {exe : Option Text} {sight : Sight} {dir : Dir} {pc : Cleanup}

/-- A cleanup has fewer steps to do after each. -/
theorem left_step (h : pc ≠ .next []) : (pc.step host exe sight dir).2.left < pc.left := by
  rcases pc with (_ | ⟨base, rest⟩) | ⟨e, p⟩
  · contradiction
  · simp only [Cleanup.step, Cleanup.left, Point.left, List.length_cons]
    omega
  · cases p <;> simp only [Cleanup.step, Cleanup.removeIf, Cleanup.skip] <;> (repeat' split) <;>
      simp only [Cleanup.left, Point.left] <;> omega

/-- A cleanup only removes. -/
theorem key_of_step {base key : Text} (h : (pc.step host exe sight dir).1.key base = some key) :
    dir.key base = some key := by
  rcases @step_dir host exe sight dir pc with
    hd | ⟨e, ⟨-, hd⟩ | ⟨-, hd⟩ | ⟨-, hd⟩ | ⟨-, hd⟩⟩ <;> rw [hd] at h
  · exact h
  · exact h
  · by_cases hb : base = e.base
    · simp only [Dir.setKey, hb, Function.update_self] at h
      contradiction
    · simpa only [Dir.setKey, Function.update_of_ne hb] using h
  · exact h
  · exact h

theorem cleared_of_pending {e : Entry} {p : Point} (h : ∀ f, p.pending f = true) : Cleared dir e p := by
  refine ⟨fun hf => ?_, fun hf => ?_, fun hf => ?_⟩ <;>
  · rw [h] at hf
    contradiction

theorem cleared_step {e : Entry} {p : Point} (h : ∀ e₀ p₀, pc = .busy e₀ p₀ → e₀.base = e.base → Cleared dir e₀ p₀)
    (hpc : (pc.step host exe sight dir).2 = .busy e p) : Cleared (pc.step host exe sight dir).1 e p := by
  rcases pc with (_ | ⟨base, rest⟩) | ⟨e₀, p₀⟩
  · contradiction
  · cases hpc
    exact cleared_of_pending fun f => by cases f <;> rfl
  · have hold := h e₀ p₀ rfl
    cases p₀ with
    | removePort =>
      cases hpc
      exact ⟨fun _ => Function.update_self .., fun hf => absurd hf (by decide), fun hf => absurd hf (by decide)⟩
    | removeKey =>
      cases hpc
      exact ⟨fun _ => (hold rfl).1 rfl, fun _ => Function.update_self .., fun hf => absurd hf (by decide)⟩
    | removeRegistry =>
      cases hpc
      exact ⟨fun _ => (hold rfl).1 rfl, fun _ => (hold rfl).2.1 rfl, fun _ => Function.update_self ..⟩
    | removeTmp => contradiction
    | _ =>
      simp only [Cleanup.step, Cleanup.removeIf, Cleanup.skip] at hpc
      repeat' split at hpc
      all_goals first
        | contradiction
        | cases hpc; exact cleared_of_pending fun f => by cases f <;> rfl

end Steps

/-- A file that is gone stays away, and the registry goes last. -/
structure Shrinks (base : Text) (dir dir' : Dir) : Prop where
  port : dir.port base = none → dir'.port base = none
  key : dir.key base = none → dir'.key base = none
  registry : dir'.registry base = dir.registry base ∨ dir'.registry base = none

theorem Shrinks.of_same {base : Text} {dir dir' : Dir} (h : Dir.Same base dir dir') : Shrinks base dir dir' :=
  ⟨h.1.trans, h.2.1.trans, .inl h.2.2.1⟩

theorem shrinks_step {host : Host} {exe : Option Text} {sight : Sight} {dir : Dir} {pc : Cleanup} (base : Text) :
    Shrinks base dir (pc.step host exe sight dir).1 := by
  rcases @step_dir host exe sight dir pc with
    hd | ⟨e, ⟨-, hd⟩ | ⟨-, hd⟩ | ⟨-, hd⟩ | ⟨-, hd⟩⟩ <;> rw [hd]
  · exact .of_same (.refl ..)
  · by_cases hb : base = e.base
    · exact ⟨fun _ => hb ▸ Function.update_self .., id, .inl rfl⟩
    · exact .of_same (same_setPort hb ..)
  · by_cases hb : base = e.base
    · exact ⟨id, fun _ => hb ▸ Function.update_self .., .inl rfl⟩
    · exact .of_same (same_setKey hb ..)
  · by_cases hb : base = e.base
    · exact ⟨id, id, .inr (hb ▸ Function.update_self ..)⟩
    · exact .of_same (same_setRegistry hb ..)
  · exact ⟨id, id, .inl rfl⟩

theorem Shrinks.registry_none {base : Text} {dir dir' : Dir} (h : Shrinks base dir dir')
    (hr : dir.registry base = none) : dir'.registry base = none :=
  h.registry.elim (·.trans hr) id

theorem Shrinks.bare {base : Text} {dir dir' : Dir} (h : Shrinks base dir dir') (hb : dir.Bare base) :
    dir'.Bare base :=
  ⟨h.port hb.1, h.key hb.2.1, h.registry_none hb.2.2⟩

theorem Shrinks.cleared {dir dir' : Dir} {e : Entry} {p : Point} (h : Shrinks e.base dir dir')
    (hc : Cleared dir e p) : Cleared dir' e p :=
  ⟨fun hf => h.port (hc.1 hf), fun hf => h.key (hc.2.1 hf), fun hf => h.registry_none (hc.2.2 hf)⟩

/-- No process that runs is taken for the one of a registry. -/
theorem registryServerPid_eq_none {host : Host} {r : Value} {base : Text} {exe : Option Text}
    (h : ∀ pid startedAt, host.running pid = some startedAt → ¬ Stands host.windows r pid startedAt) :
    registryServerPid host r base exe = none := by
  have hmatch : ∀ pid, registryU128 r (utf8 "server_pid") = some pid →
      registryProcessStartedAtMatchesPid host r pid = false := by
    intro pid hpid
    rw [registryProcessStartedAtMatchesPid]
    cases hs : registryU128 r (utf8 "process_started_at") with
    | none => rfl
    | some expected =>
      cases hrun : host.running pid with
      | none => simp [Host.processStartedAtMillisForPid, Host.processIdIsAlive, hrun]
      | some startedAt =>
        cases hw : host.windows with
        | false => exact absurd ⟨hpid, fun hw' => by simp [hw] at hw'⟩ (h pid startedAt hrun)
        | true =>
          simp only [Host.processStartedAtMillisForPid, hw, hrun, if_true, decide_eq_false_iff_not]
          exact fun he => h pid startedAt hrun ⟨hpid, fun _ => he ▸ hs⟩
  rw [registryServerPid]
  split
  · cases hpid : registryU128 r (utf8 "server_pid") with
    | none => rfl
    | some pid => simp [Option.filter, hmatch pid hpid]
  · rfl

namespace Setting

variable {ι κ : Type} {P : Setting ι κ} {w : World ι κ}

variable (P) in
/-- What a cleanup does that goes by a registry, with a key of the base. -/
def Evident (base : Text) : Point → Prop
  | .legacyRecent | .legacyExists => False
  | .readPort allowed | .readKey allowed _ | .probeOpen allowed _ => allowed = true
  | .probe allowed _ key => allowed = true ∧ ∀ i, (P.launch i).key = key → (P.launch i).base = base
  | _ => True

variable (P) in
/-- A cleanup that is to remove the files of a base. -/
def OnWay (base : Text) (r : Value) : Cleanup → Prop
  | .next todo => base ∈ todo
  | .busy e p => base ∈ e.rest ∨ e.base = base ∧ e.registry = some r ∧ P.Evident base p

variable (P) in
structure Clearing (c : κ) (base : Text) (r : Value) (w : World ι κ) : Prop where
  windows : w.host.windows = P.windows
  registry : w.dir.registry base = some (some r) ∨ w.dir.Bare base
  gone : ∀ pid startedAt, w.host.running pid = some startedAt → ¬ Stands P.windows r pid startedAt
  written : ∀ i, w.alive i = true → (P.launch i).base = base → (w.stage i).wrote .port = false
  cleared : ∀ c e p, w.cleanups c = .busy e p → e.base = base → Cleared w.dir e p
  way : P.OnWay base r (w.cleanups c) ∨ w.dir.Bare base

/-- A key read under the base lets no one in. -/
theorem not_answers {base key : Text} {port : ℕ}
    (hw : ∀ i, w.alive i = true → (P.launch i).base = base → (w.stage i).wrote .port = false)
    (hkey : ∀ i, (P.launch i).key = key → (P.launch i).base = base) : ¬ P.Answers w port key := by
  rintro ⟨i, hi, hacc, -, hk⟩
  have hno := hw i hi (hkey i hk)
  revert hacc hno
  cases w.stage i <;> simp [Stage.accepts, Stage.wrote]

/-- The cleanup stays on its way, and at its end nothing is left. -/
theorem onWay_step {base : Text} {r : Value} {c : κ} {sight : Sight}
    (h : P.Clearing c base r w) (hkeys : P.KeysPlaced w.dir)
    (hev : registryHasCleanupOwnershipEvidence r base (P.exe c) = true)
    (htruth : P.Truthful w sight (w.cleanups c)) (hway : P.OnWay base r (w.cleanups c))
    (hreg : w.dir.registry base = some (some r)) :
    P.OnWay base r ((w.cleanups c).step w.host (P.exe c) sight w.dir).2 ∨
      ((w.cleanups c).step w.host (P.exe c) sight w.dir).1.Bare base := by
  have hpid : registryServerPid w.host r base (P.exe c) = none :=
    registryServerPid_eq_none (h.windows ▸ h.gone)
  have hclear := h.cleared c
  generalize w.cleanups c = pc at *
  rcases pc with (_ | ⟨b, rest⟩) | ⟨e, p⟩
  · exact absurd hway List.not_mem_nil
  · left
    obtain rfl | hmem := List.mem_cons.1 hway
    · exact .inr ⟨rfl, by rw [Dir.readSessionRegistry, hreg]; rfl, trivial⟩
    · exact .inl hmem
  · obtain hmem | ⟨hb, he, hp⟩ := hway
    · left
      cases p <;> simp only [Cleanup.step, Cleanup.removeIf, Cleanup.skip] <;> (repeat' split) <;>
        first
          | exact hmem
          | exact .inl hmem
    · have hgo : ∀ {p}, P.Evident base p → P.OnWay base r (.busy e p) := fun hp => .inr ⟨hb, he, hp⟩
      cases p with
      | checkStartup =>
        left
        have hdeadline : registryIsWithinStartupDeadline w.host sight.now r e.base (P.exe c) = false := by
          rw [registryIsWithinStartupDeadline, hb, hpid]
          cases registryU128 r (utf8 "created_at") <;> simp
        simp only [Cleanup.step, he, hdeadline]
        exact hgo trivial
      | checkAlive =>
        left
        simp only [Cleanup.step, he, hb, hpid, hev]
        exact hgo rfl
      | legacyRecent | legacyExists => exact hp.elim
      | readPort allowed =>
        left
        obtain rfl : allowed = true := hp
        simp only [Cleanup.step, Cleanup.removeIf]
        split
        · exact hgo rfl
        · exact hgo trivial
      | readKey allowed port =>
        left
        obtain rfl : allowed = true := hp
        simp only [Cleanup.step]
        split
        · exact hgo rfl
        · exact hgo rfl
        · next key hne hkey =>
          refine hgo ⟨rfl, fun i hi => ?_⟩
          obtain ⟨contents, hfile, rfl⟩ := Option.map_eq_some_iff.1 hkey
          rw [hb] at hfile
          exact hkeys base contents hfile i hi hne
      | probe allowed port key =>
        left
        obtain ⟨rfl, hkey⟩ : allowed = true ∧ _ := hp
        have hno : sight.answered = false := by
          rw [← Bool.not_eq_true]
          exact fun ha => not_answers h.written hkey (htruth.1 ha)
        simp only [Cleanup.step, hno]
        exact hgo rfl
      | probeOpen allowed port =>
        left
        obtain rfl : allowed = true := hp
        simp only [Cleanup.step, he, Cleanup.removeIf]
        simp
        exact hgo trivial
      | removePort | removeKey | removeRegistry => exact .inl (hgo trivial)
      | removeTmp =>
        right
        obtain ⟨hport, hkey, hregistry⟩ := hclear e .removeTmp rfl hb
        rw [hb] at hport hkey hregistry
        exact ⟨hport rfl, hkey rfl, hregistry rfl⟩

/-- A cleanup that is not done can go on. -/
theorem exists_enabled (w : World ι κ) {c : κ} (h : w.cleanups c ≠ .next []) :
    ∃ sight, P.enabled w (.cleanup c sight) := by
  classical
  cases hpc : w.cleanups c with
  | next todo => exact ⟨⟨0, false, false, false⟩, h, hpc ▸ trivial⟩
  | busy e p =>
    cases p with
    | probe allowed port key =>
      exact ⟨⟨0, false, P.Answers w port key, false⟩, h, by rw [hpc]; exact decide_eq_true_iff⟩
    | probeOpen allowed port => exact ⟨⟨0, false, false, true⟩, h, by rw [hpc]; exact fun _ => rfl⟩
    | _ => exact ⟨⟨0, false, false, false⟩, h, by rw [hpc]; trivial⟩

section Clear
variable {c : κ} {base : Text} {r : Value}

/-- The processes change, and none comes to stand for the registry's. -/
theorem Clearing.withHost (h : P.Clearing c base r w) {host : Host} (hw : host.windows = w.host.windows)
    (hgone : ∀ pid startedAt, host.running pid = some startedAt →
      w.host.running pid = some startedAt ∨ ¬ Stands P.windows r pid startedAt) :
    P.Clearing c base r { w with host } where
  windows := hw.trans h.windows
  registry := h.registry
  gone pid startedAt hrun := (hgone pid startedAt hrun).elim (h.gone pid startedAt) id
  written := h.written
  cleared := h.cleared
  way := h.way

theorem ended_running {pid pid' startedAt : ℕ} {host : Host}
    (h : (ended pid host).running pid' = some startedAt) : host.running pid' = some startedAt := by
  rw [ended] at h
  by_cases he : pid' = pid
  · simp [he] at h
  · simpa [Function.update_of_ne he] using h

theorem started_running {pid pid' startedAt startedAt' : ℕ} {host : Host}
    (h : (started pid startedAt host).running pid' = some startedAt') :
    host.running pid' = some startedAt' ∨ pid' = pid ∧ startedAt' = startedAt := by
  rw [started] at h
  by_cases he : pid' = pid
  · refine .inr ⟨he, ?_⟩
    simpa [he, eq_comm] using h
  · exact .inl (by simpa [Function.update_of_ne he] using h)

theorem Clearing.started (h : P.Clearing c base r w) {pid startedAt : ℕ}
    (hs : ¬ Stands P.windows r pid startedAt) :
    P.Clearing c base r { w with host := Setting.started pid startedAt w.host } :=
  h.withHost rfl fun pid' startedAt' hrun => (started_running hrun).imp id fun ⟨hp, ht⟩ => by rwa [hp, ht]

theorem Clearing.ended (h : P.Clearing c base r w) (pid : ℕ) :
    P.Clearing c base r { w with host := Setting.ended pid w.host } :=
  h.withHost rfl fun _ _ hrun => .inl (ended_running hrun)

/-- Any cleanup moves. -/
theorem Clearing.cleanup [DecidableEq κ] (h : P.Clearing c base r w) (hkeys : P.KeysPlaced w.dir)
    (hev : registryHasCleanupOwnershipEvidence r base (P.exe c) = true) {c' : κ} {sight : Sight}
    (htruth : P.Truthful w sight (w.cleanups c')) {dir : Dir} {pc : Cleanup}
    (hstep : (w.cleanups c').step w.host (P.exe c') sight w.dir = (dir, pc)) :
    P.Clearing c base r { w with dir, cleanups := Function.update w.cleanups c' pc } := by
  have hdir : ((w.cleanups c').step w.host (P.exe c') sight w.dir).1 = dir := by rw [hstep]
  have hpc : ((w.cleanups c').step w.host (P.exe c') sight w.dir).2 = pc := by rw [hstep]
  have hshrinks : ∀ b, Shrinks b w.dir dir := fun b => hdir ▸ shrinks_step b
  have hreg : dir.registry base = some (some r) ∨ dir.Bare base := by
    obtain hr | hbare := h.registry
    · obtain hsame | hnone := (hshrinks base).registry
      · exact .inl (hsame.trans hr)
      · right
        rcases @step_dir w.host (P.exe c') sight w.dir (w.cleanups c') with
          hd | ⟨e, ⟨-, hd⟩ | ⟨-, hd⟩ | ⟨hat, hd⟩ | ⟨-, hd⟩⟩ <;> rw [hdir] at hd <;> subst hd
        · exact absurd (hr.symm.trans hnone) nofun
        · exact absurd (hr.symm.trans hnone) nofun
        · exact absurd (hr.symm.trans hnone) nofun
        · by_cases hb : base = e.base
          · have hcl := h.cleared c' e _ hat hb.symm
            exact ⟨hb ▸ hcl.1 rfl, hb ▸ hcl.2.1 rfl, hnone⟩
          · rw [(same_setRegistry hb none w.dir).2.2.1, hr] at hnone
            contradiction
        · exact absurd (hr.symm.trans hnone) nofun
    · exact .inr ((hshrinks base).bare hbare)
  refine ⟨h.windows, hreg, h.gone, h.written, fun d e p hat hb => ?_, ?_⟩
  · by_cases hd : d = c'
    · simp only [hd, Function.update_self] at hat
      have hcl := cleared_step (fun e₀ p₀ h₀ hb₀ => h.cleared c' e₀ p₀ h₀ (hb₀.trans hb)) (hpc.trans hat)
      rwa [hdir] at hcl
    · simp only [Function.update_of_ne hd] at hat
      exact (hshrinks e.base).cleared (h.cleared d e p hat hb)
  · obtain hway | hbare := h.way
    · by_cases hc : c = c'
      · subst hc
        simp only [Function.update_self]
        obtain hr | hbare := h.registry
        · rw [← hpc, ← hdir]
          exact onWay_step h hkeys hev htruth hway hr
        · exact .inr ((hshrinks base).bare hbare)
      · simp only [Function.update_of_ne hc]
        exact .inl hway
    · exact .inr ((hshrinks base).bare hbare)

variable [DecidableEq ι]

theorem Clearing.died (h : P.Clearing c base r w) (i : ι) : P.Clearing c base r (P.died i w) :=
  { h.ended (P.launch i).pid with written := fun j hj => h.written j (alive_died.1 hj).2 }

/-- A server of another base moves. -/
theorem Clearing.advanced (h : P.Clearing c base r w) {i : ι} {readyAt : ℕ} {restore : Option Value} {dir : Dir}
    {s : Stage} (hi : (P.launch i).base ≠ base)
    (hadv : (P.launch i).advance P.windows readyAt restore w.dir (w.stage i) = some (dir, s)) :
    P.Clearing c base r { w with dir, stage := Function.update w.stage i s } := by
  have hsame := advance_frame hadv hi.symm
  refine ⟨h.windows, ?_, h.gone, fun j hj hb => ?_, fun c' e p hpc hb => ?_, ?_⟩
  · exact h.registry.imp hsame.2.2.1.trans (Shrinks.of_same hsame).bare
  · have hne : j ≠ i := fun he => hi (he ▸ hb)
    simp only [Function.update_of_ne hne]
    exact h.written j hj hb
  · exact (Shrinks.of_same (hb ▸ hsame)).cleared (h.cleared c' e p hpc hb)
  · exact h.way.imp id (Shrinks.of_same hsame).bare

theorem Clearing.launched (h : P.Clearing c base r w) (i : ι)
    (hs : ¬ Stands P.windows r (P.launch i).pid (P.launch i).startedAt) :
    P.Clearing c base r { w with
      stage := Function.update w.stage i .bound
      alive := Function.update w.alive i true
      host := Setting.started (P.launch i).pid (P.launch i).startedAt w.host } := by
  refine { h.started hs with written := fun j hj hb => ?_ }
  by_cases he : j = i
  · simp only [he, Function.update_self]
    rfl
  · simp only [Function.update_of_ne he] at hj ⊢
    exact h.written j hj hb

variable [DecidableEq κ]

theorem keysPlaced_of_reachable (h : P.system.Reachable w) : P.KeysPlaced w.dir := by
  refine h.invariant (P := fun w => P.KeysPlaced w.dir)
    (fun base key hk i hi _ => absurd hi.symm (P.leftover_keys base key hk i)) fun w l _ ih hen => ?_
  cases l with
  | server i readyAt restore =>
    show P.KeysPlaced (P.next w (.server i readyAt restore)).dir
    rw [next]
    split
    · next dir s hadv =>
      intro base key hk j hj hne
      rcases advance_key hadv with hkey | hkey | hkey <;> simp only [hkey] at hk
      · exact ih base key hk j hj hne
      · by_cases hb : base = (P.launch i).base
        · rw [hb, Function.update_self] at hk
          rw [← Option.some.inj hk, (P.launch i).key_trim] at hj
          rw [hb, P.keys_injective j i hj]
        · rw [Function.update_of_ne hb] at hk
          exact ih base key hk j hj hne
      · by_cases hb : base = (P.launch i).base
        · rw [hb, Function.update_self] at hk
          exact absurd (by rw [← Option.some.inj hk]; rfl) hne
        · rw [Function.update_of_ne hb] at hk
          exact ih base key hk j hj hne
    · exact ih
  | cleanup c sight => exact fun base key hk => ih base key (key_of_step hk)
  | launch _ | die _ | spawn _ _ | exit _ | call _ _ => exact ih

theorem windows_of_reachable (h : P.system.Reachable w) : w.host.windows = P.windows := by
  refine h.invariant (P := fun w => w.host.windows = P.windows) rfl fun w l _ ih _ => ?_
  cases l with
  | server i readyAt restore =>
    show (P.next w (.server i readyAt restore)).host.windows = _
    rw [next]
    split <;> exact ih
  | _ => exact ih

/-- The dead server's files go while nothing starts. -/
theorem Clearing.step (h : P.Clearing c base r w) (hw : P.system.Reachable w)
    (hev : registryHasCleanupOwnershipEvidence r base (P.exe c) = true) {l : Label ι κ}
    (hl : P.system.enabled w l) (hu : P.Undisturbed base r w l) (hc : ∀ bases, l ≠ .call c bases) :
    P.Clearing c base r (P.system.next w l) := by
  cases l with
  | launch i => exact h.launched i hu
  | server i readyAt restore =>
    show P.Clearing c base r (P.next w (.server i readyAt restore))
    rw [next]
    split
    · exact h.advanced hu ‹_›
    · exact h.died i
  | die i => exact h.died i
  | spawn pid startedAt => exact h.started hu
  | exit pid => exact h.ended pid
  | call c' bases =>
    have hne : c ≠ c' := fun he => hc bases (he ▸ rfl)
    refine { h with cleared := fun d e p hat hb => ?_, way := ?_ }
    · by_cases hd : d = c'
      · simp only [system, next, hd, Function.update_self] at hat
        contradiction
      · simp only [system, next, Function.update_of_ne hd] at hat
        exact h.cleared d e p hat hb
    · simp only [system, next, Function.update_of_ne hne]
      exact h.way
  | cleanup c' sight => exact h.cleanup (keysPlaced_of_reachable hw) hev hl.2 rfl

/-- A step that is not the cleanup's own leaves it where it is. -/
theorem cleanups_next {l : Label ι κ} (hown : l.own c = false) (hcall : ∀ bases, l ≠ .call c bases) :
    (P.next w l).cleanups c = w.cleanups c := by
  cases l with
  | server i readyAt restore =>
    rw [next]
    split <;> rfl
  | call c' bases =>
    exact Function.update_of_ne (fun he : c = c' => hcall bases (he ▸ rfl)) ..
  | cleanup c' sight =>
    exact Function.update_of_ne (fun he => of_decide_eq_false hown he.symm) ..
  | launch _ | die _ | spawn _ _ | exit _ => rfl

/-- In a run in which nothing starts under the base a cleanup takes no more steps than it
has left, and it stays on its way. -/
theorem Clearing.run (h : P.Clearing c base r w) (hw : P.system.Reachable w)
    (hev : registryHasCleanupOwnershipEvidence r base (P.exe c) = true) {ls : List (Label ι κ)}
    (hv : (P.system.restrict (P.Undisturbed base r)).Valid w ls) (hc : ∀ bases, .call c bases ∉ ls) :
    ls.countP (·.own c) ≤ (w.cleanups c).left ∧ P.Clearing c base r (P.system.run w ls) := by
  induction ls generalizing w with
  | nil => exact ⟨Nat.zero_le _, h⟩
  | cons l ls ih =>
    obtain ⟨⟨hl, hu⟩, hv⟩ := hv
    have hne : ∀ bases, l ≠ .call c bases := fun bases he => hc bases (he ▸ List.mem_cons_self ..)
    obtain ⟨hcount, hend⟩ := ih (h.step hw hev hl hu hne) (hw.step hl) hv fun bases hm =>
      hc bases (List.mem_cons_of_mem _ hm)
    refine ⟨?_, hend⟩
    cases hown : l.own c with
    | false =>
      rw [List.countP_cons_of_neg (by simp [hown])]
      exact (cleanups_next hown hne) ▸ hcount
    | true =>
      rw [List.countP_cons_of_pos (by simpa using hown)]
      cases l with
      | cleanup c' sight =>
        obtain rfl : c' = c := of_decide_eq_true hown
        have hcount : _ ≤ (Function.update w.cleanups c' _ c').left := hcount
        rw [Function.update_self] at hcount
        exact Nat.succ_le_of_lt (hcount.trans_lt (left_step hl.1))
      | _ => contradiction

end Clear

variable [DecidableEq ι] [DecidableEq κ]

/-- In a run in which files are written anew only while no cleanup may come to remove them,
no step of a cleanup touches a file that a living server has written. A cleanup that listed
a dead server's base takes at most thirteen steps a base, can go on until it is done, and is
done only when the dead server's files are gone. -/
theorem cleanup_spares_the_living (P : Setting ι κ) :
    (∀ w, (P.system.restrict P.Calm).Reachable w → ∀ c sight, P.enabled w (.cleanup c sight) →
      ∀ i f, w.alive i = true → (w.stage i).wrote f = true →
        Untouched f (P.launch i).base w.dir (P.next w (.cleanup c sight)).dir) ∧
    (∀ w, P.system.Reachable w → ∀ c todo, w.cleanups c = .next todo → ∀ base ∈ todo, ∀ r,
      P.Dead base r w → registryHasCleanupOwnershipEvidence r base (P.exe c) = true →
      ∀ ls, (P.system.restrict (P.Undisturbed base r)).Valid w ls → (∀ bases, .call c bases ∉ ls) →
        ls.countP (·.own c) ≤ 13 * todo.length ∧
        ((P.system.run w ls).cleanups c ≠ .next [] →
          ∃ sight, P.enabled (P.system.run w ls) (.cleanup c sight)) ∧
        ((P.system.run w ls).cleanups c = .next [] → (P.system.run w ls).dir.Bare base)) := by
  refine ⟨fun w hw c sight _ i f hi hwrote => ?_, fun w hw c todo htodo base hbase r hdead hev ls hv hc => ?_⟩
  · exact untouched_step fun hthreat => removes_of_finds ((sound_of_reachable hw).spares c i f hi hthreat hwrote)
  · have hstart : P.Clearing c base r w :=
      { windows := windows_of_reachable hw
        registry := .inl hdead.registry
        gone := hdead.gone
        written := hdead.written
        cleared := hdead.cleared
        way := .inl (by rw [htodo]; exact hbase) }
    obtain ⟨hcount, hend⟩ := hstart.run hw hev hv hc
    rw [htodo] at hcount
    refine ⟨hcount, exists_enabled _, fun hdone => hend.way.elim (fun hway => ?_) id⟩
    rw [hdone] at hway
    exact absurd hway List.not_mem_nil

/-- Two servers of one base, and one cleanup. -/
def twoServers : Setting Bool Unit where
  launch i := {
    base := utf8 "a", port := if i then 2 else 1, key := if i then utf8 "new" else utf8 "old"
    pid := if i then 2 else 1, startedAt := 5, createdAt := 5, nonce := utf8 "x", exe := some (utf8 "w")
    port_lt := by cases i <;> decide
    key_trim := by cases i <;> decide
    pid_pos := by cases i <;> decide
    pid_lt := by cases i <;> decide
    startedAt_lt := by decide
    createdAt_lt := by decide
    nonce_trim := by decide }
  exe _ := some (utf8 "w")
  windows := true
  running _ := none
  dir := .empty
  keys_injective i j h := by cases i <;> cases j <;> first | rfl | exact absurd h (by decide)
  leftover_keys _ _ h := nomatch h

/-- The first server writes its files. -/
def oldServer : List (Label Bool Unit) := .launch false :: List.replicate 4 (.server false 0 none)

def quiet : Label Bool Unit := .cleanup () ⟨100000, false, false, false⟩

/-- Its cleanup after its death, ready to look at the base. -/
def oldListed : World Bool Unit :=
  twoServers.system.run twoServers.start (oldServer ++ [.die false, .call () [utf8 "a"]])

/-- A cleanup while it lives, at its last check. -/
def oldChecked : World Bool Unit :=
  twoServers.system.run twoServers.start (oldServer ++ [.call () [utf8 "a"], quiet, quiet])

/-- A cleanup while the first server lives, and one after its death. -/
theorem cleanup_spares_the_living_twoServers :
    Untouched .port (utf8 "a") oldChecked.dir (twoServers.next oldChecked quiet).dir ∧
    (twoServers.system.run oldListed (List.replicate 11 quiet)).dir.Bare (utf8 "a") := by
  constructor
  · exact (cleanup_spares_the_living twoServers).1 _ (System.Reachable.run .init _ (by decide)) ()
      ⟨100000, false, false, false⟩ (by decide) false .port (by decide) (by decide)
  · refine ((cleanup_spares_the_living twoServers).2 oldListed
      (System.Reachable.run .init _ (by decide)) () [utf8 "a"] rfl (utf8 "a") (by decide)
      ((twoServers.launch false).record true (utf8 "starting") none none) ⟨rfl, ?_, ?_, ?_⟩ (by decide)
      (List.replicate 11 quiet) (by decide) ?_).2.2 (by decide)
    · intro pid startedAt hrun
      have hnone : oldListed.host.running = Function.update (Function.update (fun _ => none) 1 (some 5)) 1 none := rfl
      rw [hnone, Function.update_idem] at hrun
      by_cases he : pid = 1
      · rw [he, Function.update_self] at hrun
        contradiction
      · rw [Function.update_of_ne he] at hrun
        contradiction
    · decide
    · intro c e p hat
      contradiction
    · intro bases hmem
      exact absurd (List.eq_of_mem_replicate hmem) nofun

/-- The new server writes its port file when the cleanup has read the old one's registry. -/
def mixed : World Bool Unit :=
  twoServers.system.run twoServers.start (oldServer ++
    [.die false, .call () [utf8 "a"], quiet, .launch true, .server true 0 none, quiet, quiet, quiet, quiet, quiet,
      .cleanup () ⟨100000, false, false, true⟩])

/-- The port file of a living server is removed. -/
theorem cleanup_hits_the_living : twoServers.system.Reachable mixed ∧
    twoServers.enabled mixed quiet ∧ mixed.alive true = true ∧ (mixed.stage true).wrote .port = true ∧
    mixed.dir.port (utf8 "a") = some (decimal 2) ∧ (twoServers.next mixed quiet).dir.port (utf8 "a") = none :=
  ⟨System.Reachable.run .init _ (by decide), by decide⟩

end Setting
end Winsmux.Stale
