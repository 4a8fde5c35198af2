import Winsmux.Session.Cleanup

/-!
# Cleanups and living sessions

A cleanup decides by what it read of a base and removes by name. It spares a living server
in every run in which the files it is about to remove were not written anew in between, and
it does not read an old record while a new server is still writing its own.
-/
namespace Winsmux.Stale
open Json Transition

/-- The stages between the two halves of a registry write. -/
def Stage.tmp : Stage → Bool
  | .wroteTmp | .readyTmp | .refreshTmp => true
  | _ => false

inductive Kind where
  | port
  | key
  | registry
  deriving DecidableEq

/-- Which files a server has written. -/
def Stage.wrote : Kind → Stage → Bool
  | .port, s => s ≠ .unborn && s ≠ .bound
  | .key, s => s ≠ .unborn && s ≠ .bound && s ≠ .wrotePort
  | .registry, s => s ≠ .unborn && s ≠ .bound && s ≠ .wrotePort && s ≠ .wroteKey && s ≠ .wroteTmp

/-- The file that the next step writes for the first time. -/
def Stage.writes : Stage → Option Kind
  | .bound => some .port
  | .wrotePort => some .key
  | .wroteTmp => some .registry
  | _ => none

/-- Which files are still to be removed. -/
def Point.pending : Point → Kind → Bool
  | .removeKey, .port | .removeRegistry, .port | .removeRegistry, .key | .removeTmp, _ => false
  | _, _ => true

/-- Whether a cleanup may come to remove a file that is written now. One that goes by no
registry spares a server that listens at the port it reads, so that until then it threatens
nothing, and afterwards the port file only. -/
def Cleanup.threatens (exe : Option Text) (base : Text) (f : Kind) : Cleanup → Bool
  | .next _ => false
  | .busy e p =>
    e.base = base && p.pending f &&
      match p with
      | .checkStartup | .checkAlive =>
        e.registry.any (registryHasCleanupOwnershipEvidence · e.base exe)
      | .legacyRecent | .legacyExists => e.registry.isSome
      | .readPort allowed => allowed && e.registry.isSome
      | .readKey allowed _ | .probe allowed _ _ | .probeOpen allowed _ => allowed && (e.registry.isSome || f = .port)
      | .removePort | .removeKey | .removeRegistry | .removeTmp => true

namespace Setting
variable {ι κ : Type} [DecidableEq ι] [DecidableEq κ] (P : Setting ι κ)

/-- The step does not mix an old registry with new files: a server writes a file for the
first time while no cleanup may come to remove it, and its port file while no other living
server has one under the base; a cleanup that may go by a registry reads it while no
living server is between its port file and its record. -/
def Calm (w : World ι κ) : Label ι κ → Prop
  | .server i _ _ =>
    (∀ f ∈ (w.stage i).writes, ∀ c, (w.cleanups c).threatens (P.exe c) (P.launch i).base f = false) ∧
      (w.stage i = .bound → ∀ j, w.alive j = true → (P.launch j).base = (P.launch i).base →
        (w.stage j).wrote .port = false)
  | .cleanup c _ =>
    match w.cleanups c with
    | .next (base :: _) =>
      (w.dir.readSessionRegistry base).any (registryHasCleanupOwnershipEvidence · base (P.exe c)) = true →
        ∀ i, w.alive i = true → (P.launch i).base = base → (w.stage i).wrote .port = true →
          (w.stage i).wrote .registry = true
    | _ => True
  | _ => True

instance decidableCalm [Fintype ι] [Fintype κ] (w : World ι κ) : ∀ l, Decidable (P.Calm w l)
  | .server i _ _ => inferInstanceAs (Decidable (
      (∀ f ∈ (w.stage i).writes, ∀ c, (w.cleanups c).threatens (P.exe c) (P.launch i).base f = false) ∧
        (w.stage i = .bound → ∀ j, w.alive j = true → (P.launch j).base = (P.launch i).base →
          (w.stage j).wrote .port = false)))
  | .cleanup c _ =>
    match hc : w.cleanups c with
    | .next (base :: _) => decidable_of_iff
        ((w.dir.readSessionRegistry base).any (registryHasCleanupOwnershipEvidence · base (P.exe c)) = true →
          ∀ i, w.alive i = true → (P.launch i).base = base → (w.stage i).wrote .port = true →
            (w.stage i).wrote .registry = true) (by rw [Calm, hc])
    | .next [] | .busy _ _ => .isTrue (by rw [Calm, hc]; trivial)
  | .launch _ | .die _ | .spawn _ _ | .exit _ | .call _ _ => .isTrue trivial

/-- A registry record of a server. -/
def IsRecord (i : ι) (r : Value) : Prop :=
  ∃ state readyAt restore, r = (P.launch i).record P.windows state readyAt restore

/-- The cleanup will find the server alive: by its own record, or at the port it has read. -/
def Finds (i : ι) : Cleanup → Prop
  | .busy e .checkStartup | .busy e .checkAlive => ∃ r, e.registry = some r ∧ P.IsRecord i r
  | .busy e (.readKey _ port) | .busy e (.probe _ port _) | .busy e (.probeOpen _ port) =>
    e.registry = none ∧ port = (P.launch i).port
  | _ => False

/-- What a cleanup threatens was not written by a living server, or it will find that server. -/
def Spares (w : World ι κ) (c : κ) : Prop :=
  ∀ i f, w.alive i = true → (w.cleanups c).threatens (P.exe c) (P.launch i).base f = true →
    (w.stage i).wrote f = true → P.Finds i (w.cleanups c)

structure Sound (w : World ι κ) : Prop where
  windows : w.host.windows = P.windows
  born : ∀ i, w.alive i = true → w.stage i ≠ .unborn
  running : ∀ i, w.alive i = true → w.host.running (P.launch i).pid = some (P.launch i).startedAt
  pids : ∀ i j, w.alive i = true → w.alive j = true → (P.launch i).pid = (P.launch j).pid → i = j
  sole : ∀ i j, w.alive i = true → w.alive j = true → (P.launch i).base = (P.launch j).base →
    (w.stage i).wrote .port = true → (w.stage j).wrote .port = true → i = j
  ported : ∀ i, w.alive i = true → (w.stage i).wrote .port = true →
    w.dir.port (P.launch i).base = some (decimal (P.launch i).port)
  registered : ∀ i, w.alive i = true → (w.stage i).wrote .registry = true →
    ∃ r, w.dir.registry (P.launch i).base = some (some r) ∧ P.IsRecord i r
  tmp : ∀ i, w.alive i = true → (w.stage i).tmp = true →
    ∀ t, w.dir.registryTmp (P.launch i).base = some t → ∃ r, t = some r ∧ P.IsRecord i r
  spares : ∀ c, P.Spares w c

end Setting

section Record
variable (l : Launch) (windows : Bool) (state : Text) (readyAt : Option ℕ) (restore : Option Value)

theorem record_isForBase : registryIsForBase (l.record windows state readyAt restore) l.base = true := by
  have hprotocol : registryU128 (l.record windows state readyAt restore) (utf8 "protocol_version") = some 1 := rfl
  have hsession : registryStr (l.record windows state readyAt restore) (utf8 "session") = some l.base := rfl
  simp [registryIsForBase, hprotocol, hsession]

theorem record_ownerMatches :
    registryOwnerMatchesBase (l.record windows state readyAt restore) l.base = true := by
  have howner : registryStr (l.record windows state readyAt restore) (utf8 "owner") =
    some (sessionRegistryOwner l.base) := rfl
  simp [registryOwnerMatchesBase, howner]

theorem record_pid :
    registryU128 (l.record windows state readyAt restore) (utf8 "server_pid") = some l.pid := by
  have hlt : l.pid < 2 ^ 64 := l.pid_lt.trans (by decide)
  exact if_pos hlt

theorem record_startedAt : registryU128 (l.record windows state readyAt restore) (utf8 "process_started_at") =
    some (if windows then l.startedAt else l.createdAt) := by
  have hlt : (if windows then l.startedAt else l.createdAt) < 2 ^ 64 := by
    split
    · exact l.startedAt_lt
    · exact l.createdAt_lt
  exact if_pos hlt

end Record

/-- A cleanup finds the process of a living server by its record. -/
theorem registryServerPid_record {l : Launch} {host : Host} {state : Text} {readyAt : Option ℕ}
    {restore : Option Value} {exe : Option Text} (hrun : host.running l.pid = some l.startedAt)
    (he : registryServerExeMatchesCurrent (l.record host.windows state readyAt restore) exe = true) :
    (registryServerPid host (l.record host.windows state readyAt restore) l.base exe).any
      host.processIdIsAlive = true := by
  have hmatch : registryProcessStartedAtMatchesPid host (l.record host.windows state readyAt restore) l.pid = true := by
    rw [registryProcessStartedAtMatchesPid, record_startedAt]
    cases hw : host.windows <;> simp [Host.processStartedAtMillisForPid, Host.processIdIsAlive, hw, hrun]
  rw [registryServerPid, record_isForBase, record_ownerMatches, he, record_pid]
  have hlt : l.pid < 4294967296 := l.pid_lt
  simp [hmatch, l.pid_pos, hlt, Host.processIdIsAlive, hrun]

theorem exe_of_evidence {r : Value} {base : Text} {exe : Option Text}
    (h : registryHasCleanupOwnershipEvidence r base exe = true) :
    registryServerExeMatchesCurrent r exe = true := by
  simp only [registryHasCleanupOwnershipEvidence, Bool.and_eq_true] at h
  exact h.2

section Advance
variable {l : Launch} {windows : Bool} {readyAt : ℕ} {restore : Option Value} {dir dir' : Dir} {s s' : Stage}

theorem renameRegistry_eq_some {base : Text} (h : dir.renameRegistry base = some dir') :
    ∃ record, dir.registryTmp base = some record ∧
      dir' = (dir.setRegistryTmp base none).setRegistry base (some record) := by
  obtain ⟨record, hr, hd⟩ := Option.map_eq_some_iff.1 h
  exact ⟨record, hr, hd.symm⟩

/-- The files of one base are the same in two directories. -/
def Dir.Same (b : Text) (dir dir' : Dir) : Prop :=
  dir'.port b = dir.port b ∧ dir'.key b = dir.key b ∧ dir'.registry b = dir.registry b ∧
    dir'.registryTmp b = dir.registryTmp b

theorem same_setPort {b base : Text} (h : b ≠ base) (t : Option Text) (dir : Dir) :
    Dir.Same b dir (dir.setPort base t) := ⟨Function.update_of_ne h .., rfl, rfl, rfl⟩

theorem same_setKey {b base : Text} (h : b ≠ base) (t : Option Text) (dir : Dir) :
    Dir.Same b dir (dir.setKey base t) := ⟨rfl, Function.update_of_ne h .., rfl, rfl⟩

theorem same_setRegistryTmp {b base : Text} (h : b ≠ base) (t : Option (Option Value)) (dir : Dir) :
    Dir.Same b dir (dir.setRegistryTmp base t) := ⟨rfl, rfl, rfl, Function.update_of_ne h ..⟩

theorem same_setRegistry {b base : Text} (h : b ≠ base) (t : Option (Option Value)) (dir : Dir) :
    Dir.Same b dir (dir.setRegistry base t) := ⟨rfl, rfl, Function.update_of_ne h .., rfl⟩

theorem Dir.Same.refl (b : Text) (dir : Dir) : Dir.Same b dir dir := ⟨rfl, rfl, rfl, rfl⟩

theorem same_renameRegistry {b base : Text} (h : b ≠ base) (hr : dir.renameRegistry base = some dir') :
    Dir.Same b dir dir' := by
  obtain ⟨record, -, rfl⟩ := renameRegistry_eq_some hr
  exact ⟨rfl, rfl, Function.update_of_ne h .., Function.update_of_ne h ..⟩

/-- A server writes under its own base only. -/
theorem advance_frame (h : l.advance windows readyAt restore dir s = some (dir', s')) {b : Text}
    (hb : b ≠ l.base) : Dir.Same b dir dir' := by
  cases s with
  | unborn => contradiction
  | bound => obtain ⟨rfl, -⟩ := Prod.mk.inj (Option.some.inj h); exact same_setPort hb ..
  | wrotePort => obtain ⟨rfl, -⟩ := Prod.mk.inj (Option.some.inj h); exact same_setKey hb ..
  | wroteKey => obtain ⟨rfl, -⟩ := Prod.mk.inj (Option.some.inj h); exact same_setRegistryTmp hb ..
  | wroteTmp =>
    obtain ⟨d, hd, he⟩ := Option.map_eq_some_iff.1 h
    obtain ⟨rfl, -⟩ := Prod.mk.inj he
    exact same_renameRegistry hb hd
  | starting =>
    simp only [Launch.advance] at h
    split at h
    · obtain ⟨rfl, -⟩ := Prod.mk.inj (Option.some.inj h); exact same_setKey hb ..
    · obtain ⟨rfl, -⟩ := Prod.mk.inj (Option.some.inj h); exact .refl ..
  | truncated => obtain ⟨rfl, -⟩ := Prod.mk.inj (Option.some.inj h); exact same_setKey hb ..
  | rewritten => obtain ⟨rfl, -⟩ := Prod.mk.inj (Option.some.inj h); exact .refl ..
  | accepting => obtain ⟨rfl, -⟩ := Prod.mk.inj (Option.some.inj h); exact same_setRegistryTmp hb ..
  | readyTmp =>
    obtain ⟨d, hd, he⟩ := Option.map_eq_some_iff.1 h
    obtain ⟨rfl, -⟩ := Prod.mk.inj he
    exact same_renameRegistry hb hd
  | ready => obtain ⟨rfl, -⟩ := Prod.mk.inj (Option.some.inj h); exact same_setRegistryTmp hb ..
  | refreshTmp =>
    obtain ⟨rfl, -⟩ := Prod.mk.inj (Option.some.inj h)
    cases hr : dir.renameRegistry l.base with
    | none => exact .refl ..
    | some d => exact same_renameRegistry hb hr

/-- The stage after a step. -/
def Stage.succ (windows : Bool) : Stage → Stage
  | .unborn => .unborn
  | .bound => .wrotePort
  | .wrotePort => .wroteKey
  | .wroteKey => .wroteTmp
  | .wroteTmp => .starting
  | .starting => if windows then .truncated else .accepting
  | .truncated => .rewritten
  | .rewritten => .accepting
  | .accepting => .readyTmp
  | .readyTmp | .refreshTmp => .ready
  | .ready => .refreshTmp

theorem advance_stage (h : l.advance windows readyAt restore dir s = some (dir', s')) :
    s ≠ .unborn ∧ s' = s.succ windows := by
  cases s with
  | unborn => contradiction
  | wroteTmp | readyTmp =>
    obtain ⟨d, -, he⟩ := Option.map_eq_some_iff.1 h
    exact ⟨by simp, (Prod.mk.inj he).2.symm⟩
  | starting =>
    cases windows <;> exact ⟨by simp, (Prod.mk.inj (Option.some.inj h)).2.symm⟩
  | _ => exact ⟨by simp, (Prod.mk.inj (Option.some.inj h)).2.symm⟩

/-- What is written after a step was written before, or is the one file. -/
theorem wrote_succ (windows : Bool) {s : Stage} (hs : s ≠ .unborn) (f : Kind) :
    (s.succ windows).wrote f = true ↔ s.wrote f = true ∨ s.writes = some f := by
  cases s <;> cases f <;> cases windows <;> first | contradiction | decide

/-- Where a registry file comes from: it was there, or the record aside was put in place. -/
theorem advance_registry (h : l.advance windows readyAt restore dir s = some (dir', s')) :
    (s.tmp = false ∨ s = .refreshTmp) ∧ dir'.registry l.base = dir.registry l.base ∨
      s.tmp = true ∧ ∃ record, dir.registryTmp l.base = some record ∧
        dir'.registry l.base = some record := by
  have hrename : ∀ {d}, dir.renameRegistry l.base = some d → ∃ record, dir.registryTmp l.base = some record ∧
      d.registry l.base = some record := by
    intro d hd
    obtain ⟨record, hr, rfl⟩ := renameRegistry_eq_some hd
    exact ⟨record, hr, Function.update_self ..⟩
  cases s with
  | wroteTmp | readyTmp =>
    obtain ⟨d, hd, he⟩ := Option.map_eq_some_iff.1 h
    obtain ⟨rfl, -⟩ := Prod.mk.inj he
    exact .inr ⟨rfl, hrename hd⟩
  | refreshTmp =>
    obtain ⟨rfl, -⟩ := Prod.mk.inj (Option.some.inj h)
    cases hd : dir.renameRegistry l.base with
    | none => exact .inl ⟨.inr rfl, rfl⟩
    | some d => exact .inr ⟨rfl, hrename hd⟩
  | unborn => contradiction
  | starting =>
    cases windows <;>
    · obtain ⟨rfl, -⟩ := Prod.mk.inj (Option.some.inj h)
      exact .inl ⟨.inl rfl, rfl⟩
  | _ =>
    obtain ⟨rfl, -⟩ := Prod.mk.inj (Option.some.inj h)
    exact .inl ⟨.inl rfl, rfl⟩

/-- The port file is written once. -/
theorem advance_port (h : l.advance windows readyAt restore dir s = some (dir', s')) :
    s = .bound ∧ dir'.port l.base = some (decimal l.port) ∨ s ≠ .bound ∧ dir'.port l.base = dir.port l.base := by
  cases s with
  | unborn => contradiction
  | bound =>
    obtain ⟨rfl, -⟩ := Prod.mk.inj (Option.some.inj h)
    exact .inl ⟨rfl, Function.update_self ..⟩
  | wroteTmp | readyTmp =>
    obtain ⟨d, hd, he⟩ := Option.map_eq_some_iff.1 h
    obtain ⟨rfl, -⟩ := Prod.mk.inj he
    obtain ⟨record, -, rfl⟩ := renameRegistry_eq_some hd
    exact .inr ⟨by simp, rfl⟩
  | refreshTmp =>
    obtain ⟨rfl, -⟩ := Prod.mk.inj (Option.some.inj h)
    cases hd : dir.renameRegistry l.base with
    | none => exact .inr ⟨by simp, rfl⟩
    | some d =>
      obtain ⟨record, -, rfl⟩ := renameRegistry_eq_some hd
      exact .inr ⟨by simp, rfl⟩
  | starting =>
    cases windows <;>
    · obtain ⟨rfl, -⟩ := Prod.mk.inj (Option.some.inj h)
      exact .inr ⟨by simp, rfl⟩
  | _ =>
    obtain ⟨rfl, -⟩ := Prod.mk.inj (Option.some.inj h)
    exact .inr ⟨by simp, rfl⟩

/-- What a server writes aside is a record of its own. -/
theorem advance_tmp (h : l.advance windows readyAt restore dir s = some (dir', s')) (hs : s'.tmp = true) :
    ∃ state readyAt restore,
      dir'.registryTmp l.base = some (some (l.record windows state readyAt restore)) := by
  obtain ⟨-, rfl⟩ := advance_stage h
  cases s with
  | wroteKey | accepting | ready =>
    obtain ⟨rfl, -⟩ := Prod.mk.inj (Option.some.inj h)
    exact ⟨_, _, _, Function.update_self ..⟩
  | starting => cases windows <;> contradiction
  | _ => contradiction

end Advance

theorem wrote_port {s : Stage} {f : Kind} (h : s.wrote f = true) : s.wrote .port = true := by
  cases s <;> cases f <;> first | contradiction | rfl

theorem wrote_port_of_tmp {s : Stage} (h : s.tmp = true) : s.wrote .port = true := by
  cases s <;> first | contradiction | rfl

theorem wrote_registry_of_tmp {s : Stage} (h : s.tmp = false ∨ s = .refreshTmp) (windows : Bool)
    (hs : (s.succ windows).wrote .registry = true) : s.wrote .registry = true := by
  cases s <;> cases windows <;> revert h hs <;> decide

/-- A file of a base is the same in two directories. -/
def Untouched : Kind → Text → Dir → Dir → Prop
  | .port, base, dir, dir' => dir'.port base = dir.port base
  | .key, base, dir, dir' => dir'.key base = dir.key base
  | .registry, base, dir, dir' => dir'.registry base = dir.registry base

def Cleanup.removes : Cleanup → Bool
  | .busy _ .removePort | .busy _ .removeKey | .busy _ .removeRegistry | .busy _ .removeTmp => true
  | _ => false

section Step
variable {host : Host} {exe : Option Text} {sight : Sight} {dir : Dir} {pc : Cleanup} {b : Text} {f : Kind}

/-- What a step does to the directory. -/
theorem step_dir : (pc.step host exe sight dir).1 = dir ∨ ∃ e,
    pc = .busy e .removePort ∧ (pc.step host exe sight dir).1 = dir.setPort e.base none ∨
    pc = .busy e .removeKey ∧ (pc.step host exe sight dir).1 = dir.setKey e.base none ∨
    pc = .busy e .removeRegistry ∧ (pc.step host exe sight dir).1 = dir.setRegistry e.base none ∨
    pc = .busy e .removeTmp ∧ (pc.step host exe sight dir).1 = dir.setRegistryTmp e.base none := by
  rcases pc with (_ | ⟨base, rest⟩) | ⟨e, p⟩
  · exact .inl rfl
  · exact .inl rfl
  · cases p with
    | removePort => exact .inr ⟨e, .inl ⟨rfl, rfl⟩⟩
    | removeKey => exact .inr ⟨e, .inr (.inl ⟨rfl, rfl⟩)⟩
    | removeRegistry => exact .inr ⟨e, .inr (.inr (.inl ⟨rfl, rfl⟩))⟩
    | removeTmp => exact .inr ⟨e, .inr (.inr (.inr ⟨rfl, rfl⟩))⟩
    | _ =>
      refine .inl ?_
      simp only [Cleanup.step]
      repeat' split
      all_goals rfl

/-- A cleanup touches a file only while it threatens it and removes. -/
theorem untouched_step (h : pc.threatens exe b f = true → pc.removes = false) :
    Untouched f b dir (pc.step host exe sight dir).1 := by
  rcases @step_dir host exe sight dir pc with
    hd | ⟨e, ⟨rfl, hd⟩ | ⟨rfl, hd⟩ | ⟨rfl, hd⟩ | ⟨rfl, hd⟩⟩ <;> rw [hd]
  · cases f <;> rfl
  · cases f with
    | port =>
      exact Function.update_of_ne (fun he => by simp [he, Cleanup.threatens, Point.pending, Cleanup.removes] at h) ..
    | _ => rfl
  · cases f with
    | key =>
      exact Function.update_of_ne (fun he => by simp [he, Cleanup.threatens, Point.pending, Cleanup.removes] at h) ..
    | _ => rfl
  · cases f with
    | registry =>
      exact Function.update_of_ne (fun he => by simp [he, Cleanup.threatens, Point.pending, Cleanup.removes] at h) ..
    | _ => rfl
  · cases f <;> rfl

/-- What is threatened after a step was threatened before it, or the registry was just read,
or without a registry the port file was, or nothing listens at the port that was read. -/
theorem threatens_step {dir' : Dir} {pc' : Cleanup} (h : pc.step host exe sight dir = (dir', pc'))
    (ht : pc'.threatens exe b f = true) :
    pc.threatens exe b f = true ∨
    (∃ rest, pc = .next (b :: rest) ∧ pc' = .busy ⟨b, dir.readSessionRegistry b, rest⟩ .checkStartup) ∨
    ∃ e, e.base = b ∧ e.registry = none ∧ (pc = .busy e (.readPort true) ∨
      ∃ port, pc = .busy e (.probeOpen true port) ∧ sight.opened = false) := by
  rcases pc with (_ | ⟨base, rest⟩) | ⟨e, p⟩
  · obtain ⟨-, rfl⟩ := Prod.mk.inj h
    contradiction
  · obtain ⟨-, rfl⟩ := Prod.mk.inj h
    have hb : base = b := by
      simp only [Cleanup.threatens, Bool.and_eq_true, decide_eq_true_eq] at ht
      exact ht.1.1
    exact .inr (.inl ⟨rest, by rw [hb], by rw [hb]⟩)
  · obtain ⟨base, registry, rest⟩ := e
    cases registry <;> cases p <;> simp only [Cleanup.step, Cleanup.removeIf, Cleanup.skip] at h <;>
      (repeat' split at h) <;> obtain ⟨-, rfl⟩ := Prod.mk.inj h <;> cases f <;>
      simp only [Cleanup.threatens, Point.pending, Bool.and_eq_true, decide_eq_true_eq] at ht ⊢ <;>
      obtain ⟨⟨rfl, hp⟩, ht⟩ := ht <;> simp_all

end Step

namespace Setting
variable {ι κ : Type} {P : Setting ι κ} {w : World ι κ}

theorem sound_start (P : Setting ι κ) : P.Sound P.start where
  windows := rfl
  born _ h := nomatch h
  running _ h := nomatch h
  pids _ _ h := nomatch h
  sole _ _ h := nomatch h
  ported _ h := nomatch h
  registered _ h := nomatch h
  tmp _ h := nomatch h
  spares _ _ _ h := nomatch h

/-- The processes of the living servers are as they were. -/
theorem Sound.withHost (h : P.Sound w) {host : Host} (hw : host.windows = w.host.windows)
    (hrun : ∀ i, w.alive i = true → host.running (P.launch i).pid = w.host.running (P.launch i).pid) :
    P.Sound { w with host } where
  windows := hw.trans h.windows
  born := h.born
  running i hi := (hrun i hi).trans (h.running i hi)
  pids := h.pids
  sole := h.sole
  ported := h.ported
  registered := h.registered
  tmp := h.tmp
  spares := h.spares

/-- A process ends that is no living server. -/
theorem Sound.exit (h : P.Sound w) {pid : ℕ} (hpid : ∀ i, w.alive i = true → (P.launch i).pid ≠ pid) :
    P.Sound { w with host := ended pid w.host } :=
  h.withHost rfl fun i hi => Function.update_of_ne (hpid i hi) ..

theorem Sound.spawn (h : P.Sound w) {pid : ℕ} (hpid : w.host.running pid = none) (startedAt : ℕ) :
    P.Sound { w with host := started pid startedAt w.host } := by
  refine h.withHost rfl fun i hi => Function.update_of_ne (fun he => ?_) ..
  rw [← he, h.running i hi] at hpid
  contradiction

/-- No other living server has a file under the base of the one that moves. -/
theorem Sound.base_ne (h : P.Sound w) {i j : ι} {readyAt : ℕ} {restore : Option Value}
    (hi : w.alive i = true) (hcalm : P.Calm w (.server i readyAt restore)) (hne : j ≠ i) (hj : w.alive j = true)
    (hw : (w.stage j).wrote .port = true) : (P.launch j).base ≠ (P.launch i).base := by
  intro he
  cases hs : (w.stage i).wrote .port with
  | true => exact hne (h.sole j i hj hi he hw hs)
  | false =>
    have hbound : w.stage i = .bound := by
      have := h.born i hi
      revert hs
      cases hst : w.stage i <;> first | contradiction | simp [Stage.wrote]
    rw [hcalm.2 hbound j hj he] at hw
    contradiction

theorem removes_of_finds {i : ι} {pc : Cleanup} (h : P.Finds i pc) : pc.removes = false := by
  rcases pc with _ | ⟨e, p⟩
  · rfl
  · cases p <;> first | rfl | exact h.elim

/-- At its last check a cleanup finds the server whose record it has read. -/
theorem not_threatens_of_checkAlive {i : ι} (h : P.Sound w) (hi : w.alive i = true) {e : Entry} {r : Value}
    {exe : Option Text} {sight : Sight} {f : Kind} (he : e.registry = some r) (hr : P.IsRecord i r) :
    ((Cleanup.busy e .checkAlive).step w.host exe sight w.dir).2.threatens exe (P.launch i).base f = false := by
  obtain ⟨state, readyAt, restore, rfl⟩ := hr
  by_contra hthreat
  rw [Bool.not_eq_false] at hthreat
  rw [Cleanup.step, he] at hthreat
  dsimp only at hthreat
  split at hthreat
  · contradiction
  · simp only [Cleanup.threatens, Bool.and_eq_true, decide_eq_true_eq] at hthreat
    obtain ⟨⟨hb, -⟩, hev, -⟩ := hthreat
    rw [hb] at hev
    have hfound := registryServerPid_record (h.running i hi) (h.windows ▸ exe_of_evidence hev)
    rw [h.windows, ← hb] at hfound
    contradiction

/-- A server that a cleanup will find is found, or is to be found after the step. -/
theorem finds_step {i : ι} (h : P.Sound w) (hi : w.alive i = true) {exe : Option Text} {sight : Sight} {dir : Dir}
    {pc pc' : Cleanup} {f : Kind} (hseen : P.Truthful w sight pc) (hfinds : P.Finds i pc)
    (hstep : pc.step w.host exe sight w.dir = (dir, pc'))
    (hthreat : pc'.threatens exe (P.launch i).base f = true) : P.Finds i pc' := by
  rcases pc with _ | ⟨e, p⟩
  · exact hfinds.elim
  · cases p with
    | checkStartup =>
      obtain ⟨r, he, hr⟩ := hfinds
      rw [Cleanup.step, he] at hstep
      dsimp only at hstep
      split at hstep <;> obtain ⟨-, rfl⟩ := Prod.mk.inj hstep
      · contradiction
      · exact ⟨r, he, hr⟩
    | checkAlive =>
      obtain ⟨r, he, hr⟩ := hfinds
      have hno := @not_threatens_of_checkAlive _ _ _ _ _ h hi _ _ exe sight f he hr
      rw [hstep, hthreat] at hno
      contradiction
    | readKey allowed port =>
      rw [Cleanup.step] at hstep
      split at hstep <;> obtain ⟨-, rfl⟩ := Prod.mk.inj hstep <;> exact hfinds
    | probe allowed port key =>
      rw [Cleanup.step] at hstep
      split at hstep <;> obtain ⟨-, rfl⟩ := Prod.mk.inj hstep
      · contradiction
      · exact hfinds
    | probeOpen allowed port =>
      -- The living server listens, and without a registry that is enough.
      obtain ⟨he, rfl⟩ := hfinds
      have hopened : sight.opened = true := hseen ⟨i, hi, rfl⟩
      rw [Cleanup.step, hopened, he] at hstep
      obtain ⟨-, rfl⟩ := Prod.mk.inj hstep
      contradiction
    | _ => exact hfinds.elim

/-- The port that a cleanup reads is the living server's. -/
theorem finds_of_readPort {i : ι} (h : P.Sound w) (hi : w.alive i = true)
    (hw : (w.stage i).wrote .port = true) {e : Entry} {exe : Option Text} {sight : Sight} {dir : Dir} {pc : Cleanup}
    {allowed : Bool} (hb : e.base = (P.launch i).base) (he : e.registry = none)
    (hstep : (Cleanup.busy e (.readPort allowed)).step w.host exe sight w.dir = (dir, pc)) : P.Finds i pc := by
  have hport : (w.dir.port e.base).bind (fun text => parseUnsigned (2 ^ 16) (trim text)) =
      some (P.launch i).port := by
    rw [hb, h.ported i hi hw, Option.bind_some, trim_decimal]
    exact parseUnsigned_decimal (P.launch i).port_lt
  rw [Cleanup.step, hport] at hstep
  obtain ⟨-, rfl⟩ := Prod.mk.inj hstep
  exact ⟨he, rfl⟩

/-- A cleanup that moves on spares what it spared, and what is written now. -/
theorem Sound.spares_step [DecidableEq κ] (h : P.Sound w) {c : κ} {sight : Sight} {dir : Dir} {pc : Cleanup}
    (hcalm : P.Calm w (.cleanup c sight)) (hseen : P.Truthful w sight (w.cleanups c))
    (hstep : (w.cleanups c).step w.host (P.exe c) sight w.dir = (dir, pc)) {i : ι} {f : Kind}
    (hi : w.alive i = true) (hthreat : pc.threatens (P.exe c) (P.launch i).base f = true)
    (hw : (w.stage i).wrote f = true) : P.Finds i pc := by
  rcases threatens_step hstep hthreat with hold | ⟨rest, hnext, rfl⟩ | ⟨e, hb, he, hpc | ⟨port, hpc, hclosed⟩⟩
  · exact finds_step h hi hseen (h.spares c i f hi hold hw) hstep hthreat
  · simp only [Calm, hnext] at hcalm
    simp only [Cleanup.threatens, Bool.and_eq_true] at hthreat
    obtain ⟨r, hreg, hr⟩ := h.registered i hi (hcalm hthreat.2 i hi rfl (wrote_port hw))
    exact ⟨r, by rw [Dir.readSessionRegistry, hreg]; rfl, hr⟩
  · rw [hpc] at hstep
    exact finds_of_readPort h hi (wrote_port hw) hb he hstep
  · have hport : (w.cleanups c).threatens (P.exe c) (P.launch i).base .port = true := by
      simp [hpc, Cleanup.threatens, Point.pending, hb]
    have hfinds := h.spares c i .port hi hport (wrote_port hw)
    rw [hpc] at hfinds hseen
    obtain ⟨-, rfl⟩ := hfinds
    have hopened : sight.opened = true := hseen ⟨i, hi, rfl⟩
    rw [hopened] at hclosed
    contradiction

/-- A cleanup takes a step. -/
theorem Sound.cleanup [DecidableEq κ] (h : P.Sound w) {c : κ} {sight : Sight} {dir : Dir} {pc : Cleanup}
    (hcalm : P.Calm w (.cleanup c sight)) (hseen : P.Truthful w sight (w.cleanups c))
    (hstep : (w.cleanups c).step w.host (P.exe c) sight w.dir = (dir, pc)) :
    P.Sound { w with dir, cleanups := Function.update w.cleanups c pc } := by
  have huntouched : ∀ i f, w.alive i = true → (w.stage i).wrote f = true →
      Untouched f (P.launch i).base w.dir dir := by
    intro i f hi hw
    have hfile := @untouched_step w.host (P.exe c) sight w.dir (w.cleanups c)
      (P.launch i).base f fun hthreat => removes_of_finds (h.spares c i f hi hthreat hw)
    rwa [hstep] at hfile
  refine ⟨h.windows, h.born, h.running, h.pids, h.sole, fun i hi hw => ?_, fun i hi hw => ?_,
    fun i hi ht t hdir => ?_, fun c' i f hi hthreat hw => ?_⟩
  · have hsame : dir.port _ = _ := huntouched i .port hi hw
    rw [hsame]
    exact h.ported i hi hw
  · have hsame : dir.registry _ = _ := huntouched i .registry hi hw
    rw [hsame]
    exact h.registered i hi hw
  · refine h.tmp i hi ht t ?_
    have hdir : dir.registryTmp (P.launch i).base = some t := hdir
    rcases @step_dir w.host (P.exe c) sight w.dir (w.cleanups c) with
      hd | ⟨e, ⟨-, hd⟩ | ⟨-, hd⟩ | ⟨-, hd⟩ | ⟨-, hd⟩⟩ <;> rw [hstep] at hd <;> subst hd
    · exact hdir
    · exact hdir
    · exact hdir
    · exact hdir
    · by_cases hb : (P.launch i).base = e.base
      · simp only [Dir.setRegistryTmp, hb, Function.update_self] at hdir
        contradiction
      · simpa only [Dir.setRegistryTmp, Function.update_of_ne hb] using hdir
  · by_cases hc : c' = c
    · subst hc
      simp only [Function.update_self] at hthreat ⊢
      exact h.spares_step hcalm hseen hstep hi hthreat hw
    · simp only [Function.update_of_ne hc] at hthreat ⊢
      exact h.spares c' i f hi hthreat hw

variable [DecidableEq ι]

theorem alive_died {i j : ι} : (P.died i w).alive j = true ↔ j ≠ i ∧ w.alive j = true := by
  by_cases he : j = i
  · simp [Setting.died, he]
  · simp [Setting.died, he]

theorem Sound.died (h : P.Sound w) {i : ι} (hi : w.alive i = true) : P.Sound (P.died i w) where
  windows := h.windows
  born j hj := h.born j (alive_died.1 hj).2
  running j hj := by
    obtain ⟨hne, hj⟩ := alive_died.1 hj
    exact (Function.update_of_ne (fun he => hne (h.pids j i hj hi he)) ..).trans (h.running j hj)
  pids j k hj hk := h.pids j k (alive_died.1 hj).2 (alive_died.1 hk).2
  sole j k hj hk := h.sole j k (alive_died.1 hj).2 (alive_died.1 hk).2
  ported j hj := h.ported j (alive_died.1 hj).2
  registered j hj := h.registered j (alive_died.1 hj).2
  tmp j hj := h.tmp j (alive_died.1 hj).2
  spares c j f hj := h.spares c j f (alive_died.1 hj).2

/-- A server that is just bound has written nothing yet. -/
theorem Sound.launched (h : P.Sound w) {i : ι} (hstage : w.stage i = .unborn)
    (hpid : w.host.running (P.launch i).pid = none) :
    P.Sound { w with
      stage := Function.update w.stage i .bound
      alive := Function.update w.alive i true
      host := started (P.launch i).pid (P.launch i).startedAt w.host } := by
  have hdead : ∀ j, w.alive j = true → j ≠ i := fun j hj he => h.born j hj (he ▸ hstage)
  have hcases : ∀ j, Function.update w.alive i true j = true → j = i ∨ j ≠ i ∧ w.alive j = true := by
    intro j hj
    by_cases he : j = i
    · exact .inl he
    · rw [Function.update_of_ne he] at hj
      exact .inr ⟨he, hj⟩
  have hnew : ∀ f, (Function.update w.stage i .bound i).wrote f = false := by
    intro f
    rw [Function.update_self]
    cases f <;> rfl
  have hother : ∀ j f, (Function.update w.stage i .bound j).wrote f = true →
      Function.update w.alive i true j = true → j ≠ i ∧ w.alive j = true ∧ (w.stage j).wrote f = true := by
    intro j f hw hj
    obtain rfl | ⟨hne, hj⟩ := hcases j hj
    · rw [hnew] at hw
      contradiction
    · rw [Function.update_of_ne hne] at hw
      exact ⟨hne, hj, hw⟩
  have hrun : ∀ j, w.alive j = true → (P.launch j).pid ≠ (P.launch i).pid := by
    intro j hj he
    rw [← he, h.running j hj] at hpid
    contradiction
  refine ⟨h.windows, fun j hj => ?_, fun j hj => ?_, fun j k hj hk he => ?_, fun j k hj hk he hwj hwk => ?_,
    fun j hj hw => ?_, fun j hj hw => ?_, fun j hj ht => ?_, fun c j f hj hthreat hw => ?_⟩
  · obtain rfl | ⟨hne, hj⟩ := hcases j hj
    · simp
    · exact (Function.update_of_ne hne ..).trans_ne (h.born j hj)
  · obtain rfl | ⟨hne, hj⟩ := hcases j hj
    · exact Function.update_self ..
    · exact (Function.update_of_ne (hrun j hj) ..).trans (h.running j hj)
  · obtain hji | ⟨-, hj⟩ := hcases j hj <;> obtain hki | ⟨-, hk⟩ := hcases k hk
    · exact hji.trans hki.symm
    · exact absurd (hji ▸ he).symm (hrun k hk)
    · exact absurd (hki ▸ he) (hrun j hj)
    · exact h.pids j k hj hk he
  · obtain ⟨-, hj, hwj⟩ := hother j .port hwj hj
    obtain ⟨-, hk, hwk⟩ := hother k .port hwk hk
    exact h.sole j k hj hk he hwj hwk
  · obtain ⟨-, hj, hw⟩ := hother j .port hw hj
    exact h.ported j hj hw
  · obtain ⟨-, hj, hw⟩ := hother j .registry hw hj
    exact h.registered j hj hw
  · obtain ⟨hne, hj, -⟩ := hother j .port (wrote_port_of_tmp ht) hj
    simp only [Function.update_of_ne hne] at ht
    exact h.tmp j hj ht
  · obtain ⟨-, hj, hw⟩ := hother j f hw hj
    exact h.spares c j f hj hthreat hw

/-- A living server writes its next file. -/
theorem Sound.advanced (h : P.Sound w) {i : ι} {readyAt : ℕ} {restore : Option Value} {dir : Dir} {s : Stage}
    (hi : w.alive i = true) (hcalm : P.Calm w (.server i readyAt restore))
    (hadv : (P.launch i).advance P.windows readyAt restore w.dir (w.stage i) = some (dir, s)) :
    P.Sound { w with dir, stage := Function.update w.stage i s } := by
  obtain ⟨hunborn, rfl⟩ := advance_stage hadv
  have hframe : ∀ j, j ≠ i → w.alive j = true → (w.stage j).wrote .port = true →
      Dir.Same (P.launch j).base w.dir dir := fun j hne hj hw =>
    advance_frame hadv (h.base_ne hi hcalm hne hj hw)
  have hbase : ∀ j, w.alive j = true → (P.launch j).base = (P.launch i).base →
      (Function.update w.stage i ((w.stage i).succ P.windows) j).wrote .port = true → j = i := by
    intro j hj he hw
    by_contra hne
    rw [Function.update_of_ne hne] at hw
    exact h.base_ne hi hcalm hne hj hw he
  refine ⟨h.windows, fun j hj => ?_, h.running, h.pids, fun j k hj hk he hwj hwk => ?_,
    fun j hj hw => ?_, fun j hj hw => ?_, fun j hj ht t hdir => ?_, fun c j f hj hthreat hw => ?_⟩
  · by_cases hne : j = i
    · subst hne
      show Function.update _ _ _ _ ≠ _
      rw [Function.update_self]
      cases hs : w.stage j <;> cases hw : P.windows <;> simp_all [Stage.succ]
    · exact (Function.update_of_ne hne ..).trans_ne (h.born j hj)
  · by_cases hji : j = i <;> by_cases hki : k = i
    · rw [hji, hki]
    · rw [hji] at he
      exact (hbase k hk he.symm hwk).symm ▸ hji
    · rw [hki] at he
      exact (hbase j hj he hwj).trans hki.symm
    · simp only [Function.update_of_ne hji] at hwj
      simp only [Function.update_of_ne hki] at hwk
      exact h.sole j k hj hk he hwj hwk
  · by_cases hne : j = i
    · subst hne
      simp only [Function.update_self] at hw
      rcases advance_port hadv with ⟨-, hport⟩ | ⟨hbound, hport⟩
      · exact hport
      · rcases (wrote_succ _ hunborn .port).1 hw with hold | hnew
        · exact hport.trans (h.ported j hj hold)
        · exact absurd hnew (by cases hs : w.stage j <;> simp_all [Stage.writes])
    · simp only [Function.update_of_ne hne] at hw
      exact (hframe j hne hj hw).1.trans (h.ported j hj hw)
  · by_cases hne : j = i
    · subst hne
      simp only [Function.update_self] at hw
      rcases advance_registry hadv with ⟨hs, hreg⟩ | ⟨hs, record, hrec, hreg⟩
      · have hold := h.registered j hj (wrote_registry_of_tmp hs _ hw)
        rwa [← hreg] at hold
      · obtain ⟨r, rfl, hr⟩ := h.tmp j hj hs record hrec
        exact ⟨r, hreg, hr⟩
    · simp only [Function.update_of_ne hne] at hw
      have hsame := hframe j hne hj (wrote_port hw)
      have hold := h.registered j hj hw
      rwa [← hsame.2.2.1] at hold
  · by_cases hne : j = i
    · subst hne
      simp only [Function.update_self] at ht
      obtain ⟨state, readyAt, restore, hrec⟩ := advance_tmp hadv ht
      rw [hrec] at hdir
      exact ⟨_, (Option.some.inj hdir).symm, state, readyAt, restore, rfl⟩
    · simp only [Function.update_of_ne hne] at ht
      have hsame := hframe j hne hj (wrote_port_of_tmp ht)
      exact h.tmp j hj ht t (hsame.2.2.2 ▸ hdir)
  · by_cases hne : j = i
    · subst hne
      simp only [Function.update_self] at hw
      rcases (wrote_succ _ hunborn f).1 hw with hold | hnew
      · exact h.spares c j f hj hthreat hold
      · have hno := hcalm.1 f hnew c
        have hthreat : (w.cleanups c).threatens (P.exe c) (P.launch j).base f = true := hthreat
        rw [hno] at hthreat
        contradiction
    · simp only [Function.update_of_ne hne] at hw
      exact h.spares c j f hj hthreat hw

theorem sound_of_reachable [DecidableEq κ] (h : (P.system.restrict P.Calm).Reachable w) : P.Sound w := by
  refine h.invariant (sound_start P) fun w l _ ih ⟨hen, hcalm⟩ => ?_
  cases l with
  | launch i => exact ih.launched hen.1 hen.2.1
  | server i readyAt restore =>
    show P.Sound (P.next w (.server i readyAt restore))
    rw [next]
    split
    · exact ih.advanced hen hcalm ‹_›
    · exact ih.died hen
  | die i => exact ih.died hen
  | spawn pid startedAt => exact ih.spawn hen startedAt
  | exit pid => exact ih.exit hen.2
  | call c bases =>
    refine { ih with spares := fun c' i f hi hthreat hw => ?_ }
    by_cases hc : c' = c
    · simp only [system, System.restrict, next, hc, Function.update_self] at hthreat
      contradiction
    · simp only [system, System.restrict, next, Function.update_of_ne hc] at hthreat ⊢
      exact ih.spares c' i f hi hthreat hw
  | cleanup c sight => exact ih.cleanup hcalm hen.2 rfl

end Setting
end Winsmux.Stale
