import Mathlib.Data.Set.Basic
import Mathlib.Tactic

/-!
# Labelled transition systems

A system is a start state, a guard and an effect for each label. A state is
reached by the steps of any interleaving; `restrict ok` keeps the runs in which
every step meets `ok` in the state before it. The second half is about infinite
runs: a weakly fair run makes the progress that its helpful steps make.
-/
namespace Winsmux.Transition

structure System (σ ℓ : Type*) where
  init : σ
  enabled : σ → ℓ → Prop
  next : σ → ℓ → σ

namespace System
variable {σ ℓ : Type*} (S : System σ ℓ)

/-- Reached from the start by any interleaving of enabled steps. -/
inductive Reachable : σ → Prop
  | init : Reachable S.init
  | step {s : σ} {l : ℓ} : Reachable s → S.enabled s l → Reachable (S.next s l)

/-- The same system, its runs kept to the steps that meet `ok` in the state before. -/
def restrict (ok : σ → ℓ → Prop) : System σ ℓ :=
  { S with enabled := fun s l => S.enabled s l ∧ ok s l }

instance restrict.decidable (ok : σ → ℓ → Prop) [∀ s l, Decidable (S.enabled s l)]
    [∀ s l, Decidable (ok s l)] (s : σ) (l : ℓ) : Decidable ((S.restrict ok).enabled s l) :=
  inferInstanceAs (Decidable (S.enabled s l ∧ ok s l))

variable {S}

theorem Reachable.mono {ok ok' : σ → ℓ → Prop} (hok : ∀ s l, ok s l → ok' s l) {s : σ}
    (h : (S.restrict ok).Reachable s) : (S.restrict ok').Reachable s := by
  induction h with
  | init => exact .init
  | step _ hl ih => exact Reachable.step ih ⟨hl.1, hok _ _ hl.2⟩

theorem Reachable.of_restrict {ok : σ → ℓ → Prop} {s : σ} (h : (S.restrict ok).Reachable s) :
    S.Reachable s := by
  induction h with
  | init => exact .init
  | step _ hl ih => exact ih.step hl.1

/-- What holds at the start and is kept by every step holds throughout. -/
theorem Reachable.invariant {P : σ → Prop} (hinit : P S.init)
    (hstep : ∀ s l, S.Reachable s → P s → S.enabled s l → P (S.next s l))
    {s : σ} (h : S.Reachable s) : P s := by
  induction h with
  | init => exact hinit
  | step hs hl ih => exact hstep _ _ hs ih hl

variable (S)

/-- The state after a list of steps. -/
def run (s : σ) (ls : List ℓ) : σ := ls.foldl S.next s

/-- Each label of the list is enabled when its turn comes. -/
def Valid : σ → List ℓ → Prop
  | _, [] => True
  | s, l :: ls => S.enabled s l ∧ Valid (S.next s l) ls

instance decidableValid [∀ s l, Decidable (S.enabled s l)] :
    ∀ (s : σ) (ls : List ℓ), Decidable (S.Valid s ls)
  | _, [] => .isTrue trivial
  | s, l :: ls =>
    have := decidableValid (S.next s l) ls
    inferInstanceAs (Decidable (S.enabled s l ∧ S.Valid (S.next s l) ls))

variable {S}

theorem Reachable.run {s : σ} (h : S.Reachable s) (ls : List ℓ) (hv : S.Valid s ls) :
    S.Reachable (S.run s ls) := by
  induction ls generalizing s with
  | nil => exact h
  | cons l ls ih => exact ih (h.step hv.1) hv.2

/-- What every step keeps, a run keeps. -/
theorem Valid.invariant {P : σ → Prop}
    (hstep : ∀ s l, S.Reachable s → P s → S.enabled s l → P (S.next s l)) {s : σ} {ls : List ℓ}
    (hs : S.Reachable s) (hP : P s) (hv : S.Valid s ls) : P (S.run s ls) := by
  induction ls generalizing s with
  | nil => exact hP
  | cons l ls ih => exact ih (hs.step hv.1) (hstep s l hs hP hv.1) hv.2

variable (S)

/-- An infinite run; where the label is `none` nothing moves. -/
structure Execution where
  state : ℕ → σ
  label : ℕ → Option ℓ
  start : state 0 = S.init
  step : ∀ i l, label i = some l → S.enabled (state i) l ∧ state (i + 1) = S.next (state i) l
  stutter : ∀ i, label i = none → state (i + 1) = state i

/-- A class of labels that stays enabled is eventually taken. -/
def Execution.Fair {S : System σ ℓ} (e : S.Execution) (A : Set ℓ) : Prop :=
  ∀ i, (∀ j, i ≤ j → ∃ l ∈ A, S.enabled (e.state j) l) → ∃ j, i ≤ j ∧ ∃ l ∈ A, e.label j = some l

variable {S}

theorem Execution.reachable (e : S.Execution) (i : ℕ) : S.Reachable (e.state i) := by
  induction i with
  | zero => rw [e.start]; exact .init
  | succ i ih =>
    cases h : e.label i with
    | none => rw [e.stutter i h]; exact ih
    | some l =>
      obtain ⟨hl, hn⟩ := e.step i l h
      rw [hn]
      exact ih.step hl

theorem run_append (s : σ) (ls ls' : List ℓ) : S.run s (ls ++ ls') = S.run (S.run s ls) ls' :=
  List.foldl_append

theorem Valid.enabled {s : σ} {ls : List ℓ} (hv : S.Valid s ls) {i : ℕ} {l : ℓ}
    (h : ls[i]? = some l) : S.enabled (S.run s (ls.take i)) l := by
  induction ls generalizing s i with
  | nil => simp at h
  | cons k ls ih =>
    cases i with
    | zero =>
      obtain rfl : k = l := by simpa using h
      exact hv.1
    | succ i => exact ih hv.2 (by simpa using h)

/-- A finite run, after which nothing moves. -/
def Execution.ofRun (ls : List ℓ) (hv : S.Valid S.init ls) : S.Execution where
  state i := S.run S.init (ls.take i)
  label i := ls[i]?
  start := rfl
  step i l h := by
    refine ⟨hv.enabled h, ?_⟩
    rw [List.take_add_one, h, run_append]
    rfl
  stutter i h := by simp [List.take_add_one, h]

/-- It is fair to what cannot move at its end. -/
theorem Execution.ofRun_fair {ls : List ℓ} (hv : S.Valid S.init ls) {A : Set ℓ}
    (h : ∀ l ∈ A, ¬ S.enabled (S.run S.init ls) l) : (Execution.ofRun ls hv).Fair A := by
  intro i hen
  obtain ⟨l, hl, hen⟩ := hen (max i ls.length) (le_max_left ..)
  refine absurd ?_ (h l hl)
  simpa [ofRun, List.take_of_length_le] using hen

/-- A progress argument: while `I` holds and the goal does not, the class that
`helper` names has an enabled step, each of its steps lowers the rank, and no
other step raises the rank or changes the class at the same rank. -/
structure Progress (S : System σ ℓ) (κ : Type*) where
  I : σ → Prop
  goal : σ → Prop
  rank : σ → ℕ
  helper : σ → κ
  steps : κ → Set ℓ
  enabled : ∀ s, S.Reachable s → I s → ¬ goal s → ∃ l ∈ steps (helper s), S.enabled s l
  other : ∀ s l, S.Reachable s → I s → ¬ goal s → S.enabled s l → ¬ goal (S.next s l) →
    I (S.next s l) ∧ (rank (S.next s l) < rank s ∨
      rank (S.next s l) = rank s ∧ helper (S.next s l) = helper s)
  helpful : ∀ s l, S.Reachable s → I s → ¬ goal s → S.enabled s l → l ∈ steps (helper s) →
    ¬ goal (S.next s l) → rank (S.next s l) < rank s

/-- Until the goal, or until the rank falls, the class stays the same. -/
theorem Progress.steady {κ : Type*} (p : Progress S κ) (e : S.Execution) (i : ℕ)
    (hI : p.I (e.state i)) (hgoal : ∀ j, i ≤ j → ¬ p.goal (e.state j)) (j : ℕ) (hj : i ≤ j) :
    p.I (e.state j) ∧ (p.rank (e.state j) < p.rank (e.state i) ∨
      p.rank (e.state j) = p.rank (e.state i) ∧ p.helper (e.state j) = p.helper (e.state i)) := by
  induction j, hj using Nat.le_induction with
  | base => exact ⟨hI, .inr ⟨rfl, rfl⟩⟩
  | succ j hj ih =>
    obtain ⟨hIj, hrank⟩ := ih
    cases hl : e.label j with
    | none => rw [e.stutter j hl]; exact ⟨hIj, hrank⟩
    | some l =>
      obtain ⟨hen, hn⟩ := e.step j l hl
      have hng : ¬ p.goal (S.next (e.state j) l) := by
        rw [← hn]
        exact hgoal (j + 1) (by omega)
      obtain ⟨hI', hstep⟩ := p.other _ l (e.reachable j) hIj (hgoal j hj) hen hng
      rw [hn]
      refine ⟨hI', ?_⟩
      rcases hrank with h | ⟨h, hh⟩ <;> rcases hstep with h' | ⟨h', hh'⟩
      · exact .inl (by omega)
      · exact .inl (by omega)
      · exact .inl (by omega)
      · exact .inr ⟨by omega, hh'.trans hh⟩

/-- A run that is fair to the helpful classes reaches the goal. -/
theorem Progress.eventually {κ : Type*} (p : Progress S κ) (e : S.Execution)
    (hfair : ∀ k, e.Fair (p.steps k)) (i : ℕ) (hI : p.I (e.state i)) :
    ∃ j, i ≤ j ∧ p.goal (e.state j) := by
  induction hr : p.rank (e.state i) using Nat.strong_induction_on generalizing i with
  | _ r ih =>
    by_contra hno
    have hgoal : ∀ j, i ≤ j → ¬ p.goal (e.state j) := fun j hj hg => hno ⟨j, hj, hg⟩
    have hsame : ∀ j, i ≤ j → p.I (e.state j) ∧ p.rank (e.state j) = r ∧
        p.helper (e.state j) = p.helper (e.state i) := by
      intro j hj
      obtain ⟨hIj, hlt | ⟨heq, hh⟩⟩ := p.steady e i hI hgoal j hj
      · obtain ⟨k, hk, hg⟩ := ih _ (hr ▸ hlt) j hIj rfl
        exact absurd hg (hgoal k (hj.trans hk))
      · exact ⟨hIj, heq.trans hr, hh⟩
    obtain ⟨j, hj, l, hmem, hl⟩ := hfair (p.helper (e.state i)) i fun j hj => by
      obtain ⟨hIj, -, hh⟩ := hsame j hj
      rw [← hh]
      exact p.enabled _ (e.reachable j) hIj (hgoal j hj)
    obtain ⟨hen, hn⟩ := e.step j l hl
    obtain ⟨hIj, hrj, hh⟩ := hsame j hj
    have hlt := p.helpful _ l (e.reachable j) hIj (hgoal j hj) hen (hh ▸ hmem)
      (hn ▸ hgoal (j + 1) (by omega))
    rw [← hn, (hsame (j + 1) (by omega)).2.1, hrj] at hlt
    exact lt_irrefl r hlt

end System
end Winsmux.Transition
