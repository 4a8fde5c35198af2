import Mathlib.Tactic

/-!
# Giving up pieces until the rest fits

A state gives up one piece after another until what is left fits, or nothing is left to give
up. Where the removals go through a list of states, what comes out is the first that fits.
-/
namespace Winsmux

/-- How a state gives up a piece, and how many it has. -/
structure Shrinking (σ : Type*) where
  remove : σ → Option σ
  size : σ → ℕ
  size_lt : ∀ {s s'}, remove s = some s' → size s' < size s

namespace Shrinking
variable {σ : Type*} (k : Shrinking σ) (fits : σ → Bool)

def shrink (s : σ) : Option σ :=
  if fits s then some s
  else
    match _h : k.remove s with
    | none => none
    | some s' => shrink s'
termination_by k.size s
decreasing_by exact k.size_lt ‹_›

variable {k fits} {s s' : σ}

theorem shrink_of_fits (h : fits s) : k.shrink fits s = some s := by
  rw [shrink, if_pos h]

theorem shrink_of_remove (h : ¬fits s) (hs : k.remove s = some s') : k.shrink fits s = k.shrink fits s' := by
  rw [shrink, if_neg h]
  split
  · next hnone => rw [hnone] at hs; cases hs
  · next hsome => rw [hsome] at hs; cases hs; rfl

theorem shrink_of_empty (h : ¬fits s) (hs : k.remove s = none) : k.shrink fits s = none := by
  rw [shrink, if_neg h]
  split
  · rfl
  · next hsome => rw [hsome] at hs; cases hs

/-- The states after `0, 1, …, total` removals; the last one has nothing to give up. -/
structure Removals (k : Shrinking σ) (state : ℕ → σ) (total : ℕ) : Prop where
  next : ∀ n < total, k.remove (state n) = some (state (n + 1))
  last : k.remove (state total) = none

variable {state : ℕ → σ} {total : ℕ}

/-- From the `n`-th state: the first one that fits, or none of them does. -/
theorem Removals.shrink_from (h : Removals k state total) {n : ℕ} (hn : n ≤ total) :
    (∃ m, n ≤ m ∧ m ≤ total ∧ fits (state m) ∧ (∀ i, n ≤ i → i < m → ¬fits (state i)) ∧
      k.shrink fits (state n) = some (state m)) ∨
    ((∀ m, n ≤ m → m ≤ total → ¬fits (state m)) ∧ k.shrink fits (state n) = none) := by
  induction hd : total - n generalizing n with
  | zero =>
    obtain rfl : n = total := by omega
    by_cases hfits : fits (state n)
    · exact .inl ⟨n, le_rfl, le_rfl, hfits, fun i hi hlt => by omega, shrink_of_fits hfits⟩
    · refine .inr ⟨fun m hm hle => ?_, shrink_of_empty hfits h.last⟩
      rwa [Nat.le_antisymm hle hm]
  | succ d ih =>
    by_cases hfits : fits (state n)
    · exact .inl ⟨n, le_rfl, hn, hfits, fun i hi hlt => by omega, shrink_of_fits hfits⟩
    · rw [shrink_of_remove hfits (h.next n (by omega))]
      have hfirst : ∀ i, n ≤ i → ¬n + 1 ≤ i → ¬fits (state i) := by
        intro i hi hlt
        rwa [show i = n by omega]
      rcases ih (n := n + 1) (by omega) (by omega) with ⟨m, hnm, hm, hfm, hbefore, heq⟩ | ⟨hnone, heq⟩
      · refine .inl ⟨m, by omega, hm, hfm, fun i hi hlt => ?_, heq⟩
        by_cases hni : n + 1 ≤ i
        · exact hbefore i hni hlt
        · exact hfirst i hi hni
      · refine .inr ⟨fun m hm hle => ?_, heq⟩
        by_cases hnm : n + 1 ≤ m
        · exact hnone m hnm hle
        · exact hfirst m hm hnm

theorem Removals.shrink_some (h : Removals k state total) (hs : k.shrink fits (state 0) = some s) :
    ∃ n ≤ total, s = state n ∧ fits (state n) ∧ ∀ m < n, ¬fits (state m) := by
  rcases @Removals.shrink_from _ k fits _ _ h 0 (Nat.zero_le _) with ⟨m, -, hm, hfits, hbefore, heq⟩ | ⟨-, heq⟩
  · rw [hs, Option.some.injEq] at heq
    exact ⟨m, hm, heq, hfits, fun i hi => hbefore i (Nat.zero_le _) hi⟩
  · rw [hs] at heq
    cases heq

theorem Removals.shrink_none (h : Removals k state total) (hs : k.shrink fits (state 0) = none) :
    ¬fits (state total) := by
  rcases @Removals.shrink_from _ k fits _ _ h 0 (Nat.zero_le _) with ⟨m, -, -, -, -, heq⟩ | ⟨hnone, -⟩
  · rw [hs] at heq
    cases heq
  · exact hnone total (Nat.zero_le _) le_rfl

end Shrinking
end Winsmux
