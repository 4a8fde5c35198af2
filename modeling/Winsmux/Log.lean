import Mathlib.Data.List.Induction

/-!
# Append-only logs

A log is `Orderly` when each of its entries stands where the entries before it
allow; `holder` reads off a log of grants and endings who holds the lease at its end.
-/
namespace Winsmux.Log
variable {α κ : Type*}

/-- Each entry stands in the relation to what was written before it. -/
def Orderly (P : List α → α → Prop) (log : List α) : Prop :=
  ∀ pre x post, log = pre ++ x :: post → P pre x

theorem orderly_nil (P : List α → α → Prop) : Orderly P [] := by
  intro pre x post h
  simp at h

theorem orderly_concat {P : List α → α → Prop} {log : List α} {x : α} :
    Orderly P (log ++ [x]) ↔ Orderly P log ∧ P log x := by
  constructor
  · intro h
    refine ⟨fun pre y post e => h pre y (post ++ [x]) (by simp [e]), h log x [] rfl⟩
  · rintro ⟨h, hx⟩ pre y post e
    rcases List.eq_nil_or_concat post with rfl | ⟨post, z, rfl⟩
    · obtain ⟨rfl, e⟩ := List.append_inj' e rfl
      obtain rfl : x = y := by simpa using e
      exact hx
    · have e' : log ++ [x] = (pre ++ y :: post) ++ [z] := by simpa using e
      exact h pre y post (List.append_inj' e' rfl).1

section Holder
variable (grants : α → Option κ) (ends : α → κ → Bool)

/-- The holder after one more entry. -/
def holderStep (h : Option κ) (x : α) : Option κ :=
  match grants x with
  | some k => some k
  | none => h.filter fun k => ! ends x k

/-- Who holds the lease at the end of the log. -/
def holder (log : List α) : Option κ := log.foldl (holderStep grants ends) none

variable {grants ends}

theorem holder_concat (log : List α) (x : α) :
    holder grants ends (log ++ [x]) = holderStep grants ends (holder grants ends log) x := by
  simp [holder]

theorem holder_concat_grant {log : List α} {x : α} {k : κ} (h : grants x = some k) :
    holder grants ends (log ++ [x]) = some k := by
  simp [holder_concat, holderStep, h]

/-- An entry that neither grants nor ends the lease leaves its holder. -/
theorem holder_concat_other {log : List α} {x : α} {k : κ} (h : holder grants ends log = some k)
    (hg : grants x = none) (he : ends x k = false) : holder grants ends (log ++ [x]) = some k := by
  simp [holder_concat, holderStep, h, hg, he]

/-- Behind a holder there is its grant, and since then no other grant and no end. -/
theorem grant_of_holder {log : List α} {k : κ} (h : holder grants ends log = some k) :
    ∃ pre g post, log = pre ++ g :: post ∧ grants g = some k ∧
      ∀ x ∈ post, grants x = none ∧ ends x k = false := by
  induction log using List.reverseRecOn with
  | nil => simp [holder] at h
  | append_singleton log x ih =>
    rw [holder_concat, holderStep] at h
    cases hg : grants x with
    | some k' =>
      obtain rfl : k' = k := by simpa [hg] using h
      exact ⟨log, x, [], rfl, hg, by simp⟩
    | none =>
      rw [hg] at h
      obtain ⟨h, he⟩ := Option.filter_eq_some_iff.mp h
      obtain ⟨pre, g, post, rfl, hgk, hpost⟩ := ih h
      refine ⟨pre, g, post ++ [x], by simp, hgk, fun y hy => ?_⟩
      rcases List.mem_append.mp hy with hy | hy
      · exact hpost y hy
      · obtain rfl : y = x := by simpa using hy
        exact ⟨hg, by simpa using he⟩

end Holder
end Winsmux.Log
