import Mathlib.Data.List.Nodup
import Mathlib.Tactic

/-!
# Folds that touch one key at a time

A fold over entries with different keys, where each entry changes only what is kept under its own key:
what is kept under a key behind the fold is what its own entry makes of it. And lists that are read
key by key.
-/
namespace Winsmux.KeyedFold
variable {σ α κ β : Type*} [DecidableEq κ]

theorem view_foldl (key : α → κ) (view : σ → κ → β) {f : σ → α → σ} {g : β → α → β}
    (hself : ∀ s a, view (f s a) (key a) = g (view s (key a)) a)
    (hother : ∀ s a k, k ≠ key a → view (f s a) k = view s k) {l : List α} (hl : (l.map key).Nodup)
    (s : σ) (k : κ) :
    view (l.foldl f s) k = (l.find? (key · = k)).elim (view s k) (g (view s k)) := by
  induction l generalizing s with
  | nil => rfl
  | cons a l ih =>
    obtain ⟨ha, hl⟩ := List.nodup_cons.1 hl
    rw [List.foldl_cons, ih hl]
    by_cases hk : key a = k
    · subst hk
      have hnone : l.find? (key · = key a) = none := by
        refine List.find?_eq_none.2 fun b hb => ?_
        rw [decide_eq_true_eq]
        exact fun heq => ha (heq ▸ List.mem_map_of_mem hb)
      rw [hnone, List.find?_cons_of_pos (by simp)]
      exact hself s a
    · rw [List.find?_cons_of_neg (by simpa using hk), hother s a k (Ne.symm hk)]

/-- A symmetric relation holds between any two entries if it does under each key and between entries of
different keys. -/
theorem pairwise_of_keys (key : α → κ) {R : α → α → Prop} {l : List α}
    (hsame : ∀ k, (l.filter (key · = k)).Pairwise R)
    (hother : ∀ a ∈ l, ∀ b ∈ l, key a ≠ key b → R a b) : l.Pairwise R := by
  induction l with
  | nil => exact List.Pairwise.nil
  | cons a l ih =>
    refine List.pairwise_cons.2 ⟨fun b hb => ?_, ih (fun k => ?_) fun x hx y hy =>
      hother x (List.mem_cons_of_mem _ hx) y (List.mem_cons_of_mem _ hy)⟩
    · by_cases hk : key b = key a
      · have hpair := hsame (key a)
        rw [List.filter_cons_of_pos (by simp)] at hpair
        exact (List.pairwise_cons.1 hpair).1 b (List.mem_filter.2 ⟨hb, decide_eq_true hk⟩)
      · exact hother a List.mem_cons_self b (List.mem_cons_of_mem _ hb) (Ne.symm hk)
    · exact (hsame k).sublist ((List.sublist_cons_self a l).filter _)

end Winsmux.KeyedFold
