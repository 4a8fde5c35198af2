import Mathlib.Tactic

/-!
# Relations between computations

One program text can be run with different effects. A relation between the computations
of two monads that `pure` and `bind` keep holds between the two readings of every program
written with them, so that it need only be checked for the effects.
-/
namespace Winsmux

/-- A relation between computations with results of one type, kept by `pure` and `bind`. -/
structure MonadRelation (m n : Type → Type) [Monad m] [Monad n] where
  Rel {α : Type} : m α → n α → Prop
  rel_pure {α : Type} (a : α) : Rel (pure a) (pure a)
  rel_bind {α β : Type} {x : m α} {y : n α} {f : α → m β} {g : α → n β} :
    Rel x y → (∀ a, Rel (f a) (g a)) → Rel (x >>= f) (y >>= g)

namespace MonadRelation

variable {m n : Type → Type} [Monad m] [Monad n] (R : MonadRelation m n) {α β : Type}

theorem rel_ite {p : Prop} [Decidable p] {x x' : m α} {y y' : n α} (h : p → R.Rel x y)
    (h' : ¬p → R.Rel x' y') : R.Rel (if p then x else x') (if p then y else y') := by
  split
  · exact h ‹p›
  · exact h' ‹¬p›

theorem rel_map [LawfulMonad m] [LawfulMonad n] {x : m α} {y : n α} (f : α → β) (h : R.Rel x y) :
    R.Rel (f <$> x) (f <$> y) := by
  rw [← bind_pure_comp, ← bind_pure_comp]
  exact R.rel_bind h fun a => R.rel_pure (f a)

theorem rel_mapM [LawfulMonad m] [LawfulMonad n] {f : α → m β} {g : α → n β} :
    ∀ {as : List α}, (∀ a ∈ as, R.Rel (f a) (g a)) → R.Rel (as.mapM f) (as.mapM g)
  | [], _ => by
    rw [List.mapM_nil, List.mapM_nil]
    exact R.rel_pure []
  | a :: as, h => by
    have hrest := rel_mapM fun b hb => h b (List.mem_cons_of_mem a hb)
    rw [List.mapM_cons, List.mapM_cons]
    exact R.rel_bind (h a List.mem_cons_self) fun b => R.rel_bind hrest fun bs => R.rel_pure (b :: bs)

/-- Two choices that are both made or both left out. -/
theorem rel_getD {x : Option (m α)} {y : Option (n α)} {x' : m α} {y' : n α}
    (h : Option.Rel R.Rel x y) (h' : R.Rel x' y') : R.Rel (x.getD x') (y.getD y') := by
  cases h with
  | some h => exact h
  | none => exact h'

theorem rel_or {x x' : Option (m α)} {y y' : Option (n α)} (h : Option.Rel R.Rel x y)
    (h' : Option.Rel R.Rel x' y') : Option.Rel R.Rel (x.or x') (y.or y') := by
  cases h with
  | some h => exact .some h
  | none => exact h'

end MonadRelation
end Winsmux
