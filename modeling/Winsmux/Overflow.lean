import Mathlib.Tactic

/-!
# Fixed-width arithmetic

Unsigned results of 16 and of 32 bits. What a result that does not fit becomes is left to
the build: it wraps around, or it stops the program. A computation none of whose results
is too large gives the same under each of them.
-/
namespace Winsmux

/-- What becomes of a result of 16 or of 32 bits. -/
structure Overflow (m : Type → Type) [Monad m] where
  u16 : ℕ → m ℕ
  u32 : ℕ → m ℕ
  u16_of_lt : ∀ {n}, n < 2 ^ 16 → u16 n = pure n
  u32_of_lt : ∀ {n}, n < 2 ^ 32 → u32 n = pure n

namespace Overflow

/-- Results wrap around. -/
def wrapping : Overflow Id where
  u16 n := n % 2 ^ 16
  u32 n := n % 2 ^ 32
  u16_of_lt := Nat.mod_eq_of_lt
  u32_of_lt := Nat.mod_eq_of_lt

/-- A result that does not fit stops the program. -/
def checked : Overflow Option where
  u16 n := if n < 2 ^ 16 then some n else none
  u32 n := if n < 2 ^ 32 then some n else none
  u16_of_lt h := if_pos h
  u32_of_lt h := if_pos h

variable {m : Type → Type} [Monad m] (o : Overflow m)

/-- The sum of numbers of 32 bits, from left to right. -/
def sumU32 (ns : List ℕ) : m ℕ := ns.foldlM (fun acc n => o.u32 (acc + n)) 0

theorem sumU32_of_lt [LawfulMonad m] {ns : List ℕ} (h : ns.sum < 2 ^ 32) : o.sumU32 ns = pure ns.sum := by
  have hfrom : ∀ (ns : List ℕ) (acc : ℕ), acc + ns.sum < 2 ^ 32 →
      ns.foldlM (fun acc n => o.u32 (acc + n)) acc = pure (acc + ns.sum) := by
    intro ns
    induction ns with
    | nil => exact fun acc _ => rfl
    | cons n ns ih =>
      intro acc hlt
      rw [List.sum_cons] at hlt ⊢
      rw [List.foldlM_cons, o.u32_of_lt (by omega), pure_bind, ih _ (by omega), Nat.add_assoc]
  rw [sumU32, hfrom ns 0 (by omega), Nat.zero_add]

end Overflow
end Winsmux
