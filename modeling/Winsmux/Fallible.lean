import Mathlib.Tactic

/-!
# Fallible computations

Computations that give a value or end with an error: what a chain of them gives, the checks they are made
of, and the errors they can end with.
-/
namespace Winsmux
variable {ε α β : Type}

theorem bind_eq_ok {x : Except ε α} {f : α → Except ε β} {b : β} :
    (x >>= f) = .ok b ↔ ∃ a, x = .ok a ∧ f a = .ok b := by
  cases x with
  | error e => simp [bind, Except.bind]
  | ok a => simp [bind, Except.bind]

/-- Going on behind a check. -/
theorem check_bind_eq_ok {x : Except ε Unit} {f : Unit → Except ε β} {b : β} :
    (x >>= f) = .ok b ↔ x = .ok () ∧ f () = .ok b := by
  rw [bind_eq_ok]
  constructor
  · rintro ⟨⟨⟩, hx, hf⟩
    exact ⟨hx, hf⟩
  · rintro ⟨hx, hf⟩
    exact ⟨(), hx, hf⟩

@[simp] theorem ok_bind (a : α) (f : α → Except ε β) : (Except.ok a >>= f) = f a := rfl

@[simp] theorem error_bind (e : ε) (f : α → Except ε β) :
    ((Except.error e : Except ε α) >>= f) = .error e := rfl

/-- `Option::ok_or_else` -/
def okOr (x : Option α) (e : ε) : Except ε α :=
  match x with
  | some a => .ok a
  | none => .error e

/-- A check that ends with an error where the condition holds. -/
def reject (c : Prop) [Decidable c] (e : ε) : Except ε Unit := if c then .error e else .ok ()

theorem reject_eq_ok_iff {c : Prop} [Decidable c] {e : ε} : reject c e = .ok () ↔ ¬ c := by
  unfold reject
  split <;> simp_all

theorem forM_eq_ok_iff {f : α → Except ε Unit} {l : List α} : l.forM f = .ok () ↔ ∀ a ∈ l, f a = .ok () := by
  induction l with
  | nil => exact iff_of_true rfl fun a ha => absurd ha List.not_mem_nil
  | cons a l ih =>
    have hcons : (a :: l).forM f = (f a >>= fun _ => l.forM f) := rfl
    rw [hcons, check_bind_eq_ok, List.forall_mem_cons, ih]

/-- Every error that the computation ends with is one of these. -/
def ErrorsIn (p : ε → Prop) (x : Except ε α) : Prop := ∀ e, x = .error e → p e

section
variable {p : ε → Prop}

theorem errorsIn_ok (a : α) : ErrorsIn p (.ok a : Except ε α) := by
  intro e he
  cases he

theorem errorsIn_error {e : ε} (h : p e) : ErrorsIn p (.error e : Except ε α) := by
  rintro _ ⟨rfl⟩
  exact h

theorem ErrorsIn.bind {x : Except ε α} {f : α → Except ε β} (hx : ErrorsIn p x)
    (hf : ∀ a, x = .ok a → ErrorsIn p (f a)) : ErrorsIn p (x >>= f) := by
  cases x with
  | error e => exact errorsIn_error (hx e rfl)
  | ok a => exact hf a rfl

theorem errorsIn_okOr {x : Option α} {e : ε} (h : p e) : ErrorsIn p (okOr x e) := by
  cases x with
  | none => exact errorsIn_error h
  | some a => exact errorsIn_ok a

theorem errorsIn_reject {c : Prop} [Decidable c] {e : ε} (h : p e) : ErrorsIn p (reject c e) := by
  unfold reject
  split
  · exact errorsIn_error h
  · exact errorsIn_ok ()

theorem errorsIn_forM {f : α → Except ε Unit} {l : List α} (h : ∀ a ∈ l, ErrorsIn p (f a)) :
    ErrorsIn p (l.forM f) := by
  induction l with
  | nil => exact errorsIn_ok ()
  | cons a l ih =>
    obtain ⟨ha, hl⟩ := List.forall_mem_cons.1 h
    exact ha.bind fun _ _ => ih hl

end

end Winsmux
