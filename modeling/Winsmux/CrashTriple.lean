import Mathlib.Tactic

/-!
# Programs over a medium that may fail

A program asks operations of a medium, one after another. What each of them meets is
decided outside: it goes through, it fails, or the process stops before it. A triple says
what holds of the medium when the program returns, when it fails and when it is cut short.
-/
namespace Winsmux.Crash

/-- What an operation meets. -/
inductive Fault where
  | none
  | fail
  | stop
  deriving DecidableEq

/-- How a program ends. -/
inductive Ending (ε α : Type) where
  | returned (a : α)
  | failed (e : ε)
  | stopped
  deriving DecidableEq

/-- The medium, and how many operations were asked of it. -/
structure World (σ : Type) where
  medium : σ
  taken : ℕ

/-- What the operation asked for in each place meets. -/
abbrev Faults (ω : Type) := ℕ → ω → Fault

/-- No operation fails and the process runs to its end. -/
def faultless {ω : Type} : Faults ω := fun _ _ => .none

def Program (ω σ ε α : Type) := Faults ω → World σ → Ending ε α × World σ

section Programs
variable {ω σ ε α β : Type}

def Program.andThen (m : Program ω σ ε α) (f : α → Program ω σ ε β) : Program ω σ ε β :=
  fun faults w =>
    match m faults w with
    | (.returned a, w') => f a faults w'
    | (.failed e, w') => (.failed e, w')
    | (.stopped, w') => (.stopped, w')

instance : Monad (Program ω σ ε) where
  pure a := fun _ w => (.returned a, w)
  bind := Program.andThen

def refuse (e : ε) : Program ω σ ε α := fun _ w => (.failed e, w)

/-- What a program that fails goes on with. -/
def Program.catching (m : Program ω σ ε α) (handler : ε → Program ω σ ε α) :
    Program ω σ ε α :=
  fun faults w =>
    match m faults w with
    | (.returned a, w') => (.returned a, w')
    | (.failed e, w') => handler e faults w'
    | (.stopped, w') => (.stopped, w')

/-- An operation. One that fails, by a fault or by itself, leaves the medium as it was. -/
def attempt (o : ω) (act : σ → Option (α × σ)) : Program ω σ ε (Option α) := fun faults w =>
  match faults w.taken o, act w.medium with
  | .stop, _ => (.stopped, ⟨w.medium, w.taken + 1⟩)
  | .fail, _ | .none, none => (.returned none, ⟨w.medium, w.taken + 1⟩)
  | .none, some (a, d) => (.returned (some a), ⟨d, w.taken + 1⟩)

def orRefuse (e : ε) : Option α → Program ω σ ε α
  | some a => pure a
  | none => refuse e

/-- A run on a medium. -/
def Program.on (m : Program ω σ ε α) (faults : Faults ω) (d : σ) : Ending ε α × σ :=
  ((m faults ⟨d, 0⟩).1, (m faults ⟨d, 0⟩).2.medium)

/-- The medium a program leaves, for each of its endings. -/
structure Post (ε α σ : Type) where
  returned : α → σ → Prop
  failed : ε → σ → Prop
  stopped : σ → Prop

def Post.holds (post : Post ε α σ) : Ending ε α → σ → Prop
  | .returned a, d => post.returned a d
  | .failed e, d => post.failed e d
  | .stopped, d => post.stopped d

/-- Wherever the precondition holds, the program leaves what its ending promises. -/
def Leaves (faults : Faults ω) (pre : σ → Prop) (m : Program ω σ ε α) (post : Post ε α σ) :
    Prop :=
  ∀ w : World σ, pre w.medium → post.holds (m faults w).1 (m faults w).2.medium

variable {faults : Faults ω} {pre : σ → Prop}

theorem Leaves.on {m : Program ω σ ε α} {post : Post ε α σ} (h : Leaves faults pre m post)
    {d : σ} (hd : pre d) : post.holds (m.on faults d).1 (m.on faults d).2 := h ⟨d, 0⟩ hd

theorem leaves_pure {a : α} {post : Post ε α σ} (h : ∀ d, pre d → post.returned a d) :
    Leaves faults pre (pure a) post := fun w hw => h w.medium hw

theorem leaves_refuse {e : ε} {post : Post ε α σ} (h : ∀ d, pre d → post.failed e d) :
    Leaves faults pre (refuse e) post := fun w hw => h w.medium hw

theorem Leaves.bind {m : Program ω σ ε α} {f : α → Program ω σ ε β} {post : Post ε β σ}
    (mid : α → σ → Prop) (hm : Leaves faults pre m ⟨mid, post.failed, post.stopped⟩)
    (hf : ∀ a, Leaves faults (mid a) (f a) post) : Leaves faults pre (m >>= f) post := by
  intro w hw
  have h := hm w hw
  show post.holds (Program.andThen m f faults w).1 (Program.andThen m f faults w).2.medium
  unfold Program.andThen
  rcases hrun : m faults w with ⟨_ | _ | _, w'⟩ <;> rw [hrun] at h
  · exact hf _ w' h
  · exact h
  · exact h

theorem Leaves.catching {m : Program ω σ ε α} {handler : ε → Program ω σ ε α}
    {post : Post ε α σ} (mid : ε → σ → Prop)
    (hm : Leaves faults pre m ⟨post.returned, mid, post.stopped⟩)
    (hhandler : ∀ e, Leaves faults (mid e) (handler e) post) :
    Leaves faults pre (m.catching handler) post := by
  intro w hw
  have h := hm w hw
  unfold Program.catching
  rcases hrun : m faults w with ⟨_ | _ | _, w'⟩ <;> rw [hrun] at h
  · exact h
  · exact hhandler _ w' h
  · exact h

theorem leaves_attempt {o : ω} {act : σ → Option (α × σ)} {post : Post ε (Option α) σ}
    (hdone : ∀ d a d', pre d → act d = some (a, d') → post.returned (some a) d')
    (hfail : ∀ d, pre d → (∃ n, faults n o = .fail) ∨ act d = none → post.returned none d)
    (hstop : ∀ d, pre d → (∃ n, faults n o = .stop) → post.stopped d) :
    Leaves faults pre (attempt o act) post := by
  intro w hw
  unfold attempt
  cases hfault : faults w.taken o with
  | stop => exact hstop _ hw ⟨_, hfault⟩
  | fail => exact hfail _ hw (.inl ⟨_, hfault⟩)
  | none =>
    rcases hact : act w.medium with _ | ⟨a, d⟩
    · exact hfail _ hw (.inr hact)
    · exact hdone _ a d hw hact

theorem leaves_orRefuse {e : ε} {o : Option α} {post : Post ε α σ}
    (hsome : ∀ a, o = some a → ∀ d, pre d → post.returned a d)
    (hnone : o = none → ∀ d, pre d → post.failed e d) :
    Leaves faults pre (orRefuse e o) post := by
  cases o with
  | some a => exact leaves_pure (hsome a rfl)
  | none => exact leaves_refuse (hnone rfl)

theorem Leaves.weaken {m : Program ω σ ε α} {pre' : σ → Prop} {post post' : Post ε α σ}
    (h : Leaves faults pre m post) (hpre : ∀ d, pre' d → pre d)
    (hpost : ∀ ending d, post.holds ending d → post'.holds ending d) :
    Leaves faults pre' m post' := fun w hw => hpost _ _ (h w (hpre _ hw))

/-- A fact that does not speak of the medium may be drawn out of the precondition. -/
theorem leaves_and {p : Prop} {m : Program ω σ ε α} {post : Post ε α σ}
    (h : p → Leaves faults pre m post) : Leaves faults (fun d => p ∧ pre d) m post :=
  fun w hw => h hw.1 w hw.2

end Programs

end Winsmux.Crash
