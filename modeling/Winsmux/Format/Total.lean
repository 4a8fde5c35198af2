import Winsmux.Format.Readings
import Winsmux.Format.Sound

/-!
# When an expansion returns

The same engine run with effects that go on where the code stops, and write down why. Apart
from the modifiers `E` and `T` every call is about a shorter text, so that this run ends by
itself once a bound is put on how deep those two are nested. The code returns if for some
bound nothing is written down, and then with the same text.
-/
namespace Winsmux.Format
open CharText

/-- The position of the pane, and the reasons to stop that were met. -/
abbrev Logged := StateM (Option ℕ × List Stop)

def logging : Effects Logged where
  stop s a := do
    modify fun t => (t.1, t.2 ++ [s])
    pure a
  target := do
    let t ← get
    pure t.1
  atPane pos x := do
    modify fun t => (some pos, t.2)
    let a ← x
    modify fun t => (none, t.2)
    pure a

theorem logging_atPane {α : Type} (pos : ℕ) (x : Logged α) (s : Option ℕ) (log : List Stop) :
    (logging.atPane pos x).run (s, log) =
      ((x.run (some pos, log)).1, (none, (x.run (some pos, log)).2.2)) := rfl

/-- A run that returns is one in which nothing is written down. -/
def returning : MonadRelation Run Logged where
  Rel x y := ∀ s v s' log, x.run s = .ok (v, s') → y.run (s, log) = (v, (s', log))
  rel_pure a s v s' log h := by
    cases h
    rfl
  rel_bind {α β x y f g} hx hf s v s' log h := by
    obtain ⟨a, t, ha, hb⟩ := run_bind_eq_ok.1 h
    rw [StateT.run_bind, hx s a t log ha]
    exact hf a t v s' log hb

theorem stopping_returning : Stopping returning running logging where
  stop s a t v t' log h := by cases h

variable (outside : Outside) (app : App)

theorem related_returning : Related returning running logging outside app where
  toStopping := stopping_returning
  var := stopping_returning.expandVar outside app fun s v s' log h => by
    cases h
    rfl
  atPane {α} pos {x y} h s v s' log hx := by
    obtain ⟨rfl, t, ht⟩ := running_atPane_eq_ok.1 hx
    rw [logging_atPane, h (some pos) v t log ht]

/-- As many nested calls leave `E` and `T` nested less deep, and the parts of a text are
shorter than the text. -/
theorem returning_expandParts {n : ℕ} {d k : ℕ} {fmt : Chars} (winIdx : ℕ) (hd : n ≤ d) (hk : fmt.length < k) :
    returning.Rel (expandFormatForWindow running outside app n fmt winIdx)
      (expandParts logging outside app (expandNested logging outside app d) k fmt winIdx) := by
  induction n generalizing d k fmt winIdx with
  | zero => exact fun s v s' log h => by cases h
  | succ n ih =>
    obtain ⟨d, rfl⟩ := Nat.exists_eq_add_one_of_ne_zero (Nat.ne_of_gt (Nat.lt_of_lt_of_le n.succ_pos hd))
    obtain ⟨k, rfl⟩ := Nat.exists_eq_add_one_of_ne_zero (Nat.ne_of_gt (Nat.zero_lt_of_lt hk))
    refine (related_returning outside app).expandText (fun s w hs => ?_) (fun s w => ?_) winIdx
    · exact ih w (by omega) (by omega)
    · exact ih w (by omega) (Nat.lt_succ_self _)

/-- Runs for every number of nested calls. -/
abbrev Fueled := ReaderT ℕ Run

def fueled : Effects Fueled where
  stop s a := fun _ => running.stop s a
  target := fun _ => running.target
  atPane pos x := fun n => running.atPane pos (x.run n)

/-- The run for one number of nested calls. -/
def atFuel (n : ℕ) : MonadRelation Fueled Run where
  Rel x y := x.run n = y
  rel_pure _ := rfl
  rel_bind {α β x y f g} hx hf := by
    subst hx
    exact congrArg (x.run n >>= ·) (funext hf)

theorem stopping_atFuel (n : ℕ) : Stopping (atFuel n) fueled running where
  stop _ _ := rfl

theorem related_atFuel (n : ℕ) : Related (atFuel n) fueled running outside app where
  toStopping := stopping_atFuel n
  var := (stopping_atFuel n).expandVar outside app rfl
  atPane pos _ _ h := congrArg (running.atPane pos) h

/-- A run that writes nothing down is one that returns, once enough calls may be nested. -/
def eventually : MonadRelation Fueled Logged where
  Rel x y := ∀ s log, ∃ v s' more, y.run (s, log) = (v, (s', log ++ more)) ∧
    (more = [] → ∃ N, ∀ n, N ≤ n → (x.run n).run s = .ok (v, s'))
  rel_pure a s log := ⟨a, s, [], by rw [List.append_nil]; rfl, fun _ => ⟨0, fun _ _ => rfl⟩⟩
  rel_bind {α β x y f g} hx hf s log := by
    obtain ⟨a, t, first, hy, hfirst⟩ := hx s log
    obtain ⟨b, s', second, hg, hsecond⟩ := hf a t (log ++ first)
    refine ⟨b, s', first ++ second, ?_, fun hmore => ?_⟩
    · rw [StateT.run_bind, hy, ← List.append_assoc]
      exact hg
    · obtain ⟨hfirst', hsecond'⟩ := List.append_eq_nil_iff.1 hmore
      obtain ⟨N, hN⟩ := hfirst hfirst'
      obtain ⟨N', hN'⟩ := hsecond hsecond'
      refine ⟨max N N', fun n hn => ?_⟩
      rw [ReaderT.run_bind]
      exact (run_bind_ok (hN n (by omega))).trans (hN' n (by omega))

theorem stopping_eventually : Stopping eventually fueled logging where
  stop s a t log := ⟨a, t, [s], rfl, fun h => by cases h⟩

theorem related_eventually : Related eventually fueled logging outside app where
  toStopping := stopping_eventually
  var := stopping_eventually.expandVar outside app fun s log =>
    ⟨s, s, [], by rw [List.append_nil]; rfl, fun _ => ⟨0, fun _ _ => rfl⟩⟩
  atPane {α} pos {x y} h s log := by
    obtain ⟨v, t, more, hy, hmore⟩ := h (some pos) log
    refine ⟨v, none, more, ?_, fun hnil => ?_⟩
    · rw [logging_atPane, hy]
    · obtain ⟨N, hN⟩ := hmore hnil
      exact ⟨N, fun n hn => running_atPane_eq_ok.2 ⟨rfl, t, hN n hn⟩⟩

/-- One call more may be nested than those inside of it. -/
theorem eventually_succ {x : ℕ → Run Chars} {x' : Fueled Chars} {y : Logged Chars} (h : eventually.Rel x' y)
    (hx : ∀ n, x'.run n = x (n + 1)) : eventually.Rel (α := Chars) x y := by
  intro s log
  obtain ⟨v, s', more, hy, hmore⟩ := h s log
  refine ⟨v, s', more, hy, fun hnil => ?_⟩
  obtain ⟨N, hN⟩ := hmore hnil
  refine ⟨N + 1, fun n hn => ?_⟩
  obtain ⟨n, rfl⟩ := Nat.exists_eq_add_one_of_ne_zero (Nat.ne_of_gt (Nat.zero_lt_of_lt hn))
  have hrun := hN n (by omega)
  rwa [hx] at hrun

theorem eventually_expandParts {again : Chars → ℕ → Logged Chars}
    (hagain : ∀ s w, eventually.Rel (α := Chars) (fun n => expandFormatForWindow running outside app n s w) (again s w))
    (k : ℕ) (fmt : Chars) (winIdx : ℕ) :
    eventually.Rel (α := Chars) (fun n => expandFormatForWindow running outside app n fmt winIdx)
      (expandParts logging outside app again k fmt winIdx) := by
  induction k generalizing fmt winIdx with
  | zero => exact fun s log => ⟨[], s, [.depth], rfl, fun h => by cases h⟩
  | succ k ih =>
    refine eventually_succ ((related_eventually outside app).expandText (fun s w _ => ih s w) hagain winIdx)
      fun n => ?_
    exact (related_atFuel outside app n).expandText (fun s w _ => rfl) (fun s w => rfl) winIdx

theorem eventually_expandNested (d : ℕ) (fmt : Chars) (winIdx : ℕ) :
    eventually.Rel (α := Chars) (fun n => expandFormatForWindow running outside app n fmt winIdx)
      (expandNested logging outside app d fmt winIdx) := by
  induction d generalizing fmt winIdx with
  | zero => exact fun s log => ⟨[], s, [.depth], rfl, fun h => by cases h⟩
  | succ d ih => exact eventually_expandParts outside app ih (fmt.length + 1) fmt winIdx

/-- The texts that a format expands to are those of the other run where it writes nothing
down. -/
theorem expandsTo_iff {fmt : Chars} {winIdx : ℕ} {override : Option ℕ} {v : Chars} {after : Option ℕ} :
    ExpandsTo outside app fmt winIdx override v after ↔
      ∃ d, (expandNested logging outside app d fmt winIdx).run (override, []) = (v, (after, [])) := by
  refine ⟨fun ⟨n, hn⟩ => ⟨n + 1, ?_⟩, fun ⟨d, hd⟩ => ?_⟩
  · exact returning_expandParts outside app winIdx le_rfl (Nat.lt_succ_self _) override v after [] hn
  · obtain ⟨v', s', more, hy, hmore⟩ := eventually_expandNested outside app d fmt winIdx override []
    rw [hd] at hy
    cases hy
    obtain ⟨N, hN⟩ := hmore rfl
    exact ⟨N, hN N le_rfl⟩

end Winsmux.Format
