import Winsmux.CopyMode.Search

/-!
# Stepping through the matches

`search_next` and `search_prev` walk round the kept matches in the two directions: each step
leaves the cursor on a match, and as many steps as there are matches visit every one of them.
-/
namespace Winsmux.CopyMode

def searchStep (forward : Bool) (app : App) : Option App := if forward then searchNext app else searchPrev app

/-- Steps forward (`true`) and back. -/
def steps : List Bool → App → Option App
  | [], app => some app
  | forward :: moves, app => do
    let app ← searchStep forward app
    steps moves app

/-- The cursor after each of `n` steps. -/
def turn (step : App → Option App) : ℕ → App → Option (List (Option (ℕ × ℕ)))
  | 0, _ => some []
  | n + 1, app => do
    let app ← step app
    let cursors ← turn step n app
    some (app.copyPos :: cursors)

def App.at (app : App) (i : ℕ) (m : Match) : App := { app with copySearchIdx := i, copyPos := some m.cursor }

theorem goTo_of_lt {app : App} {i : ℕ} (h : i < app.copySearchMatches.length) :
    app.goTo i = some (app.at i app.copySearchMatches[i]) := by
  rw [App.goTo, List.getElem?_eq_getElem h]
  rfl

/-- The index is one of a match, or the first. -/
def App.InRange (app : App) : Prop := app.copySearchIdx < app.copySearchMatches.length ∨ app.copySearchIdx = 0

/-- A step keeps the matches, and leaves the cursor where it was or on a match. -/
structure Stepped (app app' : App) : Prop where
  matches_eq : app'.copySearchMatches = app.copySearchMatches
  inRange : app.InRange → app'.InRange
  cursor : app'.copyPos = app.copyPos ∨ ∃ m ∈ app.copySearchMatches, app'.copyPos = some m.cursor

theorem Stepped.refl (app : App) : Stepped app app := ⟨rfl, id, .inl rfl⟩

theorem Stepped.trans {a b c : App} (hab : Stepped a b) (hbc : Stepped b c) : Stepped a c where
  matches_eq := hbc.matches_eq.trans hab.matches_eq
  inRange h := hbc.inRange (hab.inRange h)
  cursor := by
    rcases hbc.cursor with hsame | hon
    · rw [hsame]
      exact hab.cursor
    · rw [hab.matches_eq] at hon
      exact .inr hon

theorem stepped_goTo {app : App} {i : ℕ} (h : i < app.copySearchMatches.length) :
    ∃ app', app.goTo i = some app' ∧ Stepped app app' :=
  ⟨_, goTo_of_lt h, rfl, fun _ => .inl h, .inr ⟨_, List.getElem_mem h, rfl⟩⟩

theorem stepped_searchNext (app : App) : ∃ app', searchNext app = some app' ∧ Stepped app app' := by
  unfold searchNext
  split
  · exact ⟨app, rfl, .refl app⟩
  · next hne =>
    have hpos : 0 < app.copySearchMatches.length := List.length_pos_iff.2 (by simpa using hne)
    dsimp only
    split_ifs with hend hwraps
    · exact ⟨app, rfl, .refl app⟩
    · exact stepped_goTo hpos
    · exact stepped_goTo (by omega)

theorem stepped_searchPrev {app : App} (hidx : app.InRange) :
    ∃ app', searchPrev app = some app' ∧ Stepped app app' := by
  unfold searchPrev
  split
  · exact ⟨app, rfl, .refl app⟩
  · next hne =>
    have hpos : 0 < app.copySearchMatches.length := List.length_pos_iff.2 (by simpa using hne)
    split_ifs with hzero hwraps
    · exact ⟨app, rfl, .refl app⟩
    · exact stepped_goTo (by omega)
    · have hlt : app.copySearchIdx < app.copySearchMatches.length := hidx.resolve_right hzero
      exact stepped_goTo (by omega)

theorem stepped_steps {app : App} (hidx : app.InRange) (moves : List Bool) :
    ∃ app', steps moves app = some app' ∧ Stepped app app' := by
  induction moves generalizing app with
  | nil => exact ⟨app, rfl, .refl app⟩
  | cons forward moves ih =>
    obtain ⟨mid, hmid, hstep⟩ : ∃ mid, searchStep forward app = some mid ∧ Stepped app mid := by
      cases forward with
      | true => exact stepped_searchNext app
      | false => exact stepped_searchPrev hidx
    obtain ⟨app', happ', hrest⟩ := ih (hstep.inRange hidx)
    exact ⟨app', by rw [steps, hmid]; exact happ', hstep.trans hrest⟩

/-- The index after a step forward among `n` matches, and after one back. -/
def nextIdx (n i : ℕ) : ℕ := if n ≤ i + 1 then 0 else i + 1

def prevIdx (n i : ℕ) : ℕ := if i = 0 then n - 1 else i - 1

theorem searchNext_of_wraps {app : App} (hwraps : app.wraps) (hidx : app.copySearchIdx < app.copySearchMatches.length) :
    searchNext app = app.goTo (nextIdx app.copySearchMatches.length app.copySearchIdx) := by
  have hne : app.copySearchMatches.isEmpty = false := by
    rw [List.isEmpty_eq_false_iff_exists_mem]
    exact ⟨_, List.getElem_mem hidx⟩
  simp only [searchNext, nextIdx, hne, hwraps, Bool.false_eq_true, if_false, Bool.not_true]
  split <;> rfl

theorem searchPrev_of_wraps {app : App} (hwraps : app.wraps) (hidx : app.copySearchIdx < app.copySearchMatches.length) :
    searchPrev app = app.goTo (prevIdx app.copySearchMatches.length app.copySearchIdx) := by
  have hne : app.copySearchMatches.isEmpty = false := by
    rw [List.isEmpty_eq_false_iff_exists_mem]
    exact ⟨_, List.getElem_mem hidx⟩
  simp only [searchPrev, prevIdx, hne, hwraps, Bool.false_eq_true, if_false, Bool.not_true]
  split <;> rfl

/-- Steps that move the index by `f` visit the matches that `f` leads to. -/
theorem turn_eq {step : App → Option App} {f : ℕ → ℕ → ℕ} (hf : ∀ n i, i < n → f n i < n)
    (hstep : ∀ app : App, app.wraps → app.copySearchIdx < app.copySearchMatches.length →
      step app = app.goTo (f app.copySearchMatches.length app.copySearchIdx))
    {app : App} (hwraps : app.wraps) (hidx : app.copySearchIdx < app.copySearchMatches.length) (k : ℕ) :
    turn step k app = some ((List.range k).map fun j =>
      app.copySearchMatches[(f app.copySearchMatches.length)^[j + 1] app.copySearchIdx]?.map Match.cursor) := by
  induction k generalizing app with
  | zero => rfl
  | succ k ih =>
    have hnext := hf _ _ hidx
    rw [turn, hstep app hwraps hidx, goTo_of_lt hnext, List.range_succ_eq_map, List.map_cons, List.map_map]
    have hrest := @ih (app.at _ app.copySearchMatches[f app.copySearchMatches.length app.copySearchIdx]) hwraps hnext
    simp only [Option.bind_eq_bind, Option.bind_some, hrest]
    simp [App.at, Function.comp_def, hnext]

/-- A walk that comes to every index once, in `n` steps, passes every match once. -/
theorem turn_perm {step : App → Option App} {f : ℕ → ℕ → ℕ} (hf : ∀ n i, i < n → f n i < n)
    (hstep : ∀ app : App, app.wraps → app.copySearchIdx < app.copySearchMatches.length →
      step app = app.goTo (f app.copySearchMatches.length app.copySearchIdx))
    (hround : ∀ n i, i < n → ((List.range n).map fun j => (f n)^[j + 1] i).Perm (List.range n))
    {app : App} (hwraps : app.wraps) (hidx : app.copySearchIdx < app.copySearchMatches.length) :
    ∃ cursors, turn step app.copySearchMatches.length app = some cursors ∧
      cursors.Perm (app.copySearchMatches.map fun m => some m.cursor) := by
  refine ⟨_, turn_eq hf hstep hwraps hidx _, ?_⟩
  have hall : app.copySearchMatches.map (fun m => some m.cursor) =
      (List.range app.copySearchMatches.length).map fun x => app.copySearchMatches[x]?.map Match.cursor := by
    refine List.ext_getElem (by simp) fun x hx hx' => ?_
    have hlt : x < app.copySearchMatches.length := by simpa using hx
    simp [hlt]
  rw [hall]
  have hperm := (hround _ _ hidx).map fun x => app.copySearchMatches[x]?.map Match.cursor
  rwa [List.map_map] at hperm

theorem nextIdx_lt (n i : ℕ) (h : i < n) : nextIdx n i < n := by
  unfold nextIdx
  split <;> omega

theorem prevIdx_lt (n i : ℕ) (h : i < n) : prevIdx n i < n := by
  unfold prevIdx
  split <;> omega

theorem iterate_nextIdx {n i : ℕ} (h : i < n) {j : ℕ} (hj : j ≤ n) :
    (nextIdx n)^[j] i = if i + j < n then i + j else i + j - n := by
  induction j with
  | zero => simp [h]
  | succ j ih =>
    rw [Function.iterate_succ_apply', ih (by omega), nextIdx]
    split_ifs <;> omega

theorem iterate_prevIdx {n i : ℕ} (h : i < n) {j : ℕ} (hj : j ≤ n) :
    (prevIdx n)^[j] i = if j ≤ i then i - j else i + n - j := by
  induction j with
  | zero => simp
  | succ j ih =>
    rw [Function.iterate_succ_apply', ih (by omega), prevIdx]
    split_ifs <;> omega

/-- Numbers below `n` that a rule and its inverse `g` take to each other. -/
theorem perm_range {n : ℕ} {f : ℕ → ℕ} (g : ℕ → ℕ) (hf : ∀ j < n, f j < n) (hg : ∀ x < n, g x < n)
    (hfg : ∀ x < n, f (g x) = x) (hgf : ∀ j < n, g (f j) = j) : ((List.range n).map f).Perm (List.range n) := by
  have hnodup : ((List.range n).map f).Nodup := by
    refine List.nodup_range.map_on fun i hi j hj hij => ?_
    rw [← hgf i (List.mem_range.1 hi), hij, hgf j (List.mem_range.1 hj)]
  refine (List.perm_ext_iff_of_nodup hnodup List.nodup_range).2 fun x => ?_
  rw [List.mem_map, List.mem_range]
  constructor
  · rintro ⟨j, hj, rfl⟩
    exact hf j (List.mem_range.1 hj)
  · exact fun hx => ⟨g x, List.mem_range.2 (hg x hx), hfg x hx⟩

theorem round_nextIdx (n i : ℕ) (h : i < n) :
    ((List.range n).map fun j => (nextIdx n)^[j + 1] i).Perm (List.range n) := by
  rw [List.map_congr_left fun j hj => iterate_nextIdx h (List.mem_range.1 hj)]
  refine perm_range (fun x => if i < x then x - i - 1 else n + x - i - 1) ?_ ?_ ?_ ?_ <;> intro x hx
  · split_ifs <;> omega
  · split_ifs <;> omega
  · split_ifs <;> omega
  · split_ifs <;> omega

theorem round_prevIdx (n i : ℕ) (h : i < n) :
    ((List.range n).map fun j => (prevIdx n)^[j + 1] i).Perm (List.range n) := by
  rw [List.map_congr_left fun j hj => iterate_prevIdx h (List.mem_range.1 hj)]
  refine perm_range (fun x => if x < i then i - x - 1 else i + n - x - 1) ?_ ?_ ?_ ?_ <;> intro x hx
  · split_ifs <;> omega
  · split_ifs <;> omega
  · split_ifs <;> omega
  · split_ifs <;> omega

end Winsmux.CopyMode
