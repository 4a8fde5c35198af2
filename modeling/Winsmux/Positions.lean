import Mathlib.Data.List.Nodup
import Mathlib.Data.List.InsertIdx
import Mathlib.Data.List.Perm.Basic
import Mathlib.Tactic

/-!
# Bare indices into an edited list

An index kept while the list it points into is edited still designates the same entry
only for some edits. For lists of distinct entries: which indices stay right when entries
are removed by position, one is put in, one is moved, two change places.
-/
namespace Winsmux.Positions
variable {α : Type*}

/-- What stood at a position of `l` stands there in `l'`, where `l'` still has it. -/
def StaysAt (l l' : List α) (k : ℕ) : Prop := ∀ x, l[k]? = some x → x ∈ l' → l'[k]? = some x

theorem staysAt_refl (l : List α) (k : ℕ) : StaysAt l l k := fun _ h _ => h

theorem staysAt_of_le {l : List α} {k : ℕ} (h : l.length ≤ k) (l' : List α) : StaysAt l l' k := by
  intro x hx
  rw [List.getElem?_eq_none h] at hx
  contradiction

theorem staysAt_append (l more : List α) (k : ℕ) : StaysAt l (l ++ more) k := by
  intro x hx _
  rw [List.getElem?_append_left (List.getElem?_eq_some_iff.1 hx).1, hx]

/-- An entry that is left stays exactly where it is found at the same position. -/
theorem staysAt_iff {l l' : List α} {k : ℕ} {x : α} (hx : l[k]? = some x) (hmem : x ∈ l') :
    StaysAt l l' k ↔ l'[k]? = some x := by
  constructor
  · exact fun h => h x hx hmem
  · intro h y hy _
    rw [h, ← hx, hy]

theorem index_unique {l : List α} (hl : l.Nodup) {i j : ℕ} {x : α} (hi : l[i]? = some x)
    (hj : l[j]? = some x) : i = j :=
  (List.getElem?_inj (List.getElem?_eq_some_iff.1 hi).1 hl).1 (hi.trans hj.symm)

/-- The entries at positions that are not gone. -/
@[grind =] def survivors (gone : ℕ → Bool) : List α → List α
  | [] => []
  | a :: l =>
    if gone 0 then survivors (fun i => gone (i + 1)) l else a :: survivors (fun i => gone (i + 1)) l

variable {gone : ℕ → Bool} {l : List α} {k : ℕ} {x : α}

theorem survivors_sublist (gone : ℕ → Bool) (l : List α) : List.Sublist (survivors gone l) l := by
  induction l generalizing gone with
  | nil => exact List.Sublist.refl _
  | cons a l ih =>
    rw [survivors]
    split
    · exact (ih _).cons a
    · exact (ih _).cons_cons a

theorem survivors_congr {gone' : ℕ → Bool} {l : List α} (h : ∀ i < l.length, gone i = gone' i) :
    survivors gone l = survivors gone' l := by
  induction l generalizing gone gone' with
  | nil => rfl
  | cons a l ih =>
    rw [survivors, survivors, h 0 (by simp)]
    rw [ih fun i hi => h (i + 1) (by simpa using hi)]

theorem survivors_false (l : List α) : survivors (fun _ => false) l = l := by
  induction l with
  | nil => rfl
  | cons a l ih => rw [survivors, if_neg Bool.false_ne_true, ih]

theorem survivors_of_none (h : ∀ i, gone i = false) (l : List α) : survivors gone l = l := by
  rw [show gone = fun _ => false from funext h, survivors_false]

theorem survivors_eraseIdx (i : ℕ) (l : List α) :
    survivors (fun j => decide (j = i)) l = l.eraseIdx i := by
  induction l generalizing i with
  | nil => rfl
  | cons a l ih =>
    rw [survivors]
    cases i with
    | zero =>
      rw [if_pos (by simp), List.eraseIdx_cons_zero]
      simpa using survivors_false l
    | succ i =>
      rw [if_neg (by simp), List.eraseIdx_cons_succ, ← ih i]
      simp

/-- At most one position gone. -/
theorem survivors_of_one {i : ℕ} {b : Bool} (h : ∀ j, gone j = (decide (j = i) && b)) (l : List α) :
    survivors gone l = if b then l.eraseIdx i else l := by
  cases b with
  | false => exact survivors_of_none (fun j => (h j).trans (Bool.and_false _)) l
  | true =>
    rw [if_pos rfl, ← survivors_eraseIdx]
    exact survivors_congr fun j _ => (h j).trans (Bool.and_true _)

/-- The entries from a position on, the first one apart. -/
theorem survivors_drop (gone : ℕ → Bool) {l : List α} {i : ℕ} (hi : i < l.length) :
    survivors (fun j => gone (i + j)) (l.drop i) =
      (if gone i then [] else [l[i]]) ++ survivors (fun j => gone (i + 1 + j)) (l.drop (i + 1)) := by
  have hshift : (fun j => gone (i + (j + 1))) = fun j => gone (i + 1 + j) :=
    funext fun j => by rw [Nat.add_right_comm, Nat.add_assoc]
  rw [List.drop_eq_getElem_cons hi, survivors, hshift, Nat.add_zero]
  split <;> rfl

theorem mem_survivors : x ∈ survivors gone l ↔ ∃ k, l[k]? = some x ∧ gone k = false := by
  induction l generalizing gone with
  | nil => simp [survivors]
  | cons a l ih =>
    have hshift : (∃ k, (a :: l)[k]? = some x ∧ gone k = false) ↔
        (a = x ∧ gone 0 = false) ∨ ∃ k, l[k]? = some x ∧ gone (k + 1) = false := by
      constructor
      · rintro ⟨k, hx, hk⟩
        cases k with
        | zero => exact .inl ⟨by simpa using hx, hk⟩
        | succ k => exact .inr ⟨k, by simpa using hx, hk⟩
      · rintro (⟨rfl, h⟩ | ⟨k, hx, hk⟩)
        · exact ⟨0, rfl, h⟩
        · exact ⟨k + 1, by simpa using hx, hk⟩
    rw [hshift, survivors, ← ih]
    cases h : gone 0 with
    | true => simp
    | false => simp [eq_comm]

/-- A survivor moves towards the front at most. -/
theorem exists_survivors_index (hx : l[k]? = some x) (hk : gone k = false) :
    ∃ j ≤ k, (survivors gone l)[j]? = some x := by
  induction l generalizing gone k with
  | nil => simp at hx
  | cons a l ih =>
    rw [survivors]
    cases k with
    | zero => exact ⟨0, le_rfl, by rw [if_neg (by simp [hk])]; exact hx⟩
    | succ k =>
      obtain ⟨j, hj, hx⟩ := @ih (fun i => gone (i + 1)) _ (by simpa using hx) hk
      split
      · exact ⟨j, by omega, hx⟩
      · exact ⟨j + 1, by omega, by simpa using hx⟩

/-- A survivor keeps its position exactly where nothing before it is gone. -/
theorem survivors_getElem?_iff (hl : l.Nodup) (hx : l[k]? = some x) (hk : gone k = false) :
    (survivors gone l)[k]? = some x ↔ ∀ i < k, gone i = false := by
  induction l generalizing gone k with
  | nil => simp at hx
  | cons a l ih =>
    have hl' := (List.nodup_cons.1 hl).2
    rw [survivors]
    cases k with
    | zero => simpa [hk] using hx
    | succ k =>
      have hx' : l[k]? = some x := by simpa using hx
      cases h0 : gone 0 with
      | true =>
        obtain ⟨j, hj, hxj⟩ := @exists_survivors_index _ (fun i => gone (i + 1)) _ _ _ hx' hk
        rw [if_pos rfl]
        constructor
        · intro h
          have := index_unique (hl'.sublist (survivors_sublist ..)) hxj h
          omega
        · intro h
          rw [h 0 (by omega)] at h0
          contradiction
      | false =>
        rw [if_neg Bool.false_ne_true, List.getElem?_cons_succ, ih hl' hx' hk]
        constructor
        · intro h i hi
          cases i with
          | zero => exact h0
          | succ i => exact h i (by omega)
        · exact fun h i hi => h (i + 1) (by omega)

/-- After a removal an index is right exactly where its own entry is gone or nothing
before it is. -/
theorem staysAt_survivors (hl : l.Nodup) {more : List α} (hmore : ∀ y ∈ more, y ∉ l) :
    StaysAt l (survivors gone l ++ more) k ↔
      l.length ≤ k ∨ gone k = true ∨ ∀ i < k, gone i = false := by
  by_cases hlen : l.length ≤ k
  · exact ⟨fun _ => .inl hlen, fun _ => staysAt_of_le hlen _⟩
  obtain ⟨x, hx⟩ : ∃ x, l[k]? = some x := ⟨_, List.getElem?_eq_getElem (by omega)⟩
  have hmem : x ∈ l := List.mem_of_getElem? hx
  cases hk : gone k with
  | true =>
    refine ⟨fun _ => .inr (.inl rfl), fun _ y hy hy' => ?_⟩
    obtain rfl : x = y := Option.some.inj (hx.symm.trans hy)
    rcases List.mem_append.1 hy' with h | h
    · obtain ⟨j, hj, hgone⟩ := mem_survivors.1 h
      rw [index_unique hl hj hx, hk] at hgone
      contradiction
    · exact absurd hmem (hmore x h)
  | false =>
    have hin : x ∈ survivors gone l := mem_survivors.2 ⟨k, hx, hk⟩
    have hpos : (survivors gone l ++ more)[k]? = some x ↔ (survivors gone l)[k]? = some x := by
      by_cases hlt : k < (survivors gone l).length
      · rw [List.getElem?_append_left hlt]
      · rw [List.getElem?_eq_none (not_lt.1 hlt), List.getElem?_append_right (not_lt.1 hlt)]
        simp only [reduceCtorEq, iff_false]
        exact fun h => hmore x (List.mem_of_getElem? h) hmem
    rw [staysAt_iff hx (List.mem_append_left _ hin), hpos, survivors_getElem?_iff hl hx hk]
    simp [hlen]

theorem staysAt_insertIdx (hl : l.Nodup) {d : ℕ} (hd : d ≤ l.length) (hx : x ∉ l) :
    StaysAt l (l.insertIdx d x) k ↔ k < d ∨ l.length ≤ k := by
  by_cases hlen : l.length ≤ k
  · exact ⟨fun _ => .inr hlen, fun _ => staysAt_of_le hlen _⟩
  obtain ⟨y, hy⟩ : ∃ y, l[k]? = some y := ⟨_, List.getElem?_eq_getElem (by omega)⟩
  have hmem : y ∈ l := List.mem_of_getElem? hy
  have hin : y ∈ l.insertIdx d x := (List.mem_insertIdx hd).2 (.inr hmem)
  rw [staysAt_iff hy hin, List.getElem?_insertIdx]
  simp only [hlen, or_false]
  by_cases hlt : k < d
  · simp [hlt, hy]
  rw [if_neg hlt]
  simp only [hlt, iff_false]
  split
  · split
    · exact fun h => hx (Option.some.inj h ▸ hmem)
    · simp
  · intro h
    have := index_unique hl h hy
    omega

/-- The entry at `a` taken out and put in at `p`. -/
theorem staysAt_move (hl : l.Nodup) {a p : ℕ} (ha : l[a]? = some x) (hp : p < l.length) :
    StaysAt l ((l.eraseIdx a).insertIdx p x) k ↔ p = a ∨ k < min a p ∨ max a p < k := by
  have halt := (List.getElem?_eq_some_iff.1 ha).1
  by_cases hlen : l.length ≤ k
  · exact ⟨fun _ => .inr (.inr (by omega)), fun _ => staysAt_of_le hlen _⟩
  obtain ⟨y, hy⟩ : ∃ y, l[k]? = some y := ⟨_, List.getElem?_eq_getElem (by omega)⟩
  have hperm : ((l.eraseIdx a).insertIdx p x).Perm l := by
    refine (List.perm_insertIdx _ _ (by rw [List.length_eraseIdx_of_lt halt]; omega)).trans ?_
    rw [← (List.getElem?_eq_some_iff.1 ha).2]
    exact List.getElem_cons_eraseIdx_perm halt
  rw [staysAt_iff hy (hperm.mem_iff.2 (List.mem_of_getElem? hy)), List.getElem?_insertIdx]
  have huniq : ∀ {i : ℕ}, l[i]? = some y → i = k := fun h => index_unique hl h hy
  split
  · next hkp =>
    rw [List.getElem?_eraseIdx]
    split
    · next hka => simp [hy, hka, hkp]
    · next hka =>
      constructor
      · intro h
        have := huniq h
        omega
      · omega
  · split
    · next hkp =>
      rw [if_pos (by rw [List.length_eraseIdx_of_lt halt]; omega)]
      constructor
      · intro h
        have := huniq (ha.trans h)
        omega
      · intro h
        obtain rfl : k = a := by omega
        rw [← ha, hy]
    · next hkp hne =>
      rw [List.getElem?_eraseIdx]
      split
      · next hka =>
        constructor
        · intro h
          have := huniq h
          omega
        · omega
      · next hka =>
        rw [show k - 1 + 1 = k by omega, hy]
        simp only [true_iff]
        omega

/-- The entries at `i` and `j` exchanged. -/
theorem staysAt_swap (hl : l.Nodup) {i j : ℕ} {y : α} (hi : l[i]? = some x) (hj : l[j]? = some y)
    (hne : i ≠ j) : StaysAt l ((l.set i y).set j x) k ↔ k ≠ i ∧ k ≠ j := by
  have hilt := (List.getElem?_eq_some_iff.1 hi).1
  have hjlt := (List.getElem?_eq_some_iff.1 hj).1
  have hat : ∀ k, ((l.set i y).set j x)[k]? = if k = j then some x else if k = i then some y else l[k]? := by
    intro k
    rw [List.getElem?_set, List.getElem?_set, List.length_set]
    simp only [eq_comm (a := j), eq_comm (a := i), hjlt, hilt, if_true]
  by_cases hkj : k = j
  · subst hkj
    rw [staysAt_iff hj (List.mem_of_getElem? (i := i) (by rw [hat, if_neg hne, if_pos rfl])), hat, if_pos rfl]
    simp only [ne_eq, not_true, and_false, iff_false]
    exact fun h => hne (index_unique hl (hi.trans h) hj)
  by_cases hki : k = i
  · subst hki
    rw [staysAt_iff hi (List.mem_of_getElem? (i := j) (by rw [hat, if_pos rfl])), hat, if_neg hkj, if_pos rfl]
    simp only [ne_eq, not_true, false_and, iff_false]
    exact fun h => hne (index_unique hl (hj.trans h) hi).symm
  · refine ⟨fun _ => ⟨hki, hkj⟩, fun _ z hz _ => ?_⟩
    rw [hat, if_neg hkj, if_neg hki, hz]

end Winsmux.Positions
