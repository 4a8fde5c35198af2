import Winsmux.Layout.Tiling

/-!
# Panes next to each other

Two panes of a window are never without a cell between them, and behind every edge of a pane that is
not the window's own stands the next pane, seen along at least two of its cells.
-/
namespace Winsmux.Layout
open PathTree

variable {n c : Node} {a : Split} {children : List Node} {area r s : Rect} {l m : List ℕ × Rect}

theorem Rect.Inside.span (h : r.Inside area) (axis : Bool) :
    (area.span axis).1 ≤ (r.span axis).1 ∧
      (r.span axis).1 + (r.span axis).2 ≤ (area.span axis).1 + (area.span axis).2 := by
  obtain ⟨h1, h2, h3, h4⟩ := h
  cases axis
  · exact ⟨h3, h4⟩
  · exact ⟨h1, h2⟩

/-- Every pane has at least one cell. -/
def Visible (n : Node) (area : Rect) : Prop := ∀ l ∈ computeRects n area, 0 < l.2.width ∧ 0 < l.2.height

theorem Visible.span (h : Visible n area) (hl : l ∈ computeRects n area) (axis : Bool) :
    0 < (l.2.span axis).2 := by
  cases axis
  · exact (h l hl).2
  · exact (h l hl).1

theorem mem_computeRectsFrom_of_child {i j : ℕ} {cs : List Node} {rs : List Rect} (hc : cs[j]? = some c)
    (hr : rs[j]? = some r) (hl : l ∈ computeRects c r) : ((i + j) :: l.1, l.2) ∈ computeRectsFrom i cs rs := by
  induction cs generalizing i j rs with
  | nil => cases hc
  | cons d cs ih =>
    cases rs with
    | nil => cases hr
    | cons s rs =>
      rw [computeRectsFrom, List.mem_append]
      cases j with
      | zero =>
        obtain rfl := Option.some.inj hc
        obtain rfl := Option.some.inj hr
        exact .inl (List.mem_map.2 ⟨l, hl, rfl⟩)
      | succ j =>
        have hmem := ih (i := i + 1) (j := j) hc hr
        rw [Nat.add_right_comm, Nat.add_assoc] at hmem
        exact .inr hmem

/-- The panes of a split are those of its children. -/
theorem mem_computeRects_split : l ∈ computeRects (.split a children) area ↔
    ∃ j c r path, children[j]? = some c ∧ (childRects a children area)[j]? = some r ∧
      (path, l.2) ∈ computeRects c r ∧ l.1 = j :: path := by
  rw [computeRects]
  constructor
  · intro h
    obtain ⟨j, c, r, path, hc, hr, hl, hp⟩ := mem_computeRectsFrom h
    exact ⟨j, c, r, path, hc, hr, hl, by rw [hp, Nat.zero_add]⟩
  · rintro ⟨j, c, r, path, hc, hr, hl, hp⟩
    have hmem := mem_computeRectsFrom_of_child (i := 0) hc hr hl
    rw [Nat.zero_add, ← hp] at hmem
    exact hmem

theorem Visible.child {j : ℕ} (h : Visible (.split a children) area) (hc : children[j]? = some c)
    (hr : (childRects a children area)[j]? = some r) : Visible c r := fun l hl =>
  h (j :: l.1, l.2) (mem_computeRects_split.2 ⟨j, c, r, l.1, hc, hr, hl, rfl⟩)

/-- The child that a rectangle is given to. -/
theorem exists_child {s : ℕ × ℕ} {axis : Bool}
    (hs : s ∈ (childRects a children area).map (Rect.span axis)) :
    ∃ (j : ℕ) (c : Node) (r : Rect), children[j]? = some c ∧ (childRects a children area)[j]? = some r ∧
      r.span axis = s := by
  obtain ⟨r, hr, rfl⟩ := List.mem_map.1 hs
  obtain ⟨j, hj, hr⟩ := List.mem_iff_getElem.1 hr
  have hlt : j < children.length := by rwa [length_childRects] at hj
  exact ⟨j, children[j], r, List.getElem?_eq_getElem hlt, by rw [List.getElem?_eq_getElem hj, hr], rfl⟩

/-- Without room for the separators the first slice has no cell. -/
theorem first_slice {axis : Bool} {sizes : List ℕ} (hlen : 2 ≤ sizes.length) (hsum : sizes.sum ≠ 0)
    (hside : (area.span axis).2 < sizes.length - 1) :
    ∃ r, (splitWithGaps axis sizes area)[0]? = some r ∧ (r.span axis).2 = 0 := by
  have hside' : (if axis then area.width else area.height) < sizes.length - 1 := by
    cases axis <;> exact hside
  rw [splitWithGaps, if_neg (by omega), if_neg hsum]
  dsimp only
  rw [Nat.sub_eq_zero_of_le hside'.le]
  cases sizes with
  | nil => simp at hlen
  | cons pct rest =>
    refine ⟨_, rfl, ?_⟩
    cases axis <;> simp [Rect.span]

/-- A window whose panes can all be seen has room for its separators. -/
theorem room_of_visible (hm : Measured n) (hv : Visible n area) :
    HasRoom n area ∧ ∀ axis, 0 < (area.span axis).2 := by
  induction n using tree_induction generalizing area with
  | leaf p =>
    exact ⟨everySplit_leaf _ _ _, fun axis => hv.span (l := ([], area)) (by simp [computeRects]) axis⟩
  | split a children ih =>
    have hchild {j : ℕ} {c : Node} {r : Rect} (hc : children[j]? = some c)
        (hr : (childRects a children area)[j]? = some r) : HasRoom c r ∧ ∀ axis, 0 < (r.span axis).2 :=
      ih c (List.mem_of_getElem? hc) (hm.child hc) (hv.child hc hr)
    obtain ⟨heff, s, hs, hpos⟩ := hm.root
    have hlen : a.sizes.length = children.length := (allSplits_split.1 hm).1.1
    have hsum : a.sizes.sum ≠ 0 := ((Nat.pos_of_ne_zero hpos).trans_le (List.le_sum_of_mem hs)).ne'
    have hchildren : 0 < children.length := hlen ▸ List.length_pos_of_mem hs
    have hroot : children.length - 1 ≤ (area.span a.isHorizontal).2 := by
      by_contra hside
      have hnone : (area.span a.isHorizontal).2 < a.sizes.length - 1 := by omega
      obtain ⟨r, hr, hzero⟩ := first_slice (by omega) hsum hnone
      have hr : (childRects a children area)[0]? = some r := by rw [childRects, heff]; exact hr
      have hpos := (hchild (List.getElem?_eq_getElem hchildren) hr).2 a.isHorizontal
      omega
    have hroom : HasRoom (.split a children) area :=
      everySplit_split.2 ⟨hroot, fun i c r hc hr => (hchild hc hr).1⟩
    refine ⟨hroom, fun axis => ?_⟩
    have hfirst : 0 < (childRects a children area).length := by rwa [length_childRects]
    have hr := List.getElem?_eq_getElem hfirst
    have hpos := (hchild (List.getElem?_eq_getElem hchildren) hr).2 axis
    have hinside := (inside_childRects hm hroom (List.mem_of_getElem? hr)).span axis
    omega

/-- There is a cell between two rectangles along one of the axes. -/
def Apart (r s : Rect) : Prop := ∃ axis, (r.span axis).1 + (r.span axis).2 < (s.span axis).1 ∨
  (s.span axis).1 + (s.span axis).2 < (r.span axis).1

theorem inside_of_mem (hm : Measured n) (hroom : HasRoom n area) (hl : l ∈ computeRects n area) :
    l.2.Inside area :=
  rectAt_inside hm hroom (rectAt_of_mem hl)

theorem apart_children {i j : ℕ} (hm : Measured (.split a children)) (hroom : HasRoom (.split a children) area)
    (hr : (childRects a children area)[i]? = some r) (hs : (childRects a children area)[j]? = some s)
    (hij : i < j) : (r.span a.isHorizontal).1 + (r.span a.isHorizontal).2 < (s.span a.isHorizontal).1 := by
  have hpairs := (row_childRects hm hroom).pairwise
  rw [List.pairwise_map] at hpairs
  obtain ⟨hi, rfl⟩ := List.getElem?_eq_some_iff.1 hr
  obtain ⟨hj, rfl⟩ := List.getElem?_eq_some_iff.1 hs
  exact List.pairwise_iff_getElem.1 hpairs i j hi hj hij

/-- Two panes stand apart. -/
theorem apart (hm : Measured n) (hroom : HasRoom n area) (hl : l ∈ computeRects n area)
    (hl' : m ∈ computeRects n area) (hne : l.1 ≠ m.1) : Apart l.2 m.2 := by
  induction n using tree_induction generalizing area l m with
  | leaf p =>
    rw [computeRects, List.mem_singleton] at hl hl'
    exact absurd (by rw [hl, hl']) hne
  | split a children ih =>
    obtain ⟨i, c, r, p, hc, hr, hp, hlp⟩ := mem_computeRects_split.1 hl
    obtain ⟨j, d, s, q, hd, hs, hq, hmq⟩ := mem_computeRects_split.1 hl'
    have hinside := (inside_of_mem (hm.child hc) (hroom.child hc hr) hp).span a.isHorizontal
    have hinside' := (inside_of_mem (hm.child hd) (hroom.child hd hs) hq).span a.isHorizontal
    rcases lt_trichotomy i j with hij | rfl | hij
    · have hlt := apart_children hm hroom hr hs hij
      exact ⟨a.isHorizontal, .inl (by dsimp only at hinside hinside'; omega)⟩
    · rw [hc] at hd
      rw [hr] at hs
      obtain rfl := Option.some.inj hd
      obtain rfl := Option.some.inj hs
      refine ih c (List.mem_of_getElem? hc) (l := (p, l.2)) (m := (q, m.2)) (hm.child hc)
        (hroom.child hc hr) hp hq fun hpq => hne ?_
      rw [hlp, hmq, show p = q from hpq]
    · have hlt := apart_children hm hroom hs hr hij
      exact ⟨a.isHorizontal, .inr (by dsimp only at hinside hinside'; omega)⟩

open Row (AtEnd Next Meets)

/-- The cells two rectangles take along an axis meet. -/
def Facing (axis : Bool) (r s : Rect) : Prop :=
  (r.span axis).1 < (s.span axis).1 + (s.span axis).2 ∧ (s.span axis).1 < (r.span axis).1 + (r.span axis).2

/-- Two cells in a row, or the first or the last, are seen from some pane at an edge. -/
theorem exists_at_edge (hm : Measured n) (hv : Visible n area) (axis forward : Bool) {p q : ℕ}
    (hmeets : Meets p q (area.span !axis)) :
    ∃ l ∈ computeRects n area, AtEnd forward (l.2.span axis) (area.span axis) ∧
      p < (l.2.span !axis).1 + (l.2.span !axis).2 ∧ (l.2.span !axis).1 < q := by
  induction n using tree_induction generalizing area with
  | leaf b =>
    refine ⟨([], area), by simp [computeRects], by cases forward <;> rfl, ?_⟩
    unfold Meets at hmeets
    dsimp only
    omega
  | split a children ih =>
    obtain ⟨hroom, hpos⟩ := room_of_visible hm hv
    have hrow := row_childRects hm hroom
    by_cases haxis : axis = a.isHorizontal
    · -- the children follow each other toward the edge, the last of them reaches it
      subst haxis
      obtain ⟨s, hs, hend⟩ := hrow.exists_atEnd forward
      obtain ⟨j, c, r, hc, hr, rfl⟩ := exists_child hs
      have hacross := across_childRects (List.mem_of_getElem? hr)
      obtain ⟨l, hl, hledge, hmeets⟩ := ih c (List.mem_of_getElem? hc) (hm.child hc) (hv.child hc hr)
        (hacross ▸ hmeets)
      refine ⟨(j :: l.1, l.2), mem_computeRects_split.2 ⟨j, c, r, l.1, hc, hr, hl, rfl⟩, ?_, hmeets⟩
      cases forward
      · exact hledge.trans hend
      · exact hledge.trans hend
    · -- every child reaches the edge, and one of them is seen
      obtain rfl : axis = !a.isHorizontal := by
        cases axis <;> cases h : a.isHorizontal <;> simp_all
      rw [Bool.not_not] at hmeets ⊢
      have hsegments : ∀ s ∈ (childRects a children area).map (Rect.span a.isHorizontal), 0 < s.2 := by
        intro s hs
        obtain ⟨j, c, r, hc, hr, rfl⟩ := exists_child hs
        exact (room_of_visible (hm.child hc) (hv.child hc hr)).2 a.isHorizontal
      obtain ⟨s, hs, hmeets⟩ := hrow.exists_meets hsegments hmeets
      obtain ⟨j, c, r, hc, hr, rfl⟩ := exists_child hs
      have hacross := across_childRects (List.mem_of_getElem? hr)
      obtain ⟨l, hl, hledge, hmeets⟩ := ih c (List.mem_of_getElem? hc) (hm.child hc) (hv.child hc hr)
        (by rwa [Bool.not_not])
      rw [Bool.not_not] at hmeets
      exact ⟨(j :: l.1, l.2), mem_computeRects_split.2 ⟨j, c, r, l.1, hc, hr, hl, rfl⟩,
        hacross ▸ hledge, hmeets⟩

/-- Behind an edge of a pane that is not the window's own stands the next pane. -/
theorem exists_neighbor (hm : Measured n) (hv : Visible n area) {axis forward : Bool}
    (hl : l ∈ computeRects n area) (hthick : 2 ≤ (l.2.span !axis).2)
    (hedge : ¬AtEnd forward (l.2.span axis) (area.span axis)) :
    ∃ m ∈ computeRects n area, Next forward (l.2.span axis) (m.2.span axis) ∧ Facing (!axis) l.2 m.2 := by
  induction n using tree_induction generalizing area l with
  | leaf b =>
    rw [computeRects, List.mem_singleton] at hl
    rw [hl] at hedge
    exact absurd (by cases forward <;> rfl) hedge
  | split a children ih =>
    obtain ⟨hroom, -⟩ := room_of_visible hm hv
    have hrow := row_childRects hm hroom
    obtain ⟨i, c, r, path, hc, hr, hl, -⟩ := mem_computeRects_split.1 hl
    by_cases hinner : AtEnd forward (l.2.span axis) (r.span axis)
    · by_cases haxis : axis = a.isHorizontal
      · subst haxis
        have hend : ¬AtEnd forward (r.span a.isHorizontal) (area.span a.isHorizontal) := by
          intro hend
          cases forward
          · exact hedge (hinner.trans hend)
          · exact hedge (hinner.trans hend)
        obtain ⟨t, ht, hnext⟩ := hrow.exists_next (List.mem_map_of_mem (List.mem_of_getElem? hr)) hend
        obtain ⟨j, d, s, hd, hs, rfl⟩ := exists_child ht
        have hacross := across_childRects (List.mem_of_getElem? hr)
        have hacross' := across_childRects (List.mem_of_getElem? hs)
        have hinside := (inside_of_mem (hm.child hc) (hroom.child hc hr) hl).span !a.isHorizontal
        rw [hacross, ← hacross'] at hinside
        have hmeets : Meets (l.2.span !a.isHorizontal).1
            ((l.2.span !a.isHorizontal).1 + (l.2.span !a.isHorizontal).2) (s.span !a.isHorizontal) := by
          unfold Meets
          dsimp only at hinside
          omega
        obtain ⟨m, hmem, hmedge, hmeets⟩ :=
          exists_at_edge (hm.child hd) (hv.child hd hs) a.isHorizontal (!forward) hmeets
        refine ⟨(j :: m.1, m.2), mem_computeRects_split.2 ⟨j, d, s, m.1, hd, hs, hmem, rfl⟩, ?_, hmeets⟩
        cases forward <;> simp only [AtEnd, Next, Bool.not_false, Bool.not_true, if_true,
          Bool.false_eq_true, if_false] at hinner hnext hmedge ⊢ <;> omega
      · obtain rfl : axis = !a.isHorizontal := by
          cases axis <;> cases h : a.isHorizontal <;> simp_all
        rw [across_childRects (List.mem_of_getElem? hr)] at hinner
        exact absurd hinner hedge
    · obtain ⟨m, hmem, hnext⟩ := ih c (List.mem_of_getElem? hc) (l := (path, l.2)) (hm.child hc)
        (hv.child hc hr) hl hthick hinner
      exact ⟨(i :: m.1, m.2), mem_computeRects_split.2 ⟨i, c, r, m.1, hc, hr, hmem, rfl⟩, hnext⟩

end Winsmux.Layout
