import Winsmux.Layout.LayoutPrint
import Winsmux.Layout.SplitSizes

/-!
# Restored layouts

A window's own layout string applied to the window. The string stores cells, the restored
tree stores whole percentages of them, and the screen is laid out from these again: a
pane gets its cells back where they are a whole number of percent of all there are.
-/
namespace Winsmux.Layout
open PathTree Json

/-- The cells of the children along the axis of their split. -/
def cellsOf (a : Split) (rects : List Rect) : List ℕ := rects.map fun r => (r.span a.isHorizontal).2

/-- The last number raised. -/
def raiseLast (k : ℕ) (sizes : List ℕ) : List ℕ := sizes.dropLast ++ (sizes.getLast?.map (· + k)).toList

/-- The shares that stand for cells. -/
def cellShares (cells : List ℕ) : List ℕ :=
  if cells.sum = 0 then List.replicate cells.length (100 / max cells.length 1)
  else
    let sizes := cells.map fun dim => dim * 100 / cells.sum
    raiseLast (100 - sizes.sum) sizes

theorem raiseLast_append (k : ℕ) (front : List ℕ) (l : ℕ) :
    raiseLast k (front ++ [l]) = front ++ [l + k] := by
  simp [raiseLast]

theorem raiseLast_facts {sizes : List ℕ} (h : sizes ≠ []) (k : ℕ) :
    (raiseLast k sizes).length = sizes.length ∧ (raiseLast k sizes).sum = sizes.sum + k ∧
      (raiseLast k sizes).dropLast = sizes.dropLast := by
  obtain rfl | ⟨front, l, rfl⟩ := List.eq_nil_or_concat sizes
  · contradiction
  · rw [List.concat_eq_append, raiseLast_append]
    simp [add_assoc]

/-- Cells come back from a whole percentage just where they are one. -/
theorem share_back {total : ℕ} (d : ℕ) (h : 0 < total) :
    total * (d * 100 / total) / 100 = d ↔ total ∣ 100 * d := by
  have hle : d * 100 / total * total ≤ d * 100 := Nat.div_mul_le_self _ _
  constructor
  · intro hback
    have hge : 100 * d ≤ total * (d * 100 / total) := by
      have := Nat.div_mul_le_self (total * (d * 100 / total)) 100
      rw [hback] at this
      omega
    refine ⟨d * 100 / total, le_antisymm hge ?_⟩
    rw [mul_comm, mul_comm 100]
    exact hle
  · rintro ⟨q, hq⟩
    have hdiv : d * 100 / total = q := by
      rw [mul_comm d, hq]
      exact Nat.mul_div_cancel_left q h
    rw [hdiv, ← hq]
    exact Nat.mul_div_cancel_left d (by norm_num)

theorem sum_shares_le {cells : List ℕ} {total : ℕ} :
    (cells.map fun dim => dim * 100 / total).sum ≤ cells.sum * 100 / total := by
  induction cells with
  | nil => simp
  | cons d cells ih =>
    rw [List.map_cons, List.sum_cons, List.sum_cons, add_mul]
    exact (Nat.add_le_add_left ih _).trans Nat.div_add_div_le_add_div

variable {cells : List ℕ}

theorem map_ne_nil_of_sum (f : ℕ → ℕ) (h : cells.sum ≠ 0) : cells.map f ≠ [] := by
  rw [ne_eq, List.map_eq_nil_iff]
  rintro rfl
  exact h rfl

theorem length_cellShares (cells : List ℕ) : (cellShares cells).length = cells.length := by
  rw [cellShares]
  split
  · exact List.length_replicate
  · next h => rw [(raiseLast_facts (map_ne_nil_of_sum _ h) _).1, List.length_map]

theorem sum_cellShares (h : cells.sum ≠ 0) : (cellShares cells).sum = 100 := by
  have hle : (cells.map fun dim => dim * 100 / cells.sum).sum ≤ 100 := by
    refine sum_shares_le.trans ?_
    rw [Nat.mul_div_cancel_left _ (Nat.pos_of_ne_zero h)]
  rw [cellShares, if_neg h, (raiseLast_facts (map_ne_nil_of_sum _ h) _).2.1]
  omega

theorem dropLast_cellShares (h : cells.sum ≠ 0) :
    (cellShares cells).dropLast = cells.dropLast.map fun dim => dim * 100 / cells.sum := by
  rw [cellShares, if_neg h, (raiseLast_facts (map_ne_nil_of_sum _ h) _).2.2, List.map_dropLast]

/-- At a split, the cells of each child but the last are a whole number of percent of all, and
where the separators leave no cells there are at most a hundred children. -/
def WholeAt (a : Split) (children : List Node) (r : Rect) : Prop :=
  let cells := cellsOf a (childRects a children r)
  (∀ d ∈ cells.dropLast, cells.sum ∣ 100 * d) ∧ (cells.sum = 0 → cells.length ≤ 100)

def WholeCells : Node → Rect → Prop := EverySplit WholeAt

instance (a : Split) (children : List Node) (r : Rect) : Decidable (WholeAt a children r) :=
  inferInstanceAs (Decidable (_ ∧ _))

instance (n : Node) (area : Rect) : Decidable (WholeCells n area) :=
  inferInstanceAs (Decidable (EverySplit _ n area))

theorem WellSized.measured {n : Node} (h : WellSized n) : Measured n :=
  allSplits_iff.2 fun p a children hp => by
    obtain ⟨-, hlen, hpos⟩ := allSplits_iff.1 h p a children hp
    exact ⟨hlen, hpos⟩

theorem cells_slices (isHorizontal : Bool) (area : Rect) (available total : ℕ) :
    ∀ (sizes : List ℕ) (i offset : ℕ),
      ((slices isHorizontal area available total i offset sizes).map
          fun r => (r.span isHorizontal).2).dropLast =
        sizes.dropLast.map fun pct => available * pct / total
  | [], _, _ => rfl
  | [pct], _, _ => rfl
  | pct :: q :: rest, i, offset => by
    have hrest := cells_slices isHorizontal area available total (q :: rest) (i + 1)
      (offset + available * pct / total)
    rw [slices, if_neg (List.cons_ne_nil q rest), List.map_cons, List.dropLast_cons_of_ne_nil (by simp [slices]),
      hrest, List.dropLast_cons_of_ne_nil (List.cons_ne_nil q rest), List.map_cons]
    cases isHorizontal <;> rfl

/-- The cells of all children but the last, from their shares. -/
theorem cells_splitWithGaps {isHorizontal : Bool} {sizes : List ℕ} {area : Rect} (htwo : 2 ≤ sizes.length)
    (hsum : sizes.sum ≠ 0) :
    ((splitWithGaps isHorizontal sizes area).map fun r => (r.span isHorizontal).2).dropLast =
      sizes.dropLast.map fun pct =>
        ((area.span isHorizontal).2 - (sizes.length - 1)) * pct / sizes.sum := by
  rw [splitWithGaps, if_neg (by omega), if_neg hsum]
  cases isHorizontal <;> exact cells_slices _ _ _ _ _ _ _

theorem rect_ext_span {isHorizontal : Bool} {r s : Rect} (h : r.span isHorizontal = s.span isHorizontal)
    (h' : r.span (!isHorizontal) = s.span (!isHorizontal)) : r = s := by
  obtain ⟨x, y, w, k⟩ := r
  obtain ⟨x', y', w', k'⟩ := s
  cases isHorizontal <;>
    simp only [Rect.span, Bool.not_true, Bool.not_false, if_true, Bool.false_eq_true, if_false,
      Prod.mk.injEq, Rect.mk.injEq] at h h' ⊢
  · exact ⟨h'.1, h.1, h'.2, h.2⟩
  · exact ⟨h.1, h'.1, h.2, h'.2⟩

theorem span_start (isHorizontal : Bool) {r s : Rect} (hx : r.x = s.x) (hy : r.y = s.y) :
    (r.span isHorizontal).1 = (s.span isHorizontal).1 := by
  cases isHorizontal
  · exact hy
  · exact hx

/-- Children cut from one area are told apart by what they take along the axis. -/
theorem rects_ext {isHorizontal : Bool} {area : Rect} {rs ss : List Rect}
    (hrs : ∀ r ∈ rs, r.span (!isHorizontal) = area.span (!isHorizontal))
    (hss : ∀ s ∈ ss, s.span (!isHorizontal) = area.span (!isHorizontal))
    (h : rs.map (Rect.span isHorizontal) = ss.map (Rect.span isHorizontal)) : rs = ss := by
  have hlen : rs.length = ss.length := by simpa using congrArg List.length h
  refine List.ext_getElem hlen fun i hi hi' => @rect_ext_span isHorizontal _ _ ?_ ?_
  · have := congrArg (·[i]?) h
    simpa [hi, hi'] using this
  · rw [hrs _ (List.getElem_mem hi), hss _ (List.getElem_mem hi')]

section recut
variable {a : Split} {children : List Node} {area : Rect}

/-- The rectangles of the children after a restore. -/
def recut (a : Split) (area : Rect) (rects : List Rect) : List Rect :=
  splitWithGaps a.isHorizontal (cellShares (cellsOf a rects)) area

theorem length_cellsOf (a : Split) (rects : List Rect) : (cellsOf a rects).length = rects.length :=
  List.length_map _

@[simp] theorem length_recut (a : Split) (area : Rect) (rects : List Rect) :
    (recut a area rects).length = rects.length := by
  rw [recut, length_splitWithGaps, length_cellShares, length_cellsOf]

theorem cellShares_nonzero (hne : cells ≠ []) :
    (∃ s ∈ cellShares cells, s ≠ 0) ↔ (cells.sum = 0 → cells.length ≤ 100) := by
  have hpos := List.length_pos_of_ne_nil hne
  by_cases h : cells.sum = 0
  · rw [cellShares, if_pos h, max_eq_left hpos]
    constructor
    · rintro ⟨s, hs, hne⟩ -
      obtain ⟨-, rfl⟩ := List.mem_replicate.1 hs
      by_contra hlt
      exact hne (Nat.div_eq_of_lt (by omega))
    · intro hle
      exact ⟨_, List.mem_replicate.2 ⟨hpos.ne', rfl⟩, (Nat.div_pos (hle h) hpos).ne'⟩
  · refine iff_of_true ?_ fun h' => absurd h' h
    by_contra hall
    have := sum_cellShares h
    rw [sum_eq_zero_of_not hall] at this
    omega

theorem eq_replicate_of_sum {l : List ℕ} (h : l.sum = 0) : l = List.replicate l.length 0 :=
  List.eq_replicate_iff.2 ⟨rfl, List.sum_eq_zero_iff.1 h⟩

variable (hs : WellSized (.split a children))
include hs

theorem cellsOf_ne_nil : cellsOf a (childRects a children area) ≠ [] := by
  have htwo := (wellSized_split.1 hs).1.two
  refine List.ne_nil_of_length_pos ?_
  rw [length_cellsOf, length_childRects]
  omega

variable (hroom : HasRoom (.split a children) area)
include hroom

theorem sum_cellsOf :
    (cellsOf a (childRects a children area)).sum + (children.length - 1) = (area.span a.isHorizontal).2 := by
  have hsum := (row_childRects hs.measured hroom).sum
  rw [List.map_map, List.length_map, length_childRects] at hsum
  exact hsum

theorem row_recut (h : (cellsOf a (childRects a children area)).sum = 0 →
    (cellsOf a (childRects a children area)).length ≤ 100) :
    Row (area.span a.isHorizontal).1 (area.span a.isHorizontal).2
      ((recut a area (childRects a children area)).map (Rect.span a.isHorizontal)) := by
  refine row_splitWithGaps ((cellShares_nonzero (cellsOf_ne_nil hs)).2 h) ?_
  rw [length_cellShares, length_cellsOf, length_childRects]
  exact hroom.root

/-- Shares that are all zero leave the area uncut, and the second child begins elsewhere. -/
theorem hundred_of_starts
    (h : (recut a area (childRects a children area)).map (fun r => (r.span a.isHorizontal).1) =
      (childRects a children area).map fun r => (r.span a.isHorizontal).1) :
    (cellsOf a (childRects a children area)).sum = 0 →
      (cellsOf a (childRects a children area)).length ≤ 100 := by
  have htwo := (wellSized_split.1 hs).1.two
  rw [← cellShares_nonzero (cellsOf_ne_nil hs)]
  by_contra hzero
  have huncut : ∀ r ∈ recut a area (childRects a children area), r = area := by
    intro r hr
    rw [recut, splitWithGaps, if_pos (sum_eq_zero_of_not hzero), ite_self] at hr
    obtain ⟨-, -, rfl⟩ := List.mem_map.1 hr
    rfl
  have hlen : (childRects a children area).length = children.length := length_childRects ..
  have hstart : ∀ (i : ℕ) (hi : i < (childRects a children area).length),
      (((childRects a children area)[i]).span a.isHorizontal).1 = (area.span a.isHorizontal).1 := by
    intro i hi
    have hi' : i < (recut a area (childRects a children area)).length := by rwa [length_recut]
    have hget := congrArg (·[i]?) h
    simp only [List.getElem?_map, List.getElem?_eq_getElem hi, List.getElem?_eq_getElem hi',
      Option.map_some, Option.some_inj] at hget
    rw [← hget, huncut _ (List.getElem_mem hi')]
  have hpairs := (row_childRects hs.measured hroom).pairwise
  have hlt := List.pairwise_iff_getElem.1 hpairs 0 1 (by simp; omega) (by simp; omega) (by omega)
  simp only [List.getElem_map, hstart] at hlt
  omega

/-- The children of a split stand where they stood if they begin there. -/
theorem recut_eq_of_starts
    (h : (recut a area (childRects a children area)).map (fun r => (r.span a.isHorizontal).1) =
      (childRects a children area).map fun r => (r.span a.isHorizontal).1) :
    recut a area (childRects a children area) = childRects a children area := by
  have hrow := row_recut hs hroom (hundred_of_starts hs hroom h)
  refine rects_ext (fun r hr => across_splitWithGaps hr) (fun r hr => across_childRects hr)
    (hrow.eq_of_starts (row_childRects hs.measured hroom) ?_)
  rw [List.map_map, List.map_map]
  exact h

/-- A restore puts the children of a split back just where their cells are whole percentages. -/
theorem recut_eq_iff : recut a area (childRects a children area) = childRects a children area ↔
    WholeAt a children area := by
  have htwo := (wellSized_split.1 hs).1.two
  have hsum := sum_cellsOf hs hroom
  set cells := cellsOf a (childRects a children area) with hcells
  have hlen : cells.length = children.length := by rw [hcells, length_cellsOf, length_childRects]
  have hback : cells.sum ≠ 0 →
      ((recut a area (childRects a children area)).map fun r => (r.span a.isHorizontal).2).dropLast =
        cells.dropLast.map fun d => cells.sum * (d * 100 / cells.sum) / 100 := by
    intro hne
    have hside : (area.span a.isHorizontal).2 - ((cellShares cells).length - 1) = cells.sum := by
      rw [length_cellShares, hlen]
      omega
    rw [recut, ← hcells, cells_splitWithGaps (by rw [length_cellShares]; omega)
      (by rw [sum_cellShares hne]; omega), hside, sum_cellShares hne, dropLast_cellShares hne, List.map_map]
    rfl
  constructor
  · intro h
    have hundred := hundred_of_starts hs hroom (by rw [h])
    refine ⟨fun d hd => ?_, hundred⟩
    rw [← hcells] at hd ⊢
    by_cases hne : cells.sum = 0
    · have hzero := List.sum_eq_zero_iff.1 hne d (List.mem_of_mem_dropLast hd)
      simp [hzero]
    · have hself := hback hne
      rw [h] at hself
      have hall : cells.dropLast.map id = cells.dropLast.map fun d => cells.sum * (d * 100 / cells.sum) / 100 := by
        rw [List.map_id]
        exact hself
      exact (share_back d (Nat.pos_of_ne_zero hne)).1 (List.map_inj_left.1 hall d hd).symm
  · rintro ⟨hwhole, hundred⟩
    refine rects_ext (fun r hr => across_splitWithGaps hr) (fun r hr => across_childRects hr)
      ((row_recut hs hroom hundred).eq_of_lengths (row_childRects hs.measured hroom) (by simp) ?_)
    rw [List.map_map, List.map_map]
    have hcellsDrop : ((childRects a children area).map (Prod.snd ∘ Rect.span a.isHorizontal)).dropLast =
        cells.dropLast := rfl
    rw [hcellsDrop]
    rw [← hcells] at hwhole
    by_cases hne : cells.sum = 0
    · have hrow := (row_recut hs hroom hundred).sum
      rw [List.map_map, List.length_map, length_recut, length_childRects] at hrow
      have hzero := eq_replicate_of_sum (l := (recut a area (childRects a children area)).map
        (Prod.snd ∘ Rect.span a.isHorizontal)) (by omega)
      rw [hzero, eq_replicate_of_sum hne, hlen]
      simp
    · refine (hback hne).trans ?_
      rw [← List.map_id cells.dropLast, List.map_map]
      exact List.map_congr_left fun d hd => (share_back d (Nat.pos_of_ne_zero hne)).2 (hwhole d hd)

end recut

theorem head_splitWithGaps {isHorizontal : Bool} {sizes : List ℕ} {area r : Rect} {rs : List Rect}
    (h : splitWithGaps isHorizontal sizes area = r :: rs) : r.x = area.x ∧ r.y = area.y := by
  rw [splitWithGaps] at h
  split at h
  · obtain ⟨s, ss, rfl, rfl, -⟩ := List.map_eq_cons_iff.1 h
    exact ⟨rfl, rfl⟩
  · split at h
    · obtain ⟨s, ss, rfl, rfl, -⟩ := List.map_eq_cons_iff.1 h
      exact ⟨rfl, rfl⟩
    · cases sizes with
      | nil => contradiction
      | cons s ss =>
        rw [slices] at h
        obtain ⟨rfl, -⟩ := List.cons.inj h
        cases isHorizontal <;> exact ⟨rfl, rfl⟩

theorem computeRects_ne_nil {n : Node} (h : full n = true) (area : Rect) : computeRects n area ≠ [] := by
  have hpaths := map_fst_computeRects n area
  intro hnil
  rw [hnil] at hpaths
  refine leaves_ne_nil_of_full h ?_
  rw [leaves, List.map_eq_nil_iff.1 hpaths.symm, List.map_nil]

/-- The first pane begins where the area does. -/
theorem head_computeRects {n : Node} (hf : full n = true) {area : Rect} {l : List ℕ × Rect}
    {ls : List (List ℕ × Rect)} (h : computeRects n area = l :: ls) :
    l.2.x = area.x ∧ l.2.y = area.y := by
  induction n using tree_induction generalizing area l ls with
  | leaf p =>
    obtain ⟨rfl, -⟩ := List.cons.inj h
    exact ⟨rfl, rfl⟩
  | split a children ih =>
    obtain ⟨hne, hall⟩ := full_split.1 hf
    obtain ⟨c, cs, rfl⟩ := List.exists_cons_of_ne_nil hne
    rw [computeRects] at h
    cases hr : childRects a (c :: cs) area with
    | nil =>
      have := length_childRects a (c :: cs) area
      rw [hr] at this
      contradiction
    | cons r rs =>
      obtain ⟨k, ks, hk⟩ := List.exists_cons_of_ne_nil (computeRects_ne_nil (hall c List.mem_cons_self) r)
      obtain ⟨hx, hy⟩ := ih c List.mem_cons_self (hall c List.mem_cons_self) hk
      obtain ⟨hx', hy'⟩ := head_splitWithGaps hr
      rw [hr, computeRectsFrom, hk] at h
      obtain ⟨rfl, -⟩ := List.cons.inj h
      exact ⟨hx.trans hx', hy.trans hy'⟩

theorem WellSized.full {n : Node} (h : WellSized n) : PathTree.full n = true := by
  induction n using tree_induction with
  | leaf p => rfl
  | split a children ih =>
    obtain ⟨hown, hall⟩ := wellSized_split.1 h
    refine full_split.2 ⟨List.ne_nil_of_length_pos (by have := hown.two; omega), fun c hc => ih c hc (hall c hc)⟩

section tree
variable {newRect : ℕ → ℕ → ℕ → ℕ → Rect}

theorem shape_restore (n : Node) (area : Rect) : shape (restore newRect n area) = shape n := by
  induction n using tree_induction generalizing area with
  | leaf p => rw [restore]
  | split a children ih =>
    rw [restore_split, shape_split, shape_split, map_zipWith_eq (fun c hc r => ih c hc r) (length_givenRects ..)]

theorem length_computeRects_restore (n : Node) (r r' area : Rect) :
    (computeRects (restore newRect n r) r').length = (computeRects n area).length := by
  have hpaths : (computeRects (restore newRect n r) r').map Prod.fst = (computeRects n area).map Prod.fst := by
    rw [map_fst_computeRects, map_fst_computeRects, collectPanePaths, leavesAt_eq_of_shape (shape_restore n r)]
    rfl
  simpa using congrArg List.length hpaths

/-- The panes of the children are put back child by child. -/
theorem computeRectsFrom_restore (cs : List Node) (i : ℕ) {rs rs' : List Rect} (hrs : rs.length = cs.length)
    (hrs' : rs'.length = cs.length) :
    computeRectsFrom i (List.zipWith (restore newRect) cs rs) rs' = computeRectsFrom i cs rs ↔
      ∀ (j : ℕ) c r r', cs[j]? = some c → rs[j]? = some r → rs'[j]? = some r' →
        computeRects (restore newRect c r) r' = computeRects c r := by
  induction cs generalizing i rs rs' with
  | nil => cases rs <;> cases rs' <;> simp_all [computeRectsFrom]
  | cons c cs ih =>
    cases rs with
    | nil => simp at hrs
    | cons r rs =>
      cases rs' with
      | nil => simp at hrs'
      | cons r' rs' =>
        have hinj : Function.Injective fun l : List ℕ × Rect => (i :: l.1, l.2) := by
          rintro ⟨p, r⟩ ⟨q, s⟩ h
          simpa using h
        have hcancel : ∀ {xs ys us vs : List (List ℕ × Rect)}, xs.length = ys.length →
            (xs ++ us = ys ++ vs ↔ xs = ys ∧ us = vs) := fun hlen =>
          ⟨fun h => List.append_inj h hlen, fun h => by rw [h.1, h.2]⟩
        rw [List.zipWith_cons_cons, computeRectsFrom, computeRectsFrom,
          hcancel (by simp [length_computeRects_restore c r r' r]), (List.map_injective_iff.2 hinj).eq_iff,
          ih (i + 1) (by simpa using hrs) (by simpa using hrs')]
        constructor
        · rintro ⟨hfirst, hrest⟩ j d s s' hd hs hs'
          cases j with
          | zero =>
            obtain rfl : c = d := by simpa using hd
            obtain rfl : r = s := by simpa using hs
            obtain rfl : r' = s' := by simpa using hs'
            exact hfirst
          | succ j => exact hrest j d s s' (by simpa using hd) (by simpa using hs) (by simpa using hs')
        · exact fun h => ⟨h 0 c r r' rfl rfl rfl, fun j d s s' hd hs hs' =>
            h (j + 1) d s s' (by simpa using hd) (by simpa using hs) (by simpa using hs')⟩

theorem givenRects_eq (hnew : Cells.Fitting newRect) {a : Split} {children : List Node} {area : Rect}
    (hs : WellSized (.split a children)) (hsizes : Cells.SizesFit (.split a children))
    (hfits : Cells.Fits area) (hroom : HasRoom (.split a children) area) :
    givenRects newRect a children area = childRects a children area := by
  rw [givenRects, Cells.childRects_eq Overflow.wrapping hnew hs.measured hsizes hfits hroom]
  rfl

theorem layoutSizes_eq_cellShares {kind : LayoutKind} {children : List LayoutNode} {dims : List ℕ}
    (h : dims = children.map fun c => match kind with
      | .horizontal => c.dims.width
      | .vertical => c.dims.height) : layoutSizes kind children = cellShares dims := by
  rw [cellShares, h, List.length_map]
  rfl

/-- The shares in a descriptor are those of the cells. -/
theorem layoutSizes_describe (a : Split) {cs : List Node} {rs : List Rect} (h : rs.length = cs.length) :
    layoutSizes a.kind (List.zipWith (describe newRect) cs rs) = cellShares (cellsOf a rs) := by
  have hdims : ∀ (n : Node) (r : Rect), (describe newRect n r).dims = r.dims := by
    intro n r
    cases n <;> rfl
  apply layoutSizes_eq_cellShares
  obtain ⟨k, sizes⟩ := a
  cases k
  · refine List.ext_getElem (by simp [h, length_cellsOf]) fun i hi hi' => ?_
    simp [hdims, cellsOf, Split.isHorizontal, Rect.dims, Rect.span]
  · refine List.ext_getElem (by simp [h, length_cellsOf]) fun i hi hi' => ?_
    simp [hdims, cellsOf, Split.isHorizontal, Rect.dims, Rect.span]

theorem computeRects_restore_split (hnew : Cells.Fitting newRect) {a : Split} {children : List Node} {area : Rect}
    (hs : WellSized (.split a children)) (hsizes : Cells.SizesFit (.split a children))
    (hfits : Cells.Fits area) (hroom : HasRoom (.split a children) area) :
    computeRects (restore newRect (.split a children) area) area =
      computeRectsFrom 0 (List.zipWith (restore newRect) children (childRects a children area))
        (recut a area (childRects a children area)) := by
  have hrecut : childRects ⟨a.kind, cellShares (cellsOf a (childRects a children area))⟩
      (List.zipWith (restore newRect) children (childRects a children area)) area =
        recut a area (childRects a children area) := by
    rw [childRects, effectiveSizes, if_pos]
    · rfl
    · simp only [length_cellShares, length_cellsOf, List.length_zipWith, length_childRects, min_self]
  rw [restore_split, givenRects_eq hnew hs hsizes hfits hroom,
    layoutSizes_describe a (length_childRects a children area), computeRects, hrecut]

/-- A restore leaves every rectangle as it was just where cells are whole percentages. -/
theorem computeRects_restore_iff (hnew : Cells.Fitting newRect) {n : Node} (hs : WellSized n)
    (hsizes : Cells.SizesFit n) {area : Rect} (hfits : Cells.Fits area) (hroom : HasRoom n area) :
    computeRects (restore newRect n area) area = computeRects n area ↔ WholeCells n area := by
  induction n using tree_induction generalizing area with
  | leaf p => exact iff_of_true (by rw [restore]) (everySplit_leaf _ p area)
  | split a children ih =>
    have hlen := length_childRects a children area
    have hbelow : ∀ (j : ℕ) c r, children[j]? = some c → (childRects a children area)[j]? = some r →
        (computeRects (restore newRect c r) r = computeRects c r ↔ WholeCells c r) := fun j c r hc hr =>
      ih c (List.mem_of_getElem? hc) ((wellSized_split.1 hs).2 c (List.mem_of_getElem? hc))
        ((allSplits_split.1 hsizes).2 c (List.mem_of_getElem? hc))
        (hfits.inside (inside_childRects hs.measured hroom (List.mem_of_getElem? hr))) (hroom.child hc hr)
    rw [computeRects_restore_split hnew hs hsizes hfits hroom, computeRects,
      computeRectsFrom_restore children 0 hlen (by rw [length_recut, hlen]), WholeCells, everySplit_split]
    constructor
    · intro h
      have hstarts : (recut a area (childRects a children area)).map (fun r => (r.span a.isHorizontal).1) =
          (childRects a children area).map fun r => (r.span a.isHorizontal).1 := by
        refine List.ext_getElem (by simp) fun i hi hi' => ?_
        simp only [List.length_map] at hi hi'
        have hc := List.getElem?_eq_getElem (l := children) (i := i) (by omega)
        have heq := h i _ _ _ hc (List.getElem?_eq_getElem hi') (List.getElem?_eq_getElem hi)
        have hfull := (full_split.1 hs.full).2 _ (List.mem_of_getElem? hc)
        obtain ⟨l, ls, hl⟩ := List.exists_cons_of_ne_nil
          (computeRects_ne_nil hfull (childRects a children area)[i])
        obtain ⟨hx, hy⟩ := head_computeRects hfull hl
        have hfull' : full (restore newRect children[i] (childRects a children area)[i]) = true := by
          rw [← full_shape, shape_restore, full_shape]
          exact hfull
        obtain ⟨hx', hy'⟩ := head_computeRects hfull' (heq.trans hl)
        rw [List.getElem_map, List.getElem_map]
        exact span_start _ (hx'.symm.trans hx) (hy'.symm.trans hy)
      have hsame := recut_eq_of_starts hs hroom hstarts
      refine ⟨(recut_eq_iff hs hroom).1 hsame, fun j c r hc hr => (hbelow j c r hc hr).1 ?_⟩
      exact h j c r r hc hr (by rw [hsame]; exact hr)
    · rintro ⟨hown, hall⟩ j c r r' hc hr hr'
      rw [(recut_eq_iff hs hroom).2 hown] at hr'
      obtain rfl := Option.some.inj (hr.symm.trans hr')
      exact (hbelow j c r hc hr).2 (hall j c r hc hr)

end tree

/-- A layout string is none of the named layouts: its fifth byte is a comma. -/
theorem namedLayout_generate (newRect : ℕ → ℕ → ℕ → ℕ → Rect) (options : Options) (n : Node) (area : Rect)
    (panes : List Node) :
    namedLayout options (toAsciiLowercase (generateWindowLayout newRect n area)) panes = none := by
  have hcomma : (toAsciiLowercase (generateWindowLayout newRect n area))[4]? = some 0x2c := by
    rw [toAsciiLowercase, List.getElem?_map]
    rfl
  have hne : ∀ {name : String}, (utf8 name)[4]? ≠ some 0x2c →
      toAsciiLowercase (generateWindowLayout newRect n area) ≠ utf8 name := by
    intro name h he
    rw [he] at hcomma
    exact h hcomma
  simp only [namedLayout, hne (show (utf8 "even-horizontal")[4]? ≠ some 0x2c by decide),
    hne (show (utf8 "even-h")[4]? ≠ some 0x2c by decide),
    hne (show (utf8 "even-vertical")[4]? ≠ some 0x2c by decide),
    hne (show (utf8 "even-v")[4]? ≠ some 0x2c by decide),
    hne (show (utf8 "main-horizontal")[4]? ≠ some 0x2c by decide),
    hne (show (utf8 "main-h")[4]? ≠ some 0x2c by decide),
    hne (show (utf8 "main-vertical")[4]? ≠ some 0x2c by decide),
    hne (show (utf8 "main-v")[4]? ≠ some 0x2c by decide),
    hne (show (utf8 "tiled")[4]? ≠ some 0x2c by decide), decide_false, Bool.or_self, Bool.false_eq_true, if_false]

theorem Cells.Fits.isU16 {area : Rect} (h : Cells.Fits area) : area.IsU16 where
  x := (Nat.le_add_right _ _).trans_lt h.1
  y := (Nat.le_add_right _ _).trans_lt h.2
  width := (Nat.le_add_left _ _).trans_lt h.1
  height := (Nat.le_add_left _ _).trans_lt h.2

variable {newRect : ℕ → ℕ → ℕ → ℕ → Rect}

theorem applyLayout_generate (hnew : ∀ x y width height, (newRect x y width height).IsU16) (options : Options)
    {w : Window} (htwo : 2 ≤ countPanes w.root) (hids : ∀ p ∈ leaves w.root, p.id < 2 ^ 64) {area : Rect}
    (harea : area.IsU16) :
    (applyLayout options (generateWindowLayout newRect w.root area) w).root =
      restore newRect w.root area := by
  have hlen : ¬(collectLeaves w.root).length < 2 := by
    rw [collectLeaves, List.length_map]
    exact not_lt.2 htwo
  have hpanes := @layoutNodeToNode_describe newRect w.root area []
  rw [List.append_nil] at hpanes
  rw [applyLayout]
  simp only [if_neg hlen, layoutRoot, namedLayout_generate, parseTmuxLayoutString,
    parseLayoutString_generate hnew hids harea, hpanes]

/-- A window's own layout string puts every pane back in its place, and on its cells just where
each child but the last has a whole number of percent of the cells of its split. -/
theorem applyLayout_own (hnew : ∀ x y width height, (newRect x y width height).IsU16)
    (hfitting : Cells.Fitting newRect) (options : Options) {w : Window} (hs : WellSized w.root)
    (hsizes : Cells.SizesFit w.root) (hids : ∀ p ∈ leaves w.root, p.id < 2 ^ 64)
    (htwo : 2 ≤ countPanes w.root) {area : Rect} (hfits : Cells.Fits area) (hroom : HasRoom w.root area) :
    let restored := (applyLayout options (generateWindowLayout newRect w.root area) w).root
    restored.map Split.kind id = w.root.map Split.kind id ∧
      (computeRects restored area = computeRects w.root area ↔ WholeCells w.root area) := by
  simp only [applyLayout_generate hnew options htwo hids hfits.isU16]
  exact ⟨map_restore w.root area, computeRects_restore_iff hfitting hs hsizes hfits hroom⟩

section sample

/-- Two panes side by side. -/
def sideBySide (left right : ℕ) : Window where
  id := 0
  root := .split ⟨.horizontal, [left, right]⟩ [.leaf ⟨1, false⟩, .leaf ⟨2, false⟩]
  activePath := [0]
  layoutIndex := 0
  paneMru := []
  zoomSaved := none

def clampedRect (x y width height : ℕ) : Rect :=
  ⟨x % 65536, y % 65536, min (x + width) 65535 - x, min (y + height) 65535 - y⟩

def plainOptions : Options := ⟨0, 0, 0, 0, false⟩

/-- Of 101 columns, 100 for panes, half are a whole number of percent. -/
theorem applyLayout_own_hundred :
    computeRects (applyLayout plainOptions
        (generateWindowLayout clampedRect (sideBySide 50 50).root ⟨0, 0, 101, 24⟩) (sideBySide 50 50)).root
        ⟨0, 0, 101, 24⟩ =
      computeRects (sideBySide 50 50).root ⟨0, 0, 101, 24⟩ := by
  refine (@applyLayout_own clampedRect ?_ ?_ plainOptions (sideBySide 50 50) ?_ ?_ ?_ ?_ _ ?_ ?_).2.2 ?_
  · intro x y width height
    refine ⟨Nat.mod_lt _ (by decide), Nat.mod_lt _ (by decide), ?_, ?_⟩ <;> simp only [clampedRect] <;> omega
  · intro x y width height hx hy
    simp only [clampedRect, Rect.mk.injEq]
    omega
  · exact wellSized_split.2 ⟨sized_pair .horizontal (by decide), by simp⟩
  · simp [Cells.SizesFit, sideBySide, allSplits_split]
  · simp [sideBySide]
  · decide
  · simp [Cells.Fits]
  · decide
  · decide

/-- Of 80 columns, 79 for panes, the left pane has 39 before and 38 after. -/
theorem applyLayout_own_loses_a_cell :
    (WellSized (sideBySide 50 50).root ∧ HasRoom (sideBySide 50 50).root ⟨0, 0, 80, 24⟩) ∧
      computeRects (sideBySide 50 50).root ⟨0, 0, 80, 24⟩ =
        [([0], ⟨0, 0, 39, 24⟩), ([1], ⟨40, 0, 40, 24⟩)] ∧
      computeRects (applyLayout plainOptions
        (generateWindowLayout clampedRect (sideBySide 50 50).root ⟨0, 0, 80, 24⟩) (sideBySide 50 50)).root
        ⟨0, 0, 80, 24⟩ = [([0], ⟨0, 0, 38, 24⟩), ([1], ⟨39, 0, 41, 24⟩)] :=
  ⟨⟨wellSized_split.2 ⟨sized_pair .horizontal (by decide), by simp⟩, by decide⟩, by decide, by decide +kernel⟩

end sample

end Winsmux.Layout
