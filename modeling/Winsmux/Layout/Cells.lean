import Winsmux.Overflow
import Winsmux.Layout.Tiling

/-!
# Cells in sixteen bits

The rectangles and the borders as the program computes them, in numbers of 16 and of 32
bits: what a result that does not fit becomes is a parameter, and so is the library's
constructor of a rectangle. Where every split has room, no result is too large, and what
is computed is what exact arithmetic gives.
-/
namespace Winsmux.Layout.Cells
open PathTree

variable {m : Type → Type} [Monad m] (o : Overflow m) (newRect : ℕ → ℕ → ℕ → ℕ → Rect)

/-- The constructor of rectangles leaves those alone that end within 16 bits. -/
def Fitting (newRect : ℕ → ℕ → ℕ → ℕ → Rect) : Prop :=
  ∀ x y width height, x + width < 2 ^ 16 → y + height < 2 ^ 16 →
    newRect x y width height = ⟨x, y, width, height⟩

/-- The cells of the last child and of one before it. -/
def childSize (totalAvailable totalPct offset pct : ℕ) (isLast : Bool) : m ℕ :=
  if isLast then pure (totalAvailable - offset)
  else do
    let product ← o.u32 (totalAvailable * pct)
    pure (u16 (product / totalPct))

def childRect (isHorizontal : Bool) (area : Rect) (i offset size : ℕ) : m Rect :=
  if isHorizontal then do
    let x ← o.u16 (area.x + offset)
    let x ← o.u16 (x + u16 i)
    pure (newRect x area.y size area.height)
  else do
    let y ← o.u16 (area.y + offset)
    let y ← o.u16 (y + u16 i)
    pure (newRect area.x y area.width size)

def slices (isHorizontal : Bool) (area : Rect) (totalAvailable totalPct : ℕ) :
    ℕ → ℕ → List ℕ → m (List Rect)
  | _, _, [] => pure []
  | i, offset, pct :: rest => do
    let size ← childSize o totalAvailable totalPct offset pct rest.isEmpty
    let rect ← childRect o newRect isHorizontal area i offset size
    let offset ← o.u16 (offset + size)
    let rects ← slices isHorizontal area totalAvailable totalPct (i + 1) offset rest
    pure (rect :: rects)

def splitWithGaps (isHorizontal : Bool) (sizes : List ℕ) (area : Rect) : m (List Rect) :=
  if sizes.length ≤ 1 then pure (sizes.map fun _ => area)
  else do
    let gaps := u16 (sizes.length - 1)
    let totalAvailable := (if isHorizontal then area.width else area.height) - gaps
    let totalPct ← o.sumU32 sizes
    if totalPct = 0 then pure (sizes.map fun _ => area)
    else slices o newRect isHorizontal area totalAvailable totalPct 0 0 sizes

def childRects (a : Split) (children : List Node) (area : Rect) : m (List Rect) :=
  splitWithGaps o newRect a.isHorizontal (effectiveSizes a children) area

mutual

def computeRects : Node → Rect → m (List (List ℕ × Rect))
  | .leaf _, area => pure [([], area)]
  | .split a children, area => do
    let rects ← childRects o newRect a children area
    computeRectsFrom 0 children rects

def computeRectsFrom (i : ℕ) : List Node → List Rect → m (List (List ℕ × Rect))
  | c :: cs, r :: rs => do
    let first ← computeRects c r
    let rest ← computeRectsFrom (i + 1) cs rs
    pure (first.map (fun l => (i :: l.1, l.2)) ++ rest)
  | _, _ => pure []

end

/-- The borders of one split. -/
def ownBorders (a : Split) (area : Rect) (rects : List Rect) : m (List Border) :=
  (rects.zipIdx).mapM fun (r, i) => do
    let pos ← match a.kind with
      | .horizontal => o.u16 (r.x + r.width)
      | .vertical => o.u16 (r.y + r.height)
    pure ⟨[], a.kind, i, pos, if a.isHorizontal then area.width else area.height⟩

mutual

def computeSplitBorders : Node → Rect → m (List Border)
  | .leaf _, _ => pure []
  | .split a children, area => do
    let rects ← childRects o newRect a children area
    let own ← ownBorders o a area (rects.take (children.length - 1))
    let below ← computeSplitBordersFrom 0 children rects
    pure (own ++ below)

def computeSplitBordersFrom (i : ℕ) : List Node → List Rect → m (List Border)
  | c :: cs, r :: rs => do
    let first ← computeSplitBorders c r
    let rest ← computeSplitBordersFrom (i + 1) cs rs
    pure (first.map (fun b => { b with path := i :: b.path }) ++ rest)
  | _, _ => pure []

end

/-- A rectangle that ends within 16 bits. -/
def Fits (area : Rect) : Prop := area.x + area.width < 2 ^ 16 ∧ area.y + area.height < 2 ^ 16

/-- The sizes of the splits are numbers of 16 bits. -/
def SizesFit (n : Node) : Prop := AllSplits (fun a _ => ∀ s ∈ a.sizes, s < 2 ^ 16) n

theorem u16_of_lt {n : ℕ} (h : n < 2 ^ 16) : u16 n = n := Nat.mod_eq_of_lt h

variable {newRect} [LawfulMonad m]

theorem side_lt {area : Rect} (hfits : Fits area) (isHorizontal : Bool) :
    (area.span isHorizontal).1 + (area.span isHorizontal).2 < 2 ^ 16 := by
  cases isHorizontal
  · exact hfits.2
  · exact hfits.1

theorem childSize_eq {available total offset pct : ℕ} (isLast : Bool) (ha : available < 2 ^ 16)
    (hp : pct < 2 ^ 16) (hsize : available * pct / total ≤ available) :
    childSize o available total offset pct isLast =
      pure (if isLast then available - offset else available * pct / total) := by
  have hproduct : available * pct < 2 ^ 32 := by
    calc available * pct
        _ ≤ 2 ^ 16 * pct := Nat.mul_le_mul_right pct ha.le
        _ < 2 ^ 16 * 2 ^ 16 := Nat.mul_lt_mul_of_pos_left hp (by norm_num)
        _ = 2 ^ 32 := by norm_num
  rw [childSize]
  cases isLast
  · simp only [Bool.false_eq_true, if_false]
    rw [o.u32_of_lt hproduct, pure_bind, u16_of_lt (hsize.trans_lt ha)]
  · rfl

theorem childRect_eq (hnew : Fitting newRect) {isHorizontal : Bool} {area : Rect} (hfits : Fits area)
    {i offset size : ℕ} (h : offset + size + i ≤ (area.span isHorizontal).2) :
    childRect o newRect isHorizontal area i offset size =
      pure (if isHorizontal then { area with x := area.x + offset + i, width := size }
        else { area with y := area.y + offset + i, height := size }) := by
  have hside := side_lt hfits isHorizontal
  obtain ⟨hx, hy⟩ := hfits
  rw [childRect]
  cases isHorizontal <;> simp only [Rect.span, if_true, Bool.false_eq_true, if_false] at h hside ⊢
  · rw [o.u16_of_lt (by omega), pure_bind, u16_of_lt (by omega : i < 2 ^ 16), o.u16_of_lt (by omega),
      pure_bind, hnew _ _ _ _ hx (by omega)]
  · rw [o.u16_of_lt (by omega), pure_bind, u16_of_lt (by omega : i < 2 ^ 16), o.u16_of_lt (by omega),
      pure_bind, hnew _ _ _ _ (by omega) hy]

theorem slices_eq (hnew : Fitting newRect) {isHorizontal : Bool} {area : Rect} (hfits : Fits area)
    {available total : ℕ} (ht : 0 < total) :
    ∀ (sizes : List ℕ) (i offset : ℕ), (∀ s ∈ sizes, s < 2 ^ 16) →
      available + i + (sizes.length - 1) ≤ (area.span isHorizontal).2 → offset ≤ available →
      offset * total + available * sizes.sum ≤ available * total →
      slices o newRect isHorizontal area available total i offset sizes =
        pure (Layout.slices isHorizontal area available total i offset sizes)
  | [], _, _, _, _, _, _ => by rw [slices, Layout.slices]
  | pct :: rest, i, offset, hsizes, hroom, hoffset, hle => by
    obtain ⟨hpct, hrest⟩ := List.forall_mem_cons.1 hsizes
    have hside := side_lt hfits isHorizontal
    have hdiv : (available * pct / total) * total ≤ available * pct := Nat.div_mul_le_self _ _
    have hlast : decide (rest = []) = rest.isEmpty := by cases rest <;> rfl
    have hsum : (offset + available * pct / total) * total + available * rest.sum ≤ available * total := by
      rw [List.sum_cons] at hle
      calc (offset + available * pct / total) * total + available * rest.sum
          _ = offset * total + (available * pct / total) * total + available * rest.sum := by
            rw [Nat.add_mul]
          _ ≤ offset * total + available * pct + available * rest.sum := by omega
          _ = offset * total + available * (pct + rest.sum) := by ring
          _ ≤ available * total := hle
    have hfit : offset + available * pct / total ≤ available :=
      Nat.le_of_mul_le_mul_right ((Nat.le_add_right _ _).trans hsum) ht
    have hsize : childSize o available total offset pct rest.isEmpty =
        pure (if rest = [] then available - offset else available * pct / total) := by
      rw [childSize_eq o _ (by omega) hpct ((Nat.le_add_left _ _).trans hfit), ← hlast]
      simp only [decide_eq_true_eq]
    have hnext : offset + (if rest = [] then available - offset else available * pct / total) ≤ available := by
      split
      · omega
      · exact hfit
    rw [slices, Layout.slices, hsize, pure_bind]
    generalize hs : (if rest = [] then available - offset else available * pct / total) = size at hnext ⊢
    have hrest : slices o newRect isHorizontal area available total (i + 1) (offset + size) rest =
        pure (Layout.slices isHorizontal area available total (i + 1) (offset + size) rest) := by
      by_cases hr : rest = []
      · rw [hr, slices, Layout.slices]
      · have hpos := List.length_pos_of_ne_nil hr
        rw [if_neg hr] at hs
        rw [List.length_cons] at hroom
        refine slices_eq hnew hfits ht rest (i + 1) (offset + size) hrest (by omega) hnext ?_
        rw [← hs]
        exact hsum
    rw [childRect_eq o hnew hfits (by omega), pure_bind, o.u16_of_lt (by omega), pure_bind, hrest, pure_bind]

theorem sum_lt {sizes : List ℕ} (hlen : sizes.length ≤ 2 ^ 16) (h : ∀ s ∈ sizes, s < 2 ^ 16) :
    sizes.sum < 2 ^ 32 := by
  have hle : sizes.sum ≤ sizes.length * (2 ^ 16 - 1) :=
    List.sum_le_card_nsmul sizes (2 ^ 16 - 1) fun s hs => Nat.le_sub_one_of_lt (h s hs)
  calc sizes.sum
      _ ≤ sizes.length * (2 ^ 16 - 1) := hle
      _ ≤ 2 ^ 16 * (2 ^ 16 - 1) := Nat.mul_le_mul_right _ hlen
      _ < 2 ^ 32 := by norm_num

theorem splitWithGaps_eq (hnew : Fitting newRect) {isHorizontal : Bool} {sizes : List ℕ} {area : Rect}
    (hfits : Fits area) (hsizes : ∀ s ∈ sizes, s < 2 ^ 16)
    (hroom : sizes.length - 1 ≤ (area.span isHorizontal).2) :
    splitWithGaps o newRect isHorizontal sizes area = pure (Layout.splitWithGaps isHorizontal sizes area) := by
  have hside := side_lt hfits isHorizontal
  rw [splitWithGaps, Layout.splitWithGaps]
  split
  · rfl
  · rw [o.sumU32_of_lt (sum_lt (by omega) hsizes), pure_bind, u16_of_lt (by omega)]
    split
    · rfl
    · next hlen hsum =>
      refine slices_eq o hnew hfits (Nat.pos_of_ne_zero hsum) sizes 0 0 hsizes ?_ (Nat.zero_le _) (by simp)
      cases isHorizontal <;> simp only [Rect.span, if_true, Bool.false_eq_true, if_false] at hroom ⊢ <;> omega

/-- A rectangle within one that fits fits. -/
theorem Fits.inside {r area : Rect} (h : Fits area) (hr : r.Inside area) : Fits r :=
  ⟨hr.2.1.trans_lt h.1, hr.2.2.2.trans_lt h.2⟩

variable {a : Split} {children : List Node} {area : Rect}

theorem childRects_eq (hnew : Fitting newRect) (hm : Measured (.split a children))
    (hs : SizesFit (.split a children)) (hfits : Fits area) (hroom : HasRoom (.split a children) area) :
    childRects o newRect a children area = pure (Layout.childRects a children area) := by
  have heff := hm.root.1
  have hlen := (allSplits_split.1 hm).1.1
  rw [childRects, Layout.childRects, heff]
  refine splitWithGaps_eq o hnew hfits (allSplits_split.1 hs).1 ?_
  rw [hlen]
  exact hroom.root

theorem computeRects_eq (hnew : Fitting newRect) {n : Node} (hm : Measured n) (hs : SizesFit n)
    (hfits : Fits area) (hroom : HasRoom n area) :
    computeRects o newRect n area = pure (Layout.computeRects n area) := by
  induction n using tree_induction generalizing area with
  | leaf p => rw [computeRects, Layout.computeRects]
  | split a children ih =>
    have hfrom : ∀ (cs : List Node) (rs : List Rect) (i : ℕ),
        (∀ (j : ℕ) c r, cs[j]? = some c → rs[j]? = some r →
          computeRects o newRect c r = pure (Layout.computeRects c r)) →
        computeRectsFrom o newRect i cs rs = pure (Layout.computeRectsFrom i cs rs) := by
      intro cs
      induction cs with
      | nil => intro rs i _; rw [computeRectsFrom, Layout.computeRectsFrom] <;> simp
      | cons c cs ihcs =>
        intro rs i hall
        cases rs with
        | nil => rw [computeRectsFrom, Layout.computeRectsFrom] <;> simp
        | cons r rs =>
          rw [computeRectsFrom, Layout.computeRectsFrom, hall 0 c r rfl rfl, pure_bind,
            ihcs rs (i + 1) fun j d s hd hs => hall (j + 1) d s (by simpa using hd) (by simpa using hs),
            pure_bind]
    rw [computeRects, Layout.computeRects, childRects_eq o hnew hm hs hfits hroom, pure_bind]
    refine hfrom children _ 0 fun j c r hc hr => ?_
    exact ih c (List.mem_of_getElem? hc) (hm.child hc) ((allSplits_split.1 hs).2 c (List.mem_of_getElem? hc))
      (hfits.inside (inside_childRects hm hroom (List.mem_of_getElem? hr))) (hroom.child hc hr)

theorem mapM_eq_pure {α β : Type} {f : α → m β} {g : α → β} {l : List α} (h : ∀ x ∈ l, f x = pure (g x)) :
    l.mapM f = pure (l.map g) := by
  induction l with
  | nil => rfl
  | cons x l ih =>
    obtain ⟨hx, hl⟩ := List.forall_mem_cons.1 h
    rw [List.mapM_cons, hx, pure_bind, ih hl, pure_bind, List.map_cons]

theorem ownBorders_eq {rects : List Rect} (h : ∀ r ∈ rects, Fits r) :
    ownBorders o a area rects = pure (rects.mapIdx fun i r =>
      Border.mk [] a.kind i ((r.span a.isHorizontal).1 + (r.span a.isHorizontal).2)
        (area.span a.isHorizontal).2) := by
  rw [ownBorders, List.mapIdx_eq_zipIdx_map]
  refine mapM_eq_pure fun l hl => ?_
  have hr := h l.1 (List.fst_mem_of_mem_zipIdx hl)
  cases hk : a.kind
  · simp [Split.isHorizontal, hk, Rect.span, o.u16_of_lt hr.1]
  · simp [Split.isHorizontal, hk, Rect.span, o.u16_of_lt hr.2]

theorem computeSplitBorders_eq (hnew : Fitting newRect) {n : Node} (hm : Measured n) (hs : SizesFit n)
    (hfits : Fits area) (hroom : HasRoom n area) :
    computeSplitBorders o newRect n area = pure (Layout.computeSplitBorders n area) := by
  induction n using tree_induction generalizing area with
  | leaf p => rw [computeSplitBorders, Layout.computeSplitBorders]
  | split a children ih =>
    have hfrom : ∀ (cs : List Node) (rs : List Rect) (i : ℕ),
        (∀ (j : ℕ) c r, cs[j]? = some c → rs[j]? = some r →
          computeSplitBorders o newRect c r = pure (Layout.computeSplitBorders c r)) →
        computeSplitBordersFrom o newRect i cs rs = pure (Layout.computeSplitBordersFrom i cs rs) := by
      intro cs
      induction cs with
      | nil => intro rs i _; rw [computeSplitBordersFrom, Layout.computeSplitBordersFrom] <;> simp
      | cons c cs ihcs =>
        intro rs i hall
        cases rs with
        | nil => rw [computeSplitBordersFrom, Layout.computeSplitBordersFrom] <;> simp
        | cons r rs =>
          rw [computeSplitBordersFrom, Layout.computeSplitBordersFrom, hall 0 c r rfl rfl, pure_bind,
            ihcs rs (i + 1) fun j d s hd hs => hall (j + 1) d s (by simpa using hd) (by simpa using hs),
            pure_bind]
    have hchild : ∀ r ∈ Layout.childRects a children area, Fits r :=
      fun r hr => hfits.inside (inside_childRects hm hroom hr)
    rw [computeSplitBorders, computeSplitBorders_split, childRects_eq o hnew hm hs hfits hroom, pure_bind,
      List.dropLast_eq_take, length_childRects,
      ownBorders_eq o fun r hr => hchild r (List.mem_of_mem_take hr), pure_bind,
      hfrom children _ 0 fun j c r hc hr => ?_, pure_bind]
    exact ih c (List.mem_of_getElem? hc) (hm.child hc) ((allSplits_split.1 hs).2 c (List.mem_of_getElem? hc))
      (hchild r (List.mem_of_getElem? hr)) (hroom.child hc hr)

variable {n : Node}

/-- The panes' rectangles and the lines between them cut the area up: nothing overflows, each
pane has one rectangle and each split one line between every two neighbours, and each cell
belongs to one pane or to one line. -/
theorem rects_tile_area (hnew : Fitting newRect) (hm : Measured n) (hs : SizesFit n) (hfits : Fits area)
    (hroom : HasRoom n area) :
    (computeRects o newRect n area = pure (Layout.computeRects n area) ∧
      computeSplitBorders o newRect n area = pure (Layout.computeSplitBorders n area)) ∧
    ((Layout.computeRects n area).map Prod.fst = (leavesAt n).map Prod.fst ∧
      ((Layout.computeRects n area).map Prod.fst).Nodup) ∧
    (∀ l ∈ Layout.computeRects n area, l.2.Inside area) ∧
    ((Layout.computeRects n area).Pairwise fun k l =>
      ∀ x y, ¬(k.2.contains x y = true ∧ l.2.contains x y = true)) ∧
    (∀ path a children, at? n path = some (.split a children) →
      ((Layout.computeSplitBorders n area).filter (·.path = path)).map (fun b => (b.kind, b.index)) =
        (List.range (children.length - 1)).map fun i => (a.kind, i)) ∧
    (∀ b ∈ Layout.computeSplitBorders n area, b.Separates n area) ∧
    ∀ x y, area.contains x y = true →
      (Layout.computeRects n area).countP (fun l => l.2.contains x y) +
        (Layout.computeSplitBorders n area).countP (onSeparator n area x y) = 1 := by
  have hcovers : ∀ x y, (Layout.computeRects n area).countP (fun l => l.2.contains x y) +
      (Layout.computeSplitBorders n area).countP (onSeparator n area x y) =
        if area.contains x y then 1 else 0 := covers_eq hm hroom
  refine ⟨⟨computeRects_eq o hnew hm hs hfits hroom, computeSplitBorders_eq o hnew hm hs hfits hroom⟩,
    ⟨map_fst_computeRects n area, ?_⟩, fun l hl => rectAt_inside hm hroom (rectAt_of_mem hl), ?_,
    fun path a children h => filter_computeSplitBorders h, separates hm hroom, fun x y hxy => ?_⟩
  · rw [map_fst_computeRects]
    exact nodup_paths n
  · have hpairs := pairwise_of_countP_le_one (l := Layout.computeRects n area)
      (P := fun (z : ℕ × ℕ) l => l.2.contains z.1 z.2) fun z => by
        have := hcovers z.1 z.2
        split at this <;> omega
    exact hpairs.imp fun h x y => h (x, y)
  · rw [hcovers, if_pos hxy]

/-- Three panes, one beside two stacked ones, on a screen of nine by five cells. -/
theorem rects_tile_area_three :
    let n : Node := .split ⟨.horizontal, [50, 50]⟩
      [.leaf ⟨1, false⟩, .split ⟨.vertical, [30, 70]⟩ [.leaf ⟨2, false⟩, .leaf ⟨3, false⟩]]
    let newRect := fun x y width height : ℕ =>
      (⟨x, y, min (x + width) 65535 - x, min (y + height) 65535 - y⟩ : Rect)
    computeRects Overflow.checked newRect n ⟨0, 0, 9, 5⟩ = some (Layout.computeRects n ⟨0, 0, 9, 5⟩) := by
  refine (rects_tile_area Overflow.checked ?_ ?_ ?_ ?_ ?_).1.1
  · intro x y width height hx hy
    simp only [Rect.mk.injEq, true_and]
    omega
  · simp [Measured, allSplits_split]
  · simp [SizesFit, allSplits_split]
  · simp [Fits]
  · decide

end Winsmux.Layout.Cells
