import Winsmux.Row
import Winsmux.Layout.Geometry

/-!
# Panes and separators fill the screen

The rectangles of the panes and the lines between them cut a window's area up: every
cell of it belongs to one pane or to one separator. A split cuts its rectangle into a row
along one axis, and a row of rectangles fills it when a row of segments fills that axis.
-/
namespace Winsmux.Layout
open PathTree

/-- The cells a rectangle takes along an axis: the first and how many. -/
def Rect.span (isHorizontal : Bool) (r : Rect) : ℕ × ℕ :=
  if isHorizontal then (r.x, r.width) else (r.y, r.height)

def Split.isHorizontal (a : Split) : Bool := a.kind = .horizontal

/-- The rectangle that the node at a path is given. -/
@[grind =] def rectAt : Node → Rect → List ℕ → Option Rect
  | _, area, [] => some area
  | .leaf _, _, _ :: _ => none
  | .split a children, area, i :: path =>
    match children[i]?, (childRects a children area)[i]? with
    | some c, some r => rectAt c r path
    | _, _ => none

/-- `P` holds of every split and the rectangle it is given. -/
def EverySplit (P : Split → List Node → Rect → Prop) (n : Node) (area : Rect) : Prop :=
  ∀ path a children r, at? n path = some (.split a children) → rectAt n area path = some r →
    P a children r

/-- Every split has as many cells along its axis as separators, or more. -/
def HasRoom : Node → Rect → Prop :=
  EverySplit fun a children r => children.length - 1 ≤ (r.span a.isHorizontal).2

/-- Every split has one size for each child, and one that is not zero. -/
def Measured (n : Node) : Prop :=
  AllSplits (fun a k => a.sizes.length = k ∧ ∃ s ∈ a.sizes, s ≠ 0) n

/-- The cells of a border's line, which runs through the rectangle of its split. -/
def Border.onLine (b : Border) (r : Rect) (x y : ℕ) : Bool :=
  match b.kind with
  | .horizontal => x = b.pos && Row.within y (r.y, r.height)
  | .vertical => y = b.pos && Row.within x (r.x, r.width)

/-- Whether a cell lies on the line of a border of a tree. -/
def onSeparator (n : Node) (area : Rect) (x y : ℕ) (b : Border) : Bool :=
  (rectAt n area b.path).any fun r => b.onLine r x y

/-- A coordinate along an axis and the one across. -/
def along (isHorizontal : Bool) (x y : ℕ) : ℕ := if isHorizontal then x else y

theorem contains_iff (isHorizontal : Bool) (r : Rect) (x y : ℕ) :
    r.contains x y = (Row.within (along isHorizontal x y) (r.span isHorizontal) &&
      Row.within (along (!isHorizontal) x y) (r.span (!isHorizontal))) := by
  cases isHorizontal
  · simp only [Rect.contains, Row.within, along, Rect.span, Bool.not_false, if_true,
      Bool.false_eq_true, if_false]
    grind
  · simp only [Rect.contains, Row.within, along, Rect.span, Bool.not_true, if_true,
      Bool.false_eq_true, if_false]
    grind

/-- What stands left of the rest never takes more than there is. -/
theorem row_slices (isHorizontal : Bool) (area : Rect) {available total : ℕ} (ht : 0 < total) :
    ∀ (sizes : List ℕ) (i offset : ℕ), sizes ≠ [] →
      offset * total + available * sizes.sum ≤ available * total →
      Row ((area.span isHorizontal).1 + offset + i) (available - offset + (sizes.length - 1))
        ((slices isHorizontal area available total i offset sizes).map (Rect.span isHorizontal))
  | [], _, _, hne, _ => absurd rfl hne
  | [pct], i, offset, _, _ => by
    rw [slices, slices]
    cases isHorizontal <;> exact Row.last _ _
  | pct :: q :: rest, i, offset, _, hle => by
    have hsize : (available * pct / total) * total ≤ available * pct := Nat.div_mul_le_self _ _
    rw [slices, if_neg (List.cons_ne_nil q rest)]
    generalize available * pct / total = size at hsize ⊢
    have hnext : (offset + size) * total + available * (q :: rest).sum ≤ available * total := by
      rw [List.sum_cons] at hle
      calc (offset + size) * total + available * (q :: rest).sum
          _ = offset * total + size * total + available * (q :: rest).sum := by rw [Nat.add_mul]
          _ ≤ offset * total + available * pct + available * (q :: rest).sum := by omega
          _ = offset * total + available * (pct + (q :: rest).sum) := by ring
          _ ≤ available * total := hle
    have hfit : offset + size ≤ available :=
      Nat.le_of_mul_le_mul_right ((Nat.le_add_right _ _).trans hnext) ht
    have hrow := row_slices isHorizontal area ht (q :: rest) (i + 1) (offset + size)
      (List.cons_ne_nil q rest) hnext
    have hstart : (area.span isHorizontal).1 + (offset + size) + (i + 1) =
        (area.span isHorizontal).1 + offset + i + size + 1 := by omega
    have hlen : available - offset + ((pct :: q :: rest).length - 1) =
        size + 1 + (available - (offset + size) + ((q :: rest).length - 1)) := by
      simp only [List.length_cons]
      omega
    rw [hstart] at hrow
    rw [hlen]
    cases isHorizontal <;> exact Row.cons hrow

theorem across_slices (isHorizontal : Bool) (area : Rect) (available total : ℕ) :
    ∀ (sizes : List ℕ) (i offset : ℕ),
      ∀ r ∈ slices isHorizontal area available total i offset sizes,
        r.span (!isHorizontal) = area.span (!isHorizontal)
  | [], _, _, r, hr => by simp [slices] at hr
  | pct :: rest, i, offset, r, hr => by
    rw [slices] at hr
    obtain rfl | hr := List.mem_cons.1 hr
    · cases isHorizontal <;> rfl
    · exact across_slices isHorizontal area available total rest _ _ r hr

/-- The children of a split stand in a row along its axis. -/
theorem row_splitWithGaps {isHorizontal : Bool} {sizes : List ℕ} {area : Rect}
    (hne : ∃ s ∈ sizes, s ≠ 0) (hroom : sizes.length - 1 ≤ (area.span isHorizontal).2) :
    Row (area.span isHorizontal).1 (area.span isHorizontal).2
      ((splitWithGaps isHorizontal sizes area).map (Rect.span isHorizontal)) := by
  obtain ⟨s, hs, hpos⟩ := hne
  have hsum : 0 < sizes.sum := (Nat.pos_of_ne_zero hpos).trans_le (List.le_sum_of_mem hs)
  have hnil : sizes ≠ [] := List.ne_nil_of_mem hs
  rw [splitWithGaps]
  split
  · next hlen =>
    obtain ⟨s, rfl⟩ : ∃ s, sizes = [s] := by
      refine List.length_eq_one_iff.1 ?_
      have := List.length_pos_of_ne_nil hnil
      omega
    exact Row.last _ _
  · rw [if_neg hsum.ne']
    have hrow := @row_slices isHorizontal area ((area.span isHorizontal).2 -
      (sizes.length - 1)) _ hsum sizes 0 0 hnil (by simp)
    have hlen : (area.span isHorizontal).2 - (sizes.length - 1) - 0 + (sizes.length - 1) =
        (area.span isHorizontal).2 := by omega
    rw [hlen] at hrow
    cases isHorizontal <;> exact hrow

theorem across_splitWithGaps {isHorizontal : Bool} {sizes : List ℕ} {area r : Rect}
    (hr : r ∈ splitWithGaps isHorizontal sizes area) :
    r.span (!isHorizontal) = area.span (!isHorizontal) := by
  rw [splitWithGaps] at hr
  split at hr
  · obtain ⟨-, -, rfl⟩ := List.mem_map.1 hr
    rfl
  · split at hr
    · obtain ⟨-, -, rfl⟩ := List.mem_map.1 hr
      rfl
    · exact across_slices _ _ _ _ _ _ _ r hr

variable {a : Split} {children : List Node} {area r : Rect} {i : ℕ} {c : Node} {path : List ℕ}

theorem rectAt_split_cons (hc : children[i]? = some c) (hr : (childRects a children area)[i]? = some r) :
    rectAt (.split a children) area (i :: path) = rectAt c r path := by
  rw [rectAt, hc, hr]

theorem everySplit_leaf (P : Split → List Node → Rect → Prop) (p : Pane) (area : Rect) :
    EverySplit P (.leaf p) area := by
  intro path a children r h
  cases path <;> simp at h

theorem everySplit_split {P : Split → List Node → Rect → Prop} :
    EverySplit P (.split a children) area ↔ P a children area ∧
      ∀ (i : ℕ) c r, children[i]? = some c → (childRects a children area)[i]? = some r → EverySplit P c r := by
  constructor
  · intro h
    refine ⟨h [] a children area (at?_nil _) (by rw [rectAt]), fun i c r hc hr path b cs s hs hrect => ?_⟩
    refine h (i :: path) b cs s ?_ ?_
    · rw [at?_split_cons, hc]
      exact hs
    · rw [rectAt_split_cons hc hr]
      exact hrect
  · rintro ⟨hown, hbelow⟩ path b cs s hs hrect
    cases path with
    | nil =>
      obtain ⟨rfl, rfl⟩ : a = b ∧ children = cs := by simpa using hs
      obtain rfl : area = s := by simpa [rectAt] using hrect
      exact hown
    | cons i path =>
      obtain ⟨c, hc, hp⟩ := Option.bind_eq_some_iff.1 (by simpa using hs)
      rw [rectAt] at hrect
      split at hrect
      · next d r hd hr =>
        obtain rfl : c = d := Option.some.inj (hc.symm.trans hd)
        exact hbelow i c r hc hr path b cs s hp hrect
      · contradiction

mutual

/-- `EverySplit`, split by split. -/
@[grind =] def everySplit (p : Split → List Node → Rect → Bool) : Node → Rect → Bool
  | .leaf _, _ => true
  | .split a children, area =>
    p a children area && everySplitIn p children (childRects a children area)

@[grind =] def everySplitIn (p : Split → List Node → Rect → Bool) : List Node → List Rect → Bool
  | c :: cs, r :: rs => everySplit p c r && everySplitIn p cs rs
  | _, _ => true

end

theorem everySplitIn_iff {p : Split → List Node → Rect → Bool} : ∀ {cs : List Node} {rs : List Rect},
    everySplitIn p cs rs = true ↔
      ∀ (i : ℕ) c r, cs[i]? = some c → rs[i]? = some r → everySplit p c r = true
  | [], rs => by simp [everySplitIn]
  | c :: cs, [] => by simp [everySplitIn]
  | c :: cs, r :: rs => by
    rw [everySplitIn, Bool.and_eq_true, everySplitIn_iff]
    constructor
    · rintro ⟨h, hrest⟩ i d s hd hs
      cases i with
      | zero =>
        obtain rfl : c = d := by simpa using hd
        obtain rfl : r = s := by simpa using hs
        exact h
      | succ i => exact hrest i d s (by simpa using hd) (by simpa using hs)
    · exact fun h => ⟨h 0 c r rfl rfl, fun i d s hd hs => h (i + 1) d s (by simpa using hd) (by simpa using hs)⟩

theorem everySplit_iff {p : Split → List Node → Rect → Bool} {n : Node} :
    everySplit p n area = true ↔ EverySplit (fun a children r => p a children r = true) n area := by
  induction n using tree_induction generalizing area with
  | leaf q => exact iff_of_true rfl (everySplit_leaf _ q area)
  | split a children ih =>
    rw [everySplit, Bool.and_eq_true, everySplitIn_iff, everySplit_split]
    refine and_congr_right fun _ => forall_congr' fun i => forall₄_congr fun c r hc _ => ?_
    exact ih c (List.mem_of_getElem? hc)

instance (P : Split → List Node → Rect → Prop) [∀ a children r, Decidable (P a children r)] (n : Node)
    (area : Rect) : Decidable (EverySplit P n area) :=
  decidable_of_iff (everySplit (fun a children r => decide (P a children r)) n area = true) <| by
    simp only [everySplit_iff, decide_eq_true_eq]

instance (n : Node) (area : Rect) : Decidable (HasRoom n area) :=
  inferInstanceAs (Decidable (EverySplit _ n area))

theorem HasRoom.root (h : HasRoom (.split a children) area) :
    children.length - 1 ≤ (area.span a.isHorizontal).2 :=
  (everySplit_split.1 h).1

theorem HasRoom.child (h : HasRoom (.split a children) area) (hc : children[i]? = some c)
    (hr : (childRects a children area)[i]? = some r) : HasRoom c r :=
  (everySplit_split.1 h).2 i c r hc hr

theorem Measured.root (h : Measured (.split a children)) :
    effectiveSizes a children = a.sizes ∧ ∃ s ∈ a.sizes, s ≠ 0 := by
  obtain ⟨hlen, hpos⟩ := (allSplits_split.1 h).1
  exact ⟨by rw [effectiveSizes, if_pos hlen], hpos⟩

theorem Measured.child (h : Measured (.split a children)) (hc : children[i]? = some c) :
    Measured c :=
  (allSplits_split.1 h).2 c (List.mem_of_getElem? hc)

@[simp] theorem length_childRects (a : Split) (children : List Node) (area : Rect) :
    (childRects a children area).length = children.length := by
  simp [childRects]

theorem row_childRects (hs : Measured (.split a children)) (hroom : HasRoom (.split a children) area) :
    Row (area.span a.isHorizontal).1 (area.span a.isHorizontal).2
      ((childRects a children area).map (Rect.span a.isHorizontal)) := by
  obtain ⟨heff, hpos⟩ := hs.root
  rw [childRects, heff]
  refine row_splitWithGaps hpos ?_
  rw [(allSplits_split.1 hs).1.1]
  exact hroom.root

theorem across_childRects (hr : r ∈ childRects a children area) :
    r.span (!a.isHorizontal) = area.span (!a.isHorizontal) :=
  across_splitWithGaps hr

theorem onLine_eq (b : Border) (r : Rect) (x y : ℕ) {a : Split} (h : b.kind = a.kind) :
    b.onLine r x y = (decide (along a.isHorizontal x y = b.pos) &&
      Row.within (along (!a.isHorizontal) x y) (r.span (!a.isHorizontal))) := by
  rw [Border.onLine, h]
  cases hk : a.kind <;> simp [Split.isHorizontal, hk, along, Rect.span]

/-- The borders of a split: behind each child but the last. -/
theorem computeSplitBorders_split (a : Split) (children : List Node) (area : Rect) :
    computeSplitBorders (.split a children) area =
      ((childRects a children area).dropLast.mapIdx fun i r =>
        Border.mk [] a.kind i ((r.span a.isHorizontal).1 + (r.span a.isHorizontal).2)
          (area.span a.isHorizontal).2) ++
      computeSplitBordersFrom 0 children (childRects a children area) := by
  rw [computeSplitBorders, List.dropLast_eq_take, length_childRects]
  cases hk : a.kind <;> simp [Split.isHorizontal, hk, Rect.span]

theorem countP_mapIdx {α β : Type*} {f : ℕ → α → β} {P : β → Bool} {Q : α → Bool}
    (h : ∀ i r, P (f i r) = Q r) (l : List α) : (l.mapIdx f).countP P = l.countP Q := by
  have hP : (P ∘ fun e : α × ℕ => f e.2 e.1) = Q ∘ Prod.fst := funext fun e => h e.2 e.1
  rw [List.mapIdx_eq_zipIdx_map, List.countP_map, hP, ← List.countP_map, List.zipIdx_map_fst]

/-- How often a cell lies in a pane or on a separator. -/
def covers (n : Node) (area : Rect) (x y : ℕ) : ℕ :=
  (computeRects n area).countP (fun l => l.2.contains x y) +
    (computeSplitBorders n area).countP (onSeparator n area x y)

theorem covers_children {x y : ℕ} :
    ∀ (cs : List Node) (rs : List Rect) (i : ℕ), rs.length = cs.length →
      (∀ j c r, cs[j]? = some c → rs[j]? = some r →
        children[i + j]? = some c ∧ (childRects a children area)[i + j]? = some r ∧
          covers c r x y = if r.contains x y then 1 else 0) →
      (computeRectsFrom i cs rs).countP (fun l => l.2.contains x y) +
          (computeSplitBordersFrom i cs rs).countP (onSeparator (.split a children) area x y) =
        rs.countP fun r => r.contains x y
  | [], [], _, _, _ => rfl
  | c :: cs, r :: rs, i, hlen, hall => by
    obtain ⟨hc, hr, hcovers⟩ := hall 0 c r rfl rfl
    rw [Nat.add_zero] at hc hr
    have hrest := covers_children cs rs (i + 1) (by simpa using hlen) fun j d s hd hs => by
      simpa only [Nat.add_right_comm, Nat.add_assoc] using hall (j + 1) d s (by simpa using hd) (by simpa using hs)
    have hbelow : (onSeparator (.split a children) area x y ∘ fun b : Border => { b with path := i :: b.path }) =
        onSeparator c r x y := by
      funext b
      simp only [Function.comp, onSeparator]
      rw [rectAt_split_cons hc hr]
      rfl
    have hrects : ((fun l : List ℕ × Rect => l.2.contains x y) ∘ fun l : List ℕ × Rect => (i :: l.1, l.2)) =
        fun l => l.2.contains x y := rfl
    rw [computeRectsFrom, computeSplitBordersFrom, List.countP_append, List.countP_append, List.countP_map,
      List.countP_map, hbelow, hrects, List.countP_cons]
    rw [covers] at hcovers
    omega

/-- The row of the children and the lines between them fill the rectangle of a split. -/
theorem covers_own (hs : Measured (.split a children)) (hroom : HasRoom (.split a children) area) (x y : ℕ) :
    (childRects a children area).countP (fun r => r.contains x y) +
        ((childRects a children area).dropLast.mapIdx fun i r =>
          Border.mk [] a.kind i ((r.span a.isHorizontal).1 + (r.span a.isHorizontal).2)
            (area.span a.isHorizontal).2).countP (onSeparator (.split a children) area x y) =
      if area.contains x y then 1 else 0 := by
  have hrow := (row_childRects hs hroom).count (along a.isHorizontal x y)
  set inside := Row.within (along (!a.isHorizontal) x y) (area.span (!a.isHorizontal)) with hinside
  have hpanes : (childRects a children area).countP (fun r => r.contains x y) =
      if inside then ((childRects a children area).map (Rect.span a.isHorizontal)).countP
        (Row.within (along a.isHorizontal x y)) else 0 := by
    rw [List.countP_map]
    split
    · next h =>
      refine List.countP_congr fun r hr => ?_
      rw [contains_iff a.isHorizontal, across_childRects hr, ← hinside, h, Bool.and_true]
      rfl
    · next h =>
      refine List.countP_eq_zero.2 fun r hr => ?_
      rw [contains_iff a.isHorizontal, across_childRects hr, ← hinside]
      simp [h]
  have hlines : ((childRects a children area).dropLast.mapIdx fun i r =>
      Border.mk [] a.kind i ((r.span a.isHorizontal).1 + (r.span a.isHorizontal).2)
        (area.span a.isHorizontal).2).countP (onSeparator (.split a children) area x y) =
      if inside then (Row.gaps ((childRects a children area).map (Rect.span a.isHorizontal))).count
        (along a.isHorizontal x y) else 0 := by
    rw [countP_mapIdx (Q := fun r : Rect => decide (along a.isHorizontal x y =
      (r.span a.isHorizontal).1 + (r.span a.isHorizontal).2) && inside) fun i r => by
        rw [onSeparator, rectAt, Option.any_some, onLine_eq _ _ _ _ (a := a) rfl]]
    rw [Row.gaps, ← List.map_dropLast, List.map_map, List.count, List.countP_map]
    split
    · next h =>
      refine List.countP_congr fun r _ => ?_
      simp only [h, Bool.and_true, decide_eq_true_eq, Function.comp, beq_iff_eq]
      exact eq_comm
    · next h =>
      refine List.countP_eq_zero.2 fun r _ => ?_
      simp [h]
  rw [hpanes, hlines, contains_iff a.isHorizontal, ← hinside]
  cases inside
  · simp
  · simpa using hrow

/-- Each cell of the area, and no other, lies in one pane or on one separator. -/
theorem covers_eq {n : Node} (hs : Measured n) (hroom : HasRoom n area) (x y : ℕ) :
    covers n area x y = if area.contains x y then 1 else 0 := by
  induction n using tree_induction generalizing area with
  | leaf p => simp [covers, computeRects, computeSplitBorders, List.countP_cons]
  | split a children ih =>
    have hbelow := @covers_children a children area x y
      children (childRects a children area) 0 (by simp) fun j c r hc hr => by
        rw [Nat.zero_add]
        exact ⟨hc, hr, ih c (List.mem_of_getElem? hc) (hs.child hc) (hroom.child hc hr)⟩
    have hown := covers_own hs hroom x y
    rw [covers, computeRects, computeSplitBorders_split, List.countP_append]
    omega

def Rect.Inside (r area : Rect) : Prop :=
  area.x ≤ r.x ∧ r.x + r.width ≤ area.x + area.width ∧
    area.y ≤ r.y ∧ r.y + r.height ≤ area.y + area.height

theorem Rect.Inside.trans {r s t : Rect} (h : r.Inside s) (h' : s.Inside t) : r.Inside t := by
  obtain ⟨h1, h2, h3, h4⟩ := h
  obtain ⟨h1', h2', h3', h4'⟩ := h'
  exact ⟨h1'.trans h1, h2.trans h2', h3'.trans h3, h4.trans h4'⟩

theorem inside_childRects (hs : Measured (.split a children)) (hroom : HasRoom (.split a children) area)
    (hr : r ∈ childRects a children area) : r.Inside area := by
  have halong := (row_childRects hs hroom).bounds _ (List.mem_map_of_mem hr)
  have hacross := across_childRects hr
  cases h : a.isHorizontal <;> rw [h] at halong hacross <;>
    simp only [Rect.span, Bool.not_true, Bool.not_false, if_true, Bool.false_eq_true, if_false,
      Prod.mk.injEq] at halong hacross
  · exact ⟨hacross.1.ge, by omega, halong.1, halong.2⟩
  · exact ⟨halong.1, halong.2, hacross.1.ge, by omega⟩

theorem mem_computeRectsFrom {cs : List Node} {rs : List Rect} {l : List ℕ × Rect}
    (h : l ∈ computeRectsFrom i cs rs) :
    ∃ j c r path, cs[j]? = some c ∧ rs[j]? = some r ∧ (path, l.2) ∈ computeRects c r ∧
      l.1 = (i + j) :: path := by
  induction cs generalizing i rs with
  | nil => simp [computeRectsFrom] at h
  | cons c cs ih =>
    cases rs with
    | nil => simp [computeRectsFrom] at h
    | cons r rs =>
      rw [computeRectsFrom] at h
      obtain h | h := List.mem_append.1 h
      · obtain ⟨l, hl, rfl⟩ := List.mem_map.1 h
        exact ⟨0, c, r, l.1, rfl, rfl, hl, rfl⟩
      · obtain ⟨j, d, s, path, hd, hs, hl, hp⟩ := ih h
        exact ⟨j + 1, d, s, path, by simpa using hd, by simpa using hs, hl, by rw [hp]; congr 1; omega⟩

/-- A pane's rectangle is the one its leaf is given. -/
theorem rectAt_of_mem {n : Node} {l : List ℕ × Rect} (h : l ∈ computeRects n area) :
    rectAt n area l.1 = some l.2 := by
  obtain ⟨path, r⟩ := l
  induction n using tree_induction generalizing area path r with
  | leaf p =>
    obtain ⟨rfl, rfl⟩ : path = [] ∧ r = area := by simpa [computeRects] using h
    rw [rectAt]
  | split a children ih =>
    rw [computeRects] at h
    obtain ⟨j, c, s, q, hc, hs, hl, rfl : path = (0 + j) :: q⟩ := mem_computeRectsFrom h
    rw [Nat.zero_add, rectAt_split_cons hc hs]
    exact ih c (List.mem_of_getElem? hc) q r hl

theorem rectAt_inside {n : Node} (hs : Measured n) (hroom : HasRoom n area)
    (h : rectAt n area path = some r) : r.Inside area := by
  induction path generalizing n area with
  | nil =>
    obtain rfl : area = r := by cases n <;> simpa [rectAt] using h
    exact ⟨le_rfl, le_rfl, le_rfl, le_rfl⟩
  | cons i path ih =>
    cases n with
    | leaf p => simp [rectAt] at h
    | split a children =>
      rw [rectAt] at h
      split at h
      · next c s hc hs' =>
        exact (ih (hs.child hc) (hroom.child hc hs') h).trans
          (inside_childRects hs hroom (List.mem_of_getElem? hs'))
      · contradiction

theorem mem_computeSplitBordersFrom {cs : List Node} {rs : List Rect} {b : Border}
    (h : b ∈ computeSplitBordersFrom i cs rs) :
    ∃ j c r d, cs[j]? = some c ∧ rs[j]? = some r ∧ d ∈ computeSplitBorders c r ∧
      b = { d with path := (i + j) :: d.path } := by
  induction cs generalizing i rs with
  | nil => simp [computeSplitBordersFrom] at h
  | cons c cs ih =>
    cases rs with
    | nil => simp [computeSplitBordersFrom] at h
    | cons r rs =>
      rw [computeSplitBordersFrom] at h
      obtain h | h := List.mem_append.1 h
      · obtain ⟨d, hd, rfl⟩ := List.mem_map.1 h
        exact ⟨0, c, r, d, rfl, rfl, hd, rfl⟩
      · obtain ⟨j, e, s, d, he, hs, hd, hb⟩ := ih h
        refine ⟨j + 1, e, s, d, by simpa using he, by simpa using hs, hd, ?_⟩
        rw [hb, Nat.add_right_comm, Nat.add_assoc]

/-- The borders below a child are its own, seen from the root. -/
theorem filter_computeSplitBordersFrom {cs : List Node} {rs : List Rect} {j : ℕ}
    (hc : cs[j]? = some c) (hr : rs[j]? = some r) (path : List ℕ) :
    (computeSplitBordersFrom i cs rs).filter (·.path = (i + j) :: path) =
      ((computeSplitBorders c r).filter (·.path = path)).map fun b => { b with path := (i + j) :: b.path } := by
  induction cs generalizing i j rs with
  | nil => simp at hc
  | cons d cs ih =>
    cases rs with
    | nil => simp at hr
    | cons s rs =>
      rw [computeSplitBordersFrom, List.filter_append, List.filter_map]
      cases j with
      | zero =>
        obtain rfl : d = c := by simpa using hc
        obtain rfl : s = r := by simpa using hr
        have hlater : (computeSplitBordersFrom (i + 1) cs rs).filter (·.path = (i + 0) :: path) = [] := by
          refine List.filter_eq_nil_iff.2 fun b hb => ?_
          obtain ⟨j, e, t, d, -, -, -, rfl⟩ := mem_computeSplitBordersFrom hb
          simp only [decide_eq_true_eq, List.cons.injEq, not_and]
          omega
        rw [hlater, List.append_nil]
        congr 2
        funext b
        simp
      | succ j =>
        have hfirst : (computeSplitBorders d s).filter ((fun b : Border => decide (b.path = (i + (j + 1)) :: path)) ∘
            fun b => { b with path := i :: b.path }) = [] := by
          refine List.filter_eq_nil_iff.2 fun b _ => ?_
          simp
        have hrest := ih (i := i + 1) (j := j) (by simpa using hc) (by simpa using hr)
        rw [Nat.add_right_comm, Nat.add_assoc] at hrest
        rw [hfirst, List.map_nil, List.nil_append, hrest]

/-- The borders of a split, in order. -/
theorem filter_computeSplitBorders {n : Node} (h : at? n path = some (.split a children)) :
    ((computeSplitBorders n area).filter (·.path = path)).map (fun b => (b.kind, b.index)) =
      (List.range (children.length - 1)).map fun i => (a.kind, i) := by
  induction path generalizing n area with
  | nil =>
    obtain rfl : n = .split a children := by simpa using h
    have hbelow : (computeSplitBordersFrom 0 children (childRects a children area)).filter (·.path = []) = [] := by
      refine List.filter_eq_nil_iff.2 fun b hb => ?_
      obtain ⟨j, e, t, d, -, -, -, rfl⟩ := mem_computeSplitBordersFrom hb
      simp
    rw [computeSplitBorders_split, List.filter_append, hbelow, List.append_nil, List.filter_eq_self.2]
    · refine List.ext_getElem (by simp) fun i hi hi' => ?_
      simp
    · intro b hb
      obtain ⟨i, hi, rfl⟩ := List.mem_mapIdx.1 hb
      simp
  | cons i path ih =>
    cases n with
    | leaf p => simp at h
    | split d cs =>
      obtain ⟨c, hc, hp⟩ := Option.bind_eq_some_iff.1 (by simpa using h)
      have hlt : i < (childRects d cs area).length := by
        rw [length_childRects]
        exact (List.getElem?_eq_some_iff.1 hc).1
      obtain ⟨r, hr⟩ : ∃ r, (childRects d cs area)[i]? = some r := ⟨_, List.getElem?_eq_getElem hlt⟩
      have hown : ((childRects d cs area).dropLast.mapIdx fun i r =>
          Border.mk [] d.kind i ((r.span d.isHorizontal).1 + (r.span d.isHorizontal).2)
            (area.span d.isHorizontal).2).filter (·.path = i :: path) = [] := by
        refine List.filter_eq_nil_iff.2 fun b hb => ?_
        obtain ⟨i, hi, rfl⟩ := List.mem_mapIdx.1 hb
        simp
      have hbelow := filter_computeSplitBordersFrom (i := 0) hc hr path
      rw [Nat.zero_add] at hbelow
      rw [computeSplitBorders_split, List.filter_append, hown, List.nil_append, hbelow, List.map_map]
      exact ih hp

/-- A border stands between two neighbours and is one cell wide. -/
def Border.Separates (b : Border) (n : Node) (area : Rect) : Prop :=
  ∃ a children r s, at? n b.path = some (.split a children) ∧ b.kind = a.kind ∧
    rectAt n area (b.path ++ [b.index]) = some r ∧ rectAt n area (b.path ++ [b.index + 1]) = some s ∧
    (r.span a.isHorizontal).1 + (r.span a.isHorizontal).2 = b.pos ∧
    (s.span a.isHorizontal).1 = b.pos + 1

theorem rectAt_child (hr : (childRects a children area)[i]? = some r) :
    rectAt (.split a children) area [i] = some r := by
  obtain ⟨hi, -⟩ := List.getElem?_eq_some_iff.1 hr
  rw [length_childRects] at hi
  rw [rectAt_split_cons (List.getElem?_eq_getElem hi) hr]
  cases children[i] <;> rw [rectAt]

theorem separates {n : Node} (hm : Measured n) (hroom : HasRoom n area) :
    ∀ b ∈ computeSplitBorders n area, b.Separates n area := by
  induction n using tree_induction generalizing area with
  | leaf p => simp [computeSplitBorders]
  | split a children ih =>
    intro b hb
    rw [computeSplitBorders_split] at hb
    obtain hb | hb := List.mem_append.1 hb
    · obtain ⟨i, hi, rfl⟩ := List.mem_mapIdx.1 hb
      rw [List.length_dropLast] at hi
      have hr := List.getElem?_eq_getElem (l := childRects a children area) (i := i) (by omega)
      have hs := List.getElem?_eq_getElem (l := childRects a children area) (i := i + 1) (by omega)
      have hnext := (row_childRects hm hroom).next (i := i) (by rw [List.getElem?_map, hr]; rfl)
        (by rw [List.getElem?_map, hs]; rfl)
      refine ⟨a, children, _, _, at?_nil _, rfl, rectAt_child hr, rectAt_child hs, ?_, ?_⟩
      · rw [List.getElem_dropLast]
      · rw [List.getElem_dropLast]
        exact hnext
    · obtain ⟨j, c, r, d, hc, hr, hd, rfl⟩ := mem_computeSplitBordersFrom hb
      rw [Nat.zero_add]
      obtain ⟨e, cs, s, t, he, hk, hs, ht, hpos⟩ :=
        ih c (List.mem_of_getElem? hc) (hm.child hc) (hroom.child hc hr) d hd
      refine ⟨e, cs, s, t, ?_, hk, ?_, ?_, hpos⟩
      · rw [at?_split_cons, hc]
        exact he
      · rw [List.cons_append, rectAt_split_cons hc hr]
        exact hs
      · rw [List.cons_append, rectAt_split_cons hc hr]
        exact ht

theorem pairwise_of_countP_le_one {α β : Type*} {P : β → α → Bool} {l : List α}
    (h : ∀ z, l.countP (P z) ≤ 1) : l.Pairwise fun x y => ∀ z, ¬(P z x = true ∧ P z y = true) := by
  induction l with
  | nil => exact List.Pairwise.nil
  | cons x l ih =>
    refine List.pairwise_cons.2 ⟨fun y hy z hz => ?_, ih fun z => ?_⟩
    · have hpos : 0 < l.countP (P z) := List.countP_pos_iff.2 ⟨y, hy, hz.2⟩
      have := h z
      rw [List.countP_cons, if_pos hz.1] at this
      omega
    · exact (List.sublist_cons_self x l).countP_le.trans (h z)

end Winsmux.Layout
