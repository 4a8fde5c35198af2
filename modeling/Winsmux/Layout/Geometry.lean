import Winsmux.Layout.Node

/-!
# Where the panes stand on the screen

The rectangle of each pane, the borders between them, and the pane that a move in a
direction ends at. Coordinates are cells; the area of a window is far below `2 ^ 16` a
side, so they are natural numbers, and what the source subtracts with saturation is
subtraction here.
-/
namespace Winsmux.Layout
open PathTree

structure Rect where
  x : ℕ
  y : ℕ
  width : ℕ
  height : ℕ
  deriving DecidableEq

def Rect.contains (r : Rect) (x y : ℕ) : Bool :=
  r.x ≤ x && x < r.x + r.width && r.y ≤ y && y < r.y + r.height

/-- One slice for each share, `offset` cells into the area at slice `i`; the last takes
what is left. -/
def slices (isHorizontal : Bool) (area : Rect) (available total : ℕ) : ℕ → ℕ → List ℕ → List Rect
  | _, _, [] => []
  | i, offset, pct :: rest =>
    let size := if rest = [] then available - offset else available * pct / total
    let slice :=
      if isHorizontal then { area with x := area.x + offset + i, width := size }
      else { area with y := area.y + offset + i, height := size }
    slice :: slices isHorizontal area available total (i + 1) (offset + size) rest

/-- An area cut by shares, with a gap of one cell for each separator. -/
def splitWithGaps (isHorizontal : Bool) (sizes : List ℕ) (area : Rect) : List Rect :=
  if sizes.length ≤ 1 then sizes.map fun _ => area
  else if sizes.sum = 0 then sizes.map fun _ => area
  else
    let side := if isHorizontal then area.width else area.height
    slices isHorizontal area (side - (sizes.length - 1)) sizes.sum 0 0 sizes

@[simp] theorem length_slices (isHorizontal : Bool) (area : Rect) (available total : ℕ) :
    ∀ (i offset : ℕ) (sizes : List ℕ),
      (slices isHorizontal area available total i offset sizes).length = sizes.length
  | _, _, [] => rfl
  | i, offset, pct :: rest => by
    rw [slices, List.length_cons, length_slices, List.length_cons]

@[simp] theorem length_splitWithGaps (isHorizontal : Bool) (sizes : List ℕ) (area : Rect) :
    (splitWithGaps isHorizontal sizes area).length = sizes.length := by
  rw [splitWithGaps]
  split
  · simp
  · split <;> simp

/-- The shares used to draw a split: its own where there is one for each child. -/
def effectiveSizes (a : Split) (children : List Node) : List ℕ :=
  if a.sizes.length = children.length then a.sizes
  else List.replicate children.length (100 / max children.length 1)

@[simp] theorem length_effectiveSizes (a : Split) (children : List Node) :
    (effectiveSizes a children).length = children.length := by
  rw [effectiveSizes]
  split
  · assumption
  · simp

def childRects (a : Split) (children : List Node) (area : Rect) : List Rect :=
  splitWithGaps (a.kind = .horizontal) (effectiveSizes a children) area

mutual

/-- The panes' paths, each with its rectangle. -/
def computeRects : Node → Rect → List (List ℕ × Rect)
  | .leaf _, area => [([], area)]
  | .split a children, area => computeRectsFrom 0 children (childRects a children area)

@[grind =] def computeRectsFrom (i : ℕ) : List Node → List Rect → List (List ℕ × Rect)
  | c :: cs, r :: rs =>
    (computeRects c r).map (fun l => (i :: l.1, l.2)) ++ computeRectsFrom (i + 1) cs rs
  | _, _ => []

end

/-- A border between child `index` and the next of the split at a path. -/
structure Border where
  path : List ℕ
  kind : LayoutKind
  index : ℕ
  pos : ℕ
  totalPixels : ℕ
  deriving DecidableEq

mutual

@[grind =] def computeSplitBorders : Node → Rect → List Border
  | .leaf _, _ => []
  | .split a children, area =>
    let rects := childRects a children area
    let own := (rects.take (children.length - 1)).mapIdx fun i r =>
      match a.kind with
      | .horizontal => Border.mk [] a.kind i (r.x + r.width) area.width
      | .vertical => Border.mk [] a.kind i (r.y + r.height) area.height
    own ++ computeSplitBordersFrom 0 children rects

@[grind =] def computeSplitBordersFrom (i : ℕ) : List Node → List Rect → List Border
  | c :: cs, r :: rs =>
    (computeSplitBorders c r).map (fun b => { b with path := i :: b.path }) ++
      computeSplitBordersFrom (i + 1) cs rs
  | _, _ => []

end

/-- The sizes on both sides of a border. -/
def splitSizesAt (n : Node) (path : List ℕ) (idx : ℕ) : Option (ℕ × ℕ) :=
  match at? n path with
  | some (.split a _) =>
    match a.sizes[idx]?, a.sizes[idx + 1]? with
    | some left, some right => some (left, right)
    | _, _ => none
  | _ => none

def touchMru (mru : List ℕ) (paneId : ℕ) : List ℕ := paneId :: mru.erase paneId

def removeFromMru (mru : List ℕ) (paneId : ℕ) : List ℕ := mru.filter (· ≠ paneId)

def usizeMax : ℕ := 2 ^ 64 - 1

def mruRank (mru : List ℕ) (paneId : ℕ) : ℕ :=
  if paneId ∈ mru then mru.idxOf paneId else usizeMax

inductive FocusDir where
  | left
  | right
  | up
  | down
  deriving DecidableEq

def rangesOverlap (aStart aLen bStart bLen : ℕ) : Bool :=
  aStart < bStart + bLen && bStart < aStart + aLen

/-- Whether two rectangles meet when seen along the direction. -/
def perpOverlap (dir : FocusDir) (r arect : Rect) : Bool :=
  match dir with
  | .left | .right => rangesOverlap r.y r.height arect.y arect.height
  | .up | .down => rangesOverlap r.x r.width arect.x arect.width

/-- Twice the distance of the centers across the direction. -/
def perpDist (dir : FocusDir) (r arect : Rect) : ℕ :=
  match dir with
  | .left | .right => Int.natAbs ((2 * r.y + r.height : ℤ) - (2 * arect.y + arect.height))
  | .up | .down => Int.natAbs ((2 * r.x + r.width : ℤ) - (2 * arect.x + arect.width))

/-- The gap to a pane that stands in the direction. -/
def primaryGap (dir : FocusDir) (arect r : Rect) : Option ℤ :=
  match dir with
  | .left => if r.x + r.width > arect.x then none else some (arect.x - (r.x + r.width))
  | .right => if r.x < arect.x + arect.width then none else some (r.x - (arect.x + arect.width))
  | .up => if r.y + r.height > arect.y then none else some (arect.y - (r.y + r.height))
  | .down => if r.y < arect.y + arect.height then none else some (r.y - (arect.y + arect.height))

/-- How near a pane is to the edge at which a move wraps around. -/
def edgeScore (dir : FocusDir) (_ r : Rect) : Option ℤ :=
  match dir with
  | .right => some r.x
  | .left => some (-(r.x + r.width))
  | .down => some r.y
  | .up => some (-(r.y + r.height))

structure Candidate where
  index : ℕ
  score : ℤ
  dist : ℕ
  overlap : Bool
  rank : ℕ

/-- Whether the best so far stays before a new candidate. -/
def dominated (best new : Candidate) : Bool :=
  if new.overlap && !best.overlap then false
  else if !new.overlap && best.overlap then true
  else if new.score < best.score then false
  else if new.score > best.score then true
  else if new.overlap && best.overlap then new.rank ≥ best.rank
  else if new.dist < best.dist then false
  else if new.dist > best.dist then true
  else new.rank ≥ best.rank

def choose : Option Candidate → Candidate → Option Candidate
  | none, new => some new
  | some best, new => if dominated best new then some best else some new

def candidate (score : FocusDir → Rect → Rect → Option ℤ) (ai : ℕ) (arect : Rect) (dir : FocusDir)
    (paneIds mru : List ℕ) (r : Rect) (i : ℕ) : Option Candidate :=
  if i = ai then none
  else
    (score dir arect r).map fun s =>
      { index := i, score := s, dist := perpDist dir r arect, overlap := perpOverlap dir r arect,
        rank := (paneIds[i]?.map (mruRank mru)).getD usizeMax }

/-- The best of the panes other than pane `ai` that the score admits. -/
def bestCandidate (score : FocusDir → Rect → Rect → Option ℤ) (rects : List (List ℕ × Rect)) (ai : ℕ)
    (arect : Rect) (dir : FocusDir) (paneIds mru : List ℕ) : Option Candidate :=
  (rects.zipIdx.filterMap fun (l, i) =>
    candidate score ai arect dir paneIds mru l.2 i).foldl choose none

def findBestPaneInDirection (rects : List (List ℕ × Rect)) (ai : ℕ) (arect : Rect) (dir : FocusDir)
    (paneIds mru : List ℕ) : Option ℕ :=
  (bestCandidate primaryGap rects ai arect dir paneIds mru).map (·.index)

/-- A move wraps only to a pane in the same rows or columns. -/
def findWrapTarget (rects : List (List ℕ × Rect)) (ai : ℕ) (arect : Rect) (dir : FocusDir)
    (paneIds mru : List ℕ) : Option ℕ :=
  ((bestCandidate edgeScore rects ai arect dir paneIds mru).filter (·.overlap)).map (·.index)

theorem map_fst_computeRectsFrom {cs : List Node}
    (h : ∀ c ∈ cs, ∀ area, (computeRects c area).map Prod.fst = collectPanePaths c) :
    ∀ (i : ℕ) {rs : List Rect}, rs.length = cs.length →
      (computeRectsFrom i cs rs).map Prod.fst = (leavesFrom i cs).map Prod.fst := by
  induction cs with
  | nil =>
    intro i rs _
    cases rs <;> rfl
  | cons c cs ih =>
    intro i rs hrs
    cases rs with
    | nil => simp at hrs
    | cons r rs =>
      have hc : ∀ l : List (List ℕ × Rect), l.map Prod.fst = collectPanePaths c →
          (l.map fun l => (i :: l.1, l.2)).map Prod.fst = (collectPanePaths c).map (i :: ·) := by
        intro l hl
        rw [← hl, List.map_map, List.map_map]
        rfl
      rw [computeRectsFrom, leavesFrom, List.map_append, List.map_append,
        ih (fun d hd => h d (List.mem_cons_of_mem c hd)) (i + 1) (by simpa using hrs),
        hc _ (h c List.mem_cons_self r), collectPanePaths, List.map_map, List.map_map]
      rfl

/-- Every pane has one rectangle, in traversal order. -/
theorem map_fst_computeRects (n : Node) (area : Rect) :
    (computeRects n area).map Prod.fst = collectPanePaths n := by
  induction n using tree_induction generalizing area with
  | leaf p => rfl
  | split a children ih =>
    rw [computeRects, collectPanePaths, leavesAt]
    exact map_fst_computeRectsFrom (fun c hc area => ih c hc area) 0 (by simp [childRects])

end Winsmux.Layout
