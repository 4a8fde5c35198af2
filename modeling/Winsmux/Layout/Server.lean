import Winsmux.Layout.Geometry
import Winsmux.Layout.LayoutString
import Winsmux.Transition

/-!
# The layout commands of the server

The windows of a session and every command that edits a pane tree, moves the focus or
zooms. What comes from outside is an argument of the command: whether a shell could be
started (a split is also refused where the pane is too small, which its pty decides),
which processes exited, the cell a mouse event lands on. Copy mode, hooks and the sizes
handed to the ptys are left out. Arithmetic wraps, as in a release build.
-/
namespace Winsmux.Layout
open PathTree Json

structure Window where
  id : ℕ
  root : Node
  activePath : List ℕ
  layoutIndex : ℕ
  paneMru : List ℕ
  zoomSaved : Option (List (List ℕ × List ℕ))

structure DragState where
  splitPath : List ℕ
  kind : LayoutKind
  index : ℕ
  startX : ℕ
  startY : ℕ
  leftInitial : ℕ
  totalPixels : ℕ
  deriving DecidableEq

structure Options where
  mainPaneWidth : ℕ
  mainPaneHeight : ℕ
  paneBaseIndex : ℕ
  windowBaseIndex : ℕ
  remainOnExit : Bool

structure Server where
  windows : List Window
  activeIdx : ℕ
  lastWindowIdx : ℕ
  lastPanePath : List ℕ
  lastWindowArea : Rect
  nextPaneId : ℕ
  nextWinId : ℕ
  /-- The id of the pane started ahead of the next split or window. -/
  warmPane : Option ℕ
  drag : Option DragState
  /-- The window and the pane to go back to after a command with a target. -/
  tempFocusRestore : Option (ℕ × ℕ)
  options : Options

/-- What stands in for a root while its tree is rebuilt. -/
def placeholder : Node := .split ⟨.horizontal, []⟩ []

def Split.withSizes (a : Split) (sizes : List ℕ) : Split := { a with sizes }

namespace Window

def activePaneId (w : Window) : Option ℕ := getActivePaneId w.root w.activePath

def touchActive (w : Window) : Window :=
  match w.activePaneId with
  | some id => { w with paneMru := touchMru w.paneMru id }
  | none => w

end Window

/-- The saved sizes put back, each where its path now leads. -/
def restoreSizes (saved : List (List ℕ × List ℕ)) (root : Node) : Node :=
  saved.foldl (fun root e => relabelAt (·.withSizes e.2) e.1 root) root

def Window.unzoom (w : Window) : Window :=
  match w.zoomSaved with
  | none => w
  | some saved => { w with root := restoreSizes saved w.root, zoomSaved := none }

/-- All to child `idx`. -/
def zoomedSizes (idx : ℕ) (sizes : List ℕ) : List ℕ := sizes.mapIdx fun i _ => if i = idx then 100 else 0

/-- The split at one depth of the active path zoomed, its sizes saved. -/
def zoomLevel (path : List ℕ) (acc : Node × List (List ℕ × List ℕ)) (depth : ℕ) :
    Node × List (List ℕ × List ℕ) :=
  match at? acc.1 (path.take depth) with
  | some (.split a _) =>
    (relabelAt (fun a => a.withSizes (zoomedSizes (path.getD depth 0) a.sizes)) (path.take depth) acc.1,
      acc.2 ++ [(path.take depth, a.sizes)])
  | _ => acc

def zoomIn (path : List ℕ) (root : Node) : Node × List (List ℕ × List ℕ) :=
  (List.range path.length).foldl (zoomLevel path) (root, [])

def Window.toggleZoom (w : Window) : Window :=
  match w.zoomSaved with
  | none =>
    let (root, saved) := zoomIn w.activePath w.root
    { w with root, zoomSaved := some saved }
  | some _ => w.unzoom

/-- The nearest pane in a direction, else the one at the edge where the move wraps. -/
def directionTarget (rects : List (List ℕ × Rect)) (ai : ℕ) (arect : Rect) (dir : FocusDir)
    (paneIds mru : List ℕ) : Option ℕ :=
  match findBestPaneInDirection rects ai arect dir paneIds mru with
  | some i => some i
  | none => findWrapTarget rects ai arect dir paneIds mru

def moveFocus (area : Rect) (dir : FocusDir) (w : Window) : Window :=
  let rects := computeRects w.root area
  let ai := rects.findIdx fun l => l.1 = w.activePath
  match rects[ai]? with
  | none => w
  | some (_, arect) =>
    let paneIds := rects.map fun l => (getActivePaneId w.root l.1).getD usizeMax
    match directionTarget rects ai arect dir paneIds w.paneMru with
    | none => w
    | some ni =>
      let mru :=
        match paneIds[ni]? with
        | some id => touchMru w.paneMru id
        | none => w.paneMru
      match rects[ni]? with
      | none => w
      | some (path, _) => { w with activePath := path, paneMru := mru }

/-- Moves the focus to the neighbor; the panes stay where they are. -/
def swapPane (area : Rect) (dir : FocusDir) (w : Window) : Window := moveFocus area dir w

/-- Whether a move in a direction would end at another pane. -/
def hasTarget (area : Rect) (dir : FocusDir) (w : Window) : Bool :=
  let rects := computeRects w.root area
  let ai := rects.findIdx fun l => l.1 = w.activePath
  match rects[ai]? with
  | none => false
  | some (_, arect) => (directionTarget rects ai arect dir [] []).isSome

/-- The focus on the pane `step` places on in traversal order. -/
def cyclePane (step : ℕ → ℕ → ℕ) (w : Window) : Option (List ℕ) :=
  let paths := collectPanePaths w.root
  if w.activePath ∈ paths then paths[step (paths.idxOf w.activePath) paths.length % paths.length]?
  else none

def rotatePanes (reverse : Bool) (w : Window) : Window :=
  match w.root with
  | .split a children =>
    if 2 ≤ children.length then
      let k := if reverse then 1 else children.length - 1
      { w with root := .split a (children.drop k ++ children.take k) }
    else w
  | .leaf _ => w

/-- What a kill leaves: the path of the most recently used pane that is left. -/
def killPaneAtPath (path : List ℕ) (w : Window) : Except Panic Window := do
  let root ← removeNode w.root path
  let mru :=
    match getActivePaneId w.root path with
    | some id => removeFromMru w.paneMru id
    | none => w.paneMru
  .ok { w with
    root
    paneMru := mru
    activePath := (mru.findSome? (findPathById root)).getD (firstLeafPath root) }

/-- A balanced tree of halves. -/
def buildTiled : ℕ → List Node → Node
  | 0, panes => .split ⟨.horizontal, [50, 50]⟩ panes
  | fuel + 1, panes =>
    match panes with
    | [pane] => pane
    | _ =>
      if panes.length ≤ 2 then .split ⟨.horizontal, [50, 50]⟩ panes
      else
        let mid := panes.length / 2
        .split ⟨.vertical, [50, 50]⟩
          [buildTiled fuel (panes.take mid), buildTiled fuel (panes.drop mid)]

/-- A main pane with the rest in a split across. -/
def buildMain (outer inner : LayoutKind) (pct : ℕ) : List Node → Node
  | [] => placeholder
  | mainPane :: rest =>
    .split ⟨outer, [pct, 100 - pct]⟩
      [mainPane,
        match rest with
        | [other] => other
        | rest => .split ⟨inner, equalSizes rest.length⟩ rest]

def mainPct (option : ℕ) : ℕ := if option > 0 then min option 95 else 60

/-- The tree of a named layout over the leaves. -/
def namedLayout (options : Options) (name : Text) (leaves : List Node) : Option Node :=
  if name = utf8 "even-horizontal" || name = utf8 "even-h" then
    some (.split ⟨.horizontal, equalSizes leaves.length⟩ leaves)
  else if name = utf8 "even-vertical" || name = utf8 "even-v" then
    some (.split ⟨.vertical, equalSizes leaves.length⟩ leaves)
  else if name = utf8 "main-horizontal" || name = utf8 "main-h" then
    some (buildMain .vertical .horizontal (mainPct options.mainPaneHeight) leaves)
  else if name = utf8 "main-vertical" || name = utf8 "main-v" then
    some (buildMain .horizontal .vertical (mainPct options.mainPaneWidth) leaves)
  else if name = utf8 "tiled" then some (buildTiled leaves.length leaves)
  else none

/-- The tree of a named layout, or of a layout string, over the leaves. -/
def layoutRoot (options : Options) (layout : Text) (leaves : List Node) : Node :=
  match namedLayout options (toAsciiLowercase layout) leaves with
  | some root => root
  | none =>
    match parseTmuxLayoutString layout leaves with
    | (some root, _) => root
    -- the sizes are those of all panes, the children those that the parse left
    | (none, rest) => .split ⟨.horizontal, equalSizes leaves.length⟩ rest

def applyLayout (options : Options) (layout : Text) (w : Window) : Window :=
  let panes := collectLeaves w.root
  if panes.length < 2 then
    -- the active path stays as it is
    match panes with
    | pane :: _ => { w with root := pane }
    | [] => { w with root := placeholder }
  else
    let root := layoutRoot options layout panes
    { w with root, activePath := firstLeafPath root }

def layoutNames : List Text :=
  ["even-horizontal", "even-vertical", "main-horizontal", "main-vertical", "tiled"].map utf8

/-- The layout `step` places on in the list of names. -/
def cycleLayoutBy (step : ℕ) (options : Options) (w : Window) : Window :=
  match w.root with
  | .leaf _ => w
  | .split _ _ =>
    let idx := (w.layoutIndex + step) % layoutNames.length
    applyLayout options (layoutNames.getD idx []) { w with layoutIndex := idx }

def cycleLayout := cycleLayoutBy 1

def cycleLayoutReverse := cycleLayoutBy (layoutNames.length - 1)

def LayoutKind.toggle : LayoutKind → LayoutKind
  | .horizontal => .vertical
  | .vertical => .horizontal

/-- The split around the active pane turned, with two equal shares. -/
def cycleTopLayout (w : Window) : Window :=
  { w with root := relabelAt (fun a => ⟨a.kind.toggle, [50, 50]⟩) w.activePath.dropLast w.root }

/-- The value of the low bits as a signed number of `w` bits. -/
def asSigned (w : ℕ) (z : ℤ) : ℤ := (z + 2 ^ (w - 1)) % 2 ^ w - 2 ^ (w - 1)

/-- At least one cell, as an unsigned number. -/
def atLeastOne (z : ℤ) : ℕ := (max z 1).toNat

/-- Share `idx` changed, the difference taken from a neighbor. -/
def shiftShare (new : ℕ → ℕ) (idx : ℕ) (sizes : List ℕ) : List ℕ :=
  match sizes[idx]? with
  | none => sizes
  | some old =>
    let diff := asSigned 16 (asSigned 16 (new old) - asSigned 16 old)
    let absorb := fun s : ℕ => atLeastOne (asSigned 16 (asSigned 16 s - diff))
    let sizes := sizes.set idx (new old)
    if idx + 1 < sizes.length then sizes.modify (idx + 1) absorb
    else if idx > 0 then sizes.modify (idx - 1) absorb
    else sizes

/-- The share of the active pane in the innermost split of a direction. -/
def resizeShare (kind : LayoutKind) (new : ℕ → ℕ) (w : Window) : Window :=
  let depth := (List.range w.activePath.length).reverse.find? fun depth =>
    match at? w.root (w.activePath.take depth) with
    | some (.split a _) => a.kind = kind
    | _ => false
  match depth with
  | none => w
  | some depth =>
    { w with
      root := relabelAt (fun a => a.withSizes (shiftShare new (w.activePath.getD depth 0) a.sizes))
        (w.activePath.take depth) w.root }

def resizePaneVertical (amount : ℤ) : Window → Window :=
  resizeShare .vertical fun old => atLeastOne (asSigned 16 (asSigned 16 old + amount))

def resizePaneHorizontal (amount : ℤ) : Window → Window :=
  resizeShare .horizontal fun old => atLeastOne (asSigned 16 (asSigned 16 old + amount))

inductive Axis where
  | x
  | y

def resizePaneAbsolute (axis : Axis) (target : ℕ) : Window → Window :=
  resizeShare (match axis with | .x => .horizontal | .y => .vertical) fun _ => max target 1

/-- Percent of the split for a size given as a percentage or in cells. -/
def splitPercent (kind : LayoutKind) (area : Rect) (val : ℕ) (isPct : Bool) : ℕ :=
  if isPct then max 1 (min 99 val)
  else
    let total := match kind with | .horizontal => area.width | .vertical => area.height
    if total > 0 then max 1 (min 99 (val * 100 / total)) else 50

/-- The first two shares of the split at a path. -/
def setSplitPercent (path : List ℕ) (pct : ℕ) (w : Window) : Except Panic Window :=
  match at? w.root path with
  | some (.split a _) =>
    if a.sizes.length < 2 then .error .sizeIndex
    else
      .ok { w with root := relabelAt (fun a => a.withSizes ((a.sizes.set 0 (100 - pct)).set 1 pct)) path w.root }
  | _ => .ok w

/-- The two shares at a border dragged to a cell, at least 5 each where there is room. -/
def dragShares (d : DragState) (x y l r : ℕ) : Except Panic (ℕ × ℕ) :=
  let total := u16 (l + r)
  let upper := u16 (total + 2 ^ 16 - 5)
  if upper < 5 then .error .clampRange
  else
    let pixelDelta : ℤ :=
      match d.kind with
      | .horizontal => x - d.startX
      | .vertical => y - d.startY
    let pctDelta := (asSigned 32 (pixelDelta * total)).tdiv (max d.totalPixels 1)
    let left := (max 5 (min (upper : ℤ) (asSigned 32 (d.leftInitial + pctDelta)))).toNat
    .ok (left, u16 (total + 2 ^ 16 - left))

/-- A border dragged to a cell. -/
def adjustSplitSizes (d : DragState) (x y : ℕ) (w : Window) : Except Panic Window :=
  match at? w.root d.splitPath with
  | some (.split a _) =>
    match a.sizes[d.index]?, a.sizes[d.index + 1]? with
    | some l, some r => do
      let (left, right) ← dragShares d x y l r
      .ok { w with
        root := relabelAt (fun a => a.withSizes ((a.sizes.set d.index left).set (d.index + 1) right))
          d.splitPath w.root }
    | _, _ => .error .sizeIndex
  | _ => .ok w

/-- Shares from a client, taken where their number fits. -/
def handleSplitSetSizes (path sizes : List ℕ) (w : Window) : Window :=
  match at? w.root path with
  | some (.split a children) =>
    if sizes.length = children.length ∧ sizes.length = a.sizes.length then
      { w with root := relabelAt (·.withSizes sizes) path w.root }
    else w
  | _ => w

-- zooming and resizing change sizes only
@[simp] theorem shape_restoreSizes (saved : List (List ℕ × List ℕ)) (root : Node) :
    shape (restoreSizes saved root) = shape root := by
  induction saved generalizing root with
  | nil => rfl
  | cons e saved ih =>
    rw [restoreSizes, List.foldl_cons]
    exact (ih _).trans (shape_relabelAt ..)

@[simp] theorem shape_unzoom (w : Window) : shape w.unzoom.root = shape w.root := by
  rw [Window.unzoom]
  split
  · rfl
  · exact shape_restoreSizes _ _

theorem shape_zoomLevel (path : List ℕ) (acc : Node × List (List ℕ × List ℕ)) (depth : ℕ) :
    shape (zoomLevel path acc depth).1 = shape acc.1 := by
  rw [zoomLevel]
  split
  · exact shape_relabelAt ..
  · rfl

@[simp] theorem shape_zoomIn (path : List ℕ) (root : Node) :
    shape (zoomIn path root).1 = shape root := by
  have hfold : ∀ (depths : List ℕ) (acc : Node × List (List ℕ × List ℕ)),
      shape (depths.foldl (zoomLevel path) acc).1 = shape acc.1 := by
    intro depths
    induction depths with
    | nil => exact fun _ => rfl
    | cons depth depths ih => exact fun acc => (ih _).trans (shape_zoomLevel path acc depth)
  exact hfold _ _

@[simp] theorem shape_toggleZoom (w : Window) : shape w.toggleZoom.root = shape w.root := by
  cases hz : w.zoomSaved with
  | none =>
    simp only [Window.toggleZoom, hz]
    exact shape_zoomIn w.activePath w.root
  | some saved =>
    simp only [Window.toggleZoom, hz]
    exact shape_unzoom w

@[simp] theorem root_moveFocus (area : Rect) (dir : FocusDir) (w : Window) :
    (moveFocus area dir w).root = w.root := by
  simp only [moveFocus]
  repeat' split
  all_goals rfl

@[simp] theorem shape_cycleTopLayout (w : Window) :
    shape (cycleTopLayout w).root = shape w.root := shape_relabelAt ..

@[simp] theorem shape_resizeShare (kind : LayoutKind) (new : ℕ → ℕ) (w : Window) :
    shape (resizeShare kind new w).root = shape w.root := by
  simp only [resizeShare]
  split
  · rfl
  · exact shape_relabelAt ..

@[simp] theorem activePath_resizeShare (kind : LayoutKind) (new : ℕ → ℕ) (w : Window) :
    (resizeShare kind new w).activePath = w.activePath := by
  simp only [resizeShare]
  split <;> rfl

theorem setSplitPercent_eq_ok {path : List ℕ} {pct : ℕ} {w w' : Window}
    (h : setSplitPercent path pct w = .ok w') :
    shape w'.root = shape w.root ∧ w'.activePath = w.activePath := by
  rw [setSplitPercent] at h
  split at h
  · split at h
    · contradiction
    · rw [← Except.ok.inj h]
      exact ⟨shape_relabelAt .., rfl⟩
  · rw [← Except.ok.inj h]
    exact ⟨rfl, rfl⟩

theorem adjustSplitSizes_eq_ok {d : DragState} {x y : ℕ} {w w' : Window}
    (h : adjustSplitSizes d x y w = .ok w') :
    shape w'.root = shape w.root ∧ w'.activePath = w.activePath := by
  rw [adjustSplitSizes] at h
  split at h
  · split at h
    · next l r _ _ =>
      cases hshares : dragShares d x y l r with
      | error e =>
        rw [hshares] at h
        cases h
      | ok shares =>
        rw [hshares] at h
        rw [← Except.ok.inj h]
        exact ⟨shape_relabelAt .., rfl⟩
    · cases h
  · rw [← Except.ok.inj h]
    exact ⟨rfl, rfl⟩

@[simp] theorem shape_handleSplitSetSizes (path sizes : List ℕ) (w : Window) :
    shape (handleSplitSetSizes path sizes w).root = shape w.root := by
  rw [handleSplitSetSizes]
  split
  · split
    · exact shape_relabelAt ..
    · rfl
  · rfl

@[simp] theorem activePath_handleSplitSetSizes (path sizes : List ℕ) (w : Window) :
    (handleSplitSetSizes path sizes w).activePath = w.activePath := by
  rw [handleSplitSetSizes]
  split
  · split <;> rfl
  · rfl

theorem leaves_buildTiled (fuel : ℕ) (panes : List Node) :
    leaves (buildTiled fuel panes) = panes.flatMap leaves := by
  induction fuel generalizing panes with
  | zero => rw [buildTiled, leaves_split]
  | succ fuel ih =>
    rw [buildTiled.eq_def]
    simp only
    split
    · simp
    · split
      · rw [leaves_split]
      · simp only [leaves_split, List.flatMap_cons, List.flatMap_nil, List.append_nil, ih]
        rw [← List.flatMap_append, List.take_append_drop]

theorem leaves_buildMain (outer inner : LayoutKind) (pct : ℕ) (panes : List Node) :
    leaves (buildMain outer inner pct panes) = panes.flatMap leaves := by
  cases panes with
  | nil => rfl
  | cons mainPane rest =>
    cases rest with
    | nil => simp [buildMain]
    | cons other rest => cases rest <;> simp [buildMain]

theorem leaves_namedLayout {options : Options} {name : Text} {panes : List Node} {root : Node}
    (h : namedLayout options name panes = some root) : leaves root = panes.flatMap leaves := by
  rw [namedLayout] at h
  repeat' split at h
  all_goals first
    | contradiction
    | (rw [← Option.some.inj h]
       first | exact leaves_split .. | exact leaves_buildMain .. | exact leaves_buildTiled ..)

theorem flatMap_leaves_collectLeaves (n : Node) : (collectLeaves n).flatMap leaves = leaves n := by
  rw [collectLeaves, List.flatMap_map]
  exact List.flatMap_singleton' _

/-- The leaves that a layout string leaves of the panes: as many of the first as it has
leaves itself, none when it asks for more. -/
theorem leaves_parseTmuxLayoutString {layout : Text} {panes : List Node} {l : LayoutNode}
    (hl : parseLayoutString layout = some l) :
    (l.countLeaves ≤ panes.length ∧ ∃ root, parseTmuxLayoutString layout panes =
        (some root, panes.drop l.countLeaves) ∧
        leaves root = (panes.take l.countLeaves).flatMap leaves) ∨
      panes.length < l.countLeaves ∧ parseTmuxLayoutString layout panes = (none, []) := by
  rw [parseTmuxLayoutString, hl]
  by_cases h : l.countLeaves ≤ panes.length
  · exact .inl ⟨h, layoutNodeToNode_of_le l h⟩
  · exact .inr ⟨not_le.1 h, layoutNodeToNode_of_lt l (not_le.1 h)⟩

end Winsmux.Layout
