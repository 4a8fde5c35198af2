import Winsmux.Layout.Server

/-!
# The server's commands

A command edits the active window, the list of windows or both; where it would panic it
has no successor. A run of the server is a run of commands from one window with one pane.
-/
namespace Winsmux.Layout
open PathTree Json Transition

/-- How the next warm pane comes out. -/
inductive WarmSpawn where
  | refused
  /-- Refused with the pane id used up. -/
  | lost
  | ready

inductive SelectTarget where
  | dir (dir : FocusDir)
  | last
  | next
  | prev

inductive Command where
  | newWindow (defaultShell refused detached : Bool) (warm : WarmSpawn)
  | splitWindow (kind : LayoutKind) (defaultShell refused detached : Bool) (size : Option (ℕ × Bool))
      (warm : WarmSpawn)
  | killPane
  | killPaneById (pid : ℕ)
  | breakPane
  | joinPane (targetWin : ℕ)
  | movePane (targetWin : ℕ)
  | rotateWindow (reverse : Bool)
  | swapPane (dir : FocusDir)
  | selectPane (target : SelectTarget)
  | lastPane
  | displayPaneSelect (digit : ℕ)
  | selectLayout (layout : Text)
  | nextLayout
  | prevLayout
  | cycleTopLayout
  | zoomPane
  | resizePane (dir : FocusDir) (amount : ℕ)
  | resizePaneAbsolute (axis : Axis) (size : ℕ)
  | resizePanePercent (axis : Axis) (pct : ℕ)
  | focusPane (pid : ℕ)
  | focusPaneByIndex (idx : ℕ) (checked : Bool)
  | focusWindowTemp (wid : ℕ)
  | focusPaneTemp (pid : ℕ)
  | focusPaneByIndexTemp (idx : ℕ)
  /-- What follows every command but the three above. -/
  | restoreFocus
  | selectWindow (idx : ℕ)
  | nextWindow
  | prevWindow
  | lastWindow
  | killWindow
  | clientSize (width height : ℕ) (respawn : Bool) (warm : WarmSpawn)
  | mouseDown (x y : ℕ)
  | mouseDrag (x y : ℕ)
  | mouseUp
  | paneMouse (paneId : ℕ)
  | splitSetSizes (path sizes : List ℕ)
  /-- The processes of these panes have exited. -/
  | reapChildren (exited : List ℕ)

namespace Server

/-- The active window; the index panics where there is none. -/
def active (s : Server) : Except Panic Window :=
  match s.windows[s.activeIdx]? with
  | some w => .ok w
  | none => .error .windowIndex

def setActive (s : Server) (w : Window) : Server :=
  { s with windows := s.windows.set s.activeIdx w }

def onActive (f : Window → Except Panic Window) (s : Server) : Except Panic Server := do
  let w ← s.active
  let w ← f w
  .ok (s.setActive w)

def mapActive (f : Window → Window) : Server → Except Panic Server := onActive fun w => .ok (f w)

def withActive (idx : ℕ) (s : Server) : Server := { s with activeIdx := idx }

def unzoomIfZoomed : Server → Except Panic Server := mapActive Window.unzoom

/-- A warm pane in place of one that was used. -/
def replenish (warm : WarmSpawn) (s : Server) : Server :=
  match s.warmPane, warm with
  | some _, _ => s
  | none, .refused => s
  | none, .lost => { s with nextPaneId := s.nextPaneId + 1 }
  | none, .ready => { s with warmPane := some s.nextPaneId, nextPaneId := s.nextPaneId + 1 }

/-- The pane of a new shell: the warm one for a default shell, else a new id. -/
def takePane (defaultShell : Bool) (s : Server) : ℕ × Server :=
  match defaultShell, s.warmPane with
  | true, some id => (id, { s with warmPane := none })
  | _, _ => (s.nextPaneId, { s with nextPaneId := s.nextPaneId + 1 })

/-- A window of its own at the end of the list, in focus. -/
def pushWindow (root : Node) (mru : List ℕ) (s : Server) : Server :=
  { s with
    windows := s.windows ++ [⟨s.nextWinId, root, [], 0, mru, none⟩]
    nextWinId := s.nextWinId + 1 }

def createWindow (defaultShell refused : Bool) (s : Server) : Server :=
  if refused && !(defaultShell && s.warmPane.isSome) then s
  else
    let (id, s) := s.takePane defaultShell
    let s := s.pushWindow (.leaf ⟨id, false⟩) [id]
    s.withActive (s.windows.length - 1)

def newWindow (defaultShell refused detached : Bool) (warm : WarmSpawn) (s : Server) : Server :=
  let s' := s.createWindow defaultShell refused
  let s' := if detached then s'.withActive s.activeIdx else s'
  s'.replenish warm

/-- The active pane split, the new pane in focus. -/
def splitPane (kind : LayoutKind) (id : ℕ) (w : Window) : Except Panic Window := do
  let root ← replaceLeafWithSplit kind (.leaf ⟨id, false⟩) w.root w.activePath
  .ok { w with root, activePath := w.activePath ++ [1], paneMru := touchMru w.paneMru id }

def splitActive (kind : LayoutKind) (defaultShell : Bool) (s : Server) : Except Panic Server :=
  (s.takePane defaultShell).2.onActive (splitPane kind (s.takePane defaultShell).1)

/-- The focus back from the new pane: to the first half of the split at the old path. -/
def revertFocus (prevPath : List ℕ) (w : Window) : Window :=
  { w with
    activePath := prevPath ++ [0]
    paneMru :=
      match w.activePaneId with
      | some id => removeFromMru w.paneMru id
      | none => w.paneMru }

def splitWindow (kind : LayoutKind) (defaultShell refused detached : Bool) (size : Option (ℕ × Bool))
    (warm : WarmSpawn) (s : Server) : Except Panic Server := do
  let s ← s.unzoomIfZoomed
  let w ← s.active
  let prevPath := w.activePath
  let s ← (if refused then .ok s else s.splitActive kind defaultShell)
  let s ←
    (match size with
    | none => .ok s
    | some (val, isPct) =>
      s.onActive (setSplitPercent prevPath (splitPercent kind s.lastWindowArea val isPct)))
  let s ←
    (if detached then s.mapActive (revertFocus prevPath)
    else .ok { s with tempFocusRestore := none })
  .ok (s.replenish warm)

def killPane (s : Server) : Except Panic Server := do
  let s ← s.unzoomIfZoomed
  s.onActive fun w => killPaneAtPath w.activePath w

/-- The window that holds a pane, and the path of the pane. -/
def findPane (pid : ℕ) (s : Server) : Option (ℕ × List ℕ) :=
  (s.windows.zipIdx.findSome? fun (w, i) => (findPathById w.root pid).map fun path => (i, path))

/-- The focus back on a pane after a kill in another window. -/
def refocus (paneId : Option ℕ) (w : Window) : Window :=
  { w with activePath := (paneId.bind (findPathById w.root)).getD (firstLeafPath w.root) }

def killPaneById (pid : ℕ) (s : Server) : Except Panic Server := do
  let s ← s.unzoomIfZoomed
  let w ← s.active
  match s.findPane pid with
  | none => .ok s
  | some (target, path) =>
    match s.windows[target]? with
    | none => .ok s
    | some t => do
      let t ← killPaneAtPath path t
      let s' := { s with windows := s.windows.set target t }
      if target = s.activeIdx then .ok s' else s'.mapActive (refocus w.activePaneId)

/-- The active pane taken out of its window; a window without panes is left with no root. -/
def takeActive (s : Server) : Except Panic (Option Node × Server) := do
  let w ← s.active
  match extractNode w.root w.activePath with
  | (some rest, some pane) =>
    .ok (some pane, s.setActive { w with root := rest, activePath := firstLeafPath rest })
  | (none, some pane) => .ok (some pane, { s with windows := s.windows.eraseIdx s.activeIdx })
  | (rest, none) => .ok (none, s.setActive { w with root := rest.getD placeholder })

def breakPane (s : Server) : Except Panic Server := do
  let s ← s.unzoomIfZoomed
  match ← s.takeActive with
  | (none, s) => .ok s
  | (some pane, s) =>
    let s := s.pushWindow pane (collectPaneIds pane)
    .ok (s.withActive (s.windows.length - 1))

/-- A pane put into a split at the active path, which stays as it was. -/
def graft (pane : Node) (w : Window) : Except Panic Window := do
  let root ← replaceLeafWithSplit .vertical pane w.root w.activePath
  .ok { w with root }

/-- The active pane moved to another window, into a split at that window's active path. -/
def movePane (targetWin : ℕ) (s : Server) : Except Panic Server :=
  if targetWin < s.windows.length ∧ targetWin ≠ s.activeIdx then do
    match ← s.takeActive with
    | (none, s') => .ok s'
    | (some pane, s') =>
      let srcEmpty : Bool := s'.windows.length < s.windows.length
      let tgt := if srcEmpty && targetWin > s.activeIdx then targetWin - 1 else targetWin
      let s' := if srcEmpty then s'.withActive (min s'.activeIdx (s'.windows.length - 1)) else s'
      if tgt < s'.windows.length then
        (s'.withActive tgt).onActive (graft pane)
      else .ok s'
  else .ok s

def joinPane (targetWin : ℕ) (s : Server) : Except Panic Server := do
  let s ← s.unzoomIfZoomed
  s.movePane targetWin

/-- After a move within the window: the new pane is the most recent, the zoom ends. -/
def afterMove (oldPath : List ℕ) (s : Server) : Except Panic Server := do
  let w ← s.active
  if w.activePath = oldPath then .ok s
  else do
    let s ← s.mapActive Window.touchActive
    s.unzoomIfZoomed

/-- The active path exchanged with the last one. -/
def swapLastPath (s : Server) : Except Panic Server := do
  let w ← s.active
  let s' ← s.mapActive fun w => { w with activePath := s.lastPanePath }
  .ok { s' with lastPanePath := w.activePath }

def selectPaneDir (dir : FocusDir) (s : Server) : Except Panic Server := do
  let w ← s.active
  let s ← s.unzoomIfZoomed
  let unzoomed ← s.active
  if w.zoomSaved.isSome then
    if hasTarget s.lastWindowArea dir unzoomed then do
      let s' ← s.mapActive (moveFocus s.lastWindowArea dir)
      .ok { s' with lastPanePath := w.activePath }
    else s.mapActive Window.toggleZoom
  else do
    let s' ← s.mapActive (moveFocus s.lastWindowArea dir)
    let w' ← s'.active
    if w'.activePath = w.activePath then .ok s' else .ok { s' with lastPanePath := w.activePath }

def selectPaneLast (s : Server) : Except Panic Server := do
  let w ← s.active
  let s ← (if s.lastPanePath = [] then .ok s else s.swapLastPath)
  s.afterMove w.activePath

def selectPaneCycle (step : ℕ → ℕ → ℕ) (s : Server) : Except Panic Server := do
  let w ← s.active
  let s ←
    (match cyclePane step w with
    | none => .ok s
    | some path => do
      let s ← s.mapActive fun w => { w with activePath := path }
      .ok { s with lastPanePath := w.activePath })
  s.afterMove w.activePath

def selectPane : SelectTarget → Server → Except Panic Server
  | .dir dir => selectPaneDir dir
  | .last => selectPaneLast
  | .next => selectPaneCycle fun cur _ => cur + 1
  | .prev => selectPaneCycle fun cur len => cur + len - 1

/-- The last index flipped between 0 and 1. -/
def flipLast (path : List ℕ) : List ℕ := path.dropLast ++ (path.getLast?.map fun i => (i + 1) % 2).toList

def lastPane (s : Server) : Except Panic Server := do
  let w ← s.active
  if s.lastPanePath ≠ [] ∧ pathExists w.root s.lastPanePath then s.swapLastPath
  else s.mapActive fun w => { w with activePath := flipLast w.activePath }

def displayPaneSelect (digit : ℕ) (s : Server) : Except Panic Server := do
  let w ← s.active
  let rects := computeRects w.root s.lastWindowArea
  match (rects.take 10).zipIdx.find? fun l => (l.2 + s.options.paneBaseIndex) % 10 = digit with
  | none => .ok s
  | some ((path, _), _) => do
    let s' ← s.mapActive fun w => { w with activePath := path }
    if path = w.activePath then .ok s' else .ok { s' with lastPanePath := w.activePath }

/-- The focus on a pane of any window. -/
def focusPaneById (pid : ℕ) (s : Server) : Except Panic Server :=
  match s.findPane pid with
  | none => .ok s
  | some (target, path) =>
    (s.withActive target).mapActive fun w =>
      { w with activePath := path, paneMru := touchMru w.paneMru pid }

/-- The zoom of the window now active ends where its path differs from the old one. -/
def unzoomIfMoved (oldPath : List ℕ) (s : Server) : Except Panic Server := do
  let w ← s.active
  if w.activePath = oldPath then .ok s else s.unzoomIfZoomed

def focusPane (pid : ℕ) (s : Server) : Except Panic Server := do
  let w ← s.active
  let s ← s.focusPaneById pid
  s.unzoomIfMoved w.activePath

def nthPanePath (idx : ℕ) (w : Window) : Option (List ℕ) := (collectPanePaths w.root)[idx]?

def focusPaneByIdx (idx : ℕ) : Server → Except Panic Server :=
  mapActive fun w => { w with activePath := (nthPanePath idx w).getD w.activePath }

def focusPaneByIndex (idx : ℕ) (checked : Bool) (s : Server) : Except Panic Server := do
  let w ← s.active
  let s ← s.focusPaneByIdx idx
  let s ← s.unzoomIfMoved w.activePath
  if checked && (nthPanePath idx w).isNone then .ok s else s.mapActive Window.touchActive

/-- What to go back to: the active window and its pane, where nothing is saved yet. -/
def saveFocus (s : Server) : Except Panic Server := do
  match s.tempFocusRestore with
  | some _ => .ok s
  | none =>
    let w ← s.active
    .ok { s with tempFocusRestore := some (s.activeIdx, w.activePaneId.getD usizeMax) }

def focusWindowTemp (wid : ℕ) (s : Server) : Except Panic Server := do
  let s ← s.saveFocus
  if s.options.windowBaseIndex ≤ wid ∧ wid - s.options.windowBaseIndex < s.windows.length then
    .ok (s.withActive (wid - s.options.windowBaseIndex))
  else .ok s

def focusPaneTemp (pid : ℕ) (s : Server) : Except Panic Server := do
  let saved ← s.saveFocus
  if (s.findPane pid).isSome then saved.focusPaneById pid else .ok s

def focusPaneByIndexTemp (idx : ℕ) (s : Server) : Except Panic Server := do
  let saved ← s.saveFocus
  let w ← s.active
  if (nthPanePath idx w).isSome then saved.focusPaneByIdx idx else .ok s

def restoreFocus (s : Server) : Except Panic Server :=
  match s.tempFocusRestore with
  | none => .ok s
  | some (idx, paneId) =>
    let s := { s with tempFocusRestore := none }
    if idx < s.windows.length then
      (s.withActive idx).mapActive fun w =>
        { w with activePath := (findPathById w.root paneId).getD w.activePath }
    else .ok s

def selectWindow (idx : ℕ) (s : Server) : Server :=
  let internal := idx - s.options.windowBaseIndex
  if s.options.windowBaseIndex ≤ idx ∧ internal < s.windows.length ∧ internal ≠ s.activeIdx then
    { s with lastWindowIdx := s.activeIdx, activeIdx := internal }
  else s

def stepWindow (next : ℕ) (s : Server) : Server :=
  if s.windows = [] then s
  else { s with lastWindowIdx := s.activeIdx, activeIdx := next % s.windows.length }

def lastWindow (s : Server) : Server :=
  if s.windows.length > 1 ∧ s.lastWindowIdx < s.windows.length then
    { s with activeIdx := s.lastWindowIdx, lastWindowIdx := s.activeIdx }
  else s

def killWindow (s : Server) : Except Panic Server :=
  if s.windows.length > 1 then do
    let _ ← s.active
    let windows := s.windows.eraseIdx s.activeIdx
    .ok { s with windows, activeIdx := min s.activeIdx (windows.length - 1) }
  else if s.windows = [] then .error .windowIndex
  -- the processes of the last window are killed; what that leaves is reaped later
  else .ok s

def clientSize (width height : ℕ) (respawn : Bool) (warm : WarmSpawn) (s : Server) : Server :=
  let s := { s with lastWindowArea := ⟨0, 0, width, height⟩ }
  if respawn || s.warmPane.isNone then { s with warmPane := none }.replenish warm else s

def mouseDown (x y : ℕ) (s : Server) : Except Panic Server :=
  let area := s.lastWindowArea
  if y = area.y + area.height then .ok s
  else do
    let w ← s.active
    let hit := (computeRects w.root area).filter fun l => l.2.contains x y
    let s ← s.mapActive fun w =>
      hit.foldl (fun w l =>
        { w with
          activePath := l.1
          paneMru :=
            match getActivePaneId w.root l.1 with
            | some id => touchMru w.paneMru id
            | none => w.paneMru }) w
    let borders := if w.zoomSaved.isSome then [] else computeSplitBorders w.root area
    let border := borders.find? fun b =>
      match b.kind with
      | .horizontal => b.pos - 1 ≤ x && x ≤ b.pos + 1
      | .vertical => b.pos - 1 ≤ y && y ≤ b.pos + 1
    match border with
    | none => .ok s
    | some b =>
      match splitSizesAt w.root b.path b.index with
      | none => .ok s
      | some (left, _) =>
        let (startX, startY) := match b.kind with | .horizontal => (b.pos, y) | .vertical => (x, b.pos)
        .ok { s with drag := some ⟨b.path, b.kind, b.index, startX, startY, left, b.totalPixels⟩ }

def mouseDrag (x y : ℕ) (s : Server) : Except Panic Server :=
  s.onActive fun w =>
    match s.drag with
    | some d => adjustSplitSizes d x y w
    | none => .ok w

def mouseUp (s : Server) : Except Panic Server := do
  let _ ← s.active
  .ok { s with drag := none }

/-- A click on a pane. -/
def paneMouse (paneId : ℕ) (s : Server) : Except Panic Server :=
  s.mapActive fun w =>
    let paths := (computeRects w.root s.lastWindowArea).map Prod.fst
    match paths.find? fun path => getActivePaneId w.root path = some paneId with
    | none => w
    | some path =>
      if w.activePath = path then w
      else { w with activePath := path, paneMru := touchMru w.paneMru paneId }

/-- The active path after a prune: by the pane's id, then by recency, then the first leaf. -/
def repairPath (activeId : Option ℕ) (w : Window) : Window :=
  if w.activePaneId ≠ activeId ∨ !pathExists w.root w.activePath then
    let found := (activeId.bind (findPathById w.root)).or (w.paneMru.findSome? (findPathById w.root))
    { w with activePath := found.getD (firstLeafPath w.root) }
  else w

/-- A window after its exited panes are gone. -/
def pruneWindow (root : Node) (w : Window) : Window :=
  let mru :=
    if countPanes root < countPanes w.root then w.paneMru.filter (· ∈ collectPaneIds root) else w.paneMru
  repairPath w.activePaneId { w with root, paneMru := mru }

def removeWindow (i : ℕ) (s : Server) : Server :=
  let windows := s.windows.eraseIdx i
  let activeIdx :=
    if windows = [] then s.activeIdx
    else if i < s.activeIdx then s.activeIdx - 1
    else min s.activeIdx (windows.length - 1)
  { s with windows, activeIdx }

def reapWindow (exited : List ℕ) (s : Server) (i : ℕ) : Server :=
  match s.windows[i]? with
  | none => s
  | some w =>
    if hasAnyExited exited w.root then
      match pruneExited exited s.options.remainOnExit w.root with
      | some root => { s with windows := s.windows.set i (pruneWindow root w) }
      | none => s.removeWindow i
    else s

/-- Windows from the last to the first. -/
def reapChildren (exited : List ℕ) (s : Server) : Server :=
  (List.range s.windows.length).reverse.foldl (reapWindow exited) s

end Server

open Server in
/-- The zoom ended, then an edit of the active window. -/
def unzoomThen (f : Window → Window) (s : Server) : Except Panic Server := do
  let s ← s.unzoomIfZoomed
  s.mapActive f

/-- The signed amount of a resize: towards the top or left it is negative. -/
def resizeBy (dir : FocusDir) (amount : ℕ) : Window → Window :=
  match dir with
  | .up => resizePaneVertical (asSigned 16 (-(asSigned 16 amount)))
  | .down => resizePaneVertical (asSigned 16 amount)
  | .left => resizePaneHorizontal (asSigned 16 (-(asSigned 16 amount)))
  | .right => resizePaneHorizontal (asSigned 16 amount)

def percentOf (axis : Axis) (area : Rect) (pct : ℕ) : ℕ :=
  u16 (max 1 ((match axis with | .x => area.width | .y => area.height) * pct / 100))

open Server in
/-- One command. -/
def step (s : Server) : Command → Except Panic Server
  | .newWindow defaultShell refused detached warm => .ok (s.newWindow defaultShell refused detached warm)
  | .splitWindow kind defaultShell refused detached size warm =>
    s.splitWindow kind defaultShell refused detached size warm
  | .killPane => s.killPane
  | .killPaneById pid => s.killPaneById pid
  | .breakPane => s.breakPane
  | .joinPane targetWin => s.joinPane targetWin
  | .movePane targetWin => s.movePane targetWin
  | .rotateWindow reverse => s.mapActive (rotatePanes reverse)
  | .swapPane dir => unzoomThen (swapPane s.lastWindowArea dir) s
  | .selectPane target => selectPane target s
  | .lastPane => s.lastPane
  | .displayPaneSelect digit => s.displayPaneSelect digit
  | .selectLayout layout => unzoomThen (applyLayout s.options layout) s
  | .nextLayout => unzoomThen (cycleLayout s.options) s
  | .prevLayout => unzoomThen (cycleLayoutReverse s.options) s
  | .cycleTopLayout => s.mapActive cycleTopLayout
  | .zoomPane => s.mapActive Window.toggleZoom
  | .resizePane dir amount => unzoomThen (resizeBy dir amount) s
  | .resizePaneAbsolute axis size => unzoomThen (resizePaneAbsolute axis size) s
  | .resizePanePercent axis pct =>
    unzoomThen (resizePaneAbsolute axis (percentOf axis s.lastWindowArea pct)) s
  | .focusPane pid => s.focusPane pid
  | .focusPaneByIndex idx checked => s.focusPaneByIndex idx checked
  | .focusWindowTemp wid => s.focusWindowTemp wid
  | .focusPaneTemp pid => s.focusPaneTemp pid
  | .focusPaneByIndexTemp idx => s.focusPaneByIndexTemp idx
  | .restoreFocus => s.restoreFocus
  | .selectWindow idx => .ok (s.selectWindow idx)
  | .nextWindow => .ok (s.stepWindow (s.activeIdx + 1))
  | .prevWindow => .ok (s.stepWindow (s.activeIdx + s.windows.length - 1))
  | .lastWindow => .ok s.lastWindow
  | .killWindow => s.killWindow
  | .clientSize width height respawn warm => .ok (s.clientSize width height respawn warm)
  | .mouseDown x y => s.mouseDown x y
  | .mouseDrag x y => s.mouseDrag x y
  | .mouseUp => s.mouseUp
  | .paneMouse paneId => s.paneMouse paneId
  | .splitSetSizes path sizes => s.mapActive (handleSplitSetSizes path sizes)
  | .reapChildren exited => .ok (s.reapChildren exited)

/-- One window with one pane. -/
def start (options : Options) (area : Rect) (paneId winId : ℕ) : Server where
  windows := [⟨winId, .leaf ⟨paneId, false⟩, [], 0, [paneId], none⟩]
  activeIdx := 0
  lastWindowIdx := 0
  lastPanePath := []
  lastWindowArea := area
  nextPaneId := paneId + 1
  nextWinId := winId + 1
  warmPane := none
  drag := none
  tempFocusRestore := none
  options := options

/-- The server from a start: a command that would panic is not enabled. -/
def session (s : Server) : System Server Command where
  init := s
  enabled s c := (step s c).isOk
  next s c := (step s c).toOption.getD s

instance session.decidable (s0 s : Server) (c : Command) : Decidable ((session s0).enabled s c) :=
  inferInstanceAs (Decidable ((step s c).isOk = true))

/-- A terminal of 80 columns and 24 lines. -/
def terminal : Server := start ⟨0, 0, 0, 0, false⟩ ⟨0, 0, 80, 24⟩ 1 1

end Winsmux.Layout
