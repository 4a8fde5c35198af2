import Winsmux.Layout.WindowCommand
import Winsmux.Positions

/-!
# The windows of a run

Which windows a command removes and makes, by id. Every command leaves each of the others
once, and the active index in range: `account_step` says so of one command, `Numbered` is
what it keeps in every run.
-/
namespace Winsmux.Layout
open PathTree Json Transition Positions

namespace Window
variable {w w' : Window}

@[simp] theorem id_unzoom (w : Window) : w.unzoom.id = w.id := by
  rw [unzoom]
  split <;> rfl

@[simp] theorem id_toggleZoom (w : Window) : w.toggleZoom.id = w.id := by
  rw [toggleZoom]
  split
  · rfl
  · exact id_unzoom w

@[simp] theorem id_touchActive (w : Window) : w.touchActive.id = w.id := by
  rw [touchActive]
  split <;> rfl

end Window

section Edits
variable {w w' : Window}

@[simp] theorem id_moveFocus (area : Rect) (dir : FocusDir) (w : Window) :
    (moveFocus area dir w).id = w.id := by
  obtain ⟨mru, hm⟩ := moveFocus_eq area dir w
  rw [hm]
  rfl

@[simp] theorem id_rotatePanes (reverse : Bool) (w : Window) : (rotatePanes reverse w).id = w.id := by
  rw [rotatePanes]
  split
  · split <;> rfl
  · rfl

@[simp] theorem id_applyLayout (options : Options) (layout : Text) (w : Window) :
    (applyLayout options layout w).id = w.id := by
  simp only [applyLayout]
  split
  · split <;> rfl
  · rfl

@[simp] theorem id_cycleLayoutBy (k : ℕ) (options : Options) (w : Window) :
    (cycleLayoutBy k options w).id = w.id := by
  rw [cycleLayoutBy]
  split
  · rfl
  · exact id_applyLayout ..

@[simp] theorem id_resizeShare (kind : LayoutKind) (new : ℕ → ℕ) (w : Window) :
    (resizeShare kind new w).id = w.id := by
  simp only [resizeShare]
  split <;> rfl

@[simp] theorem id_resizeBy (dir : FocusDir) (amount : ℕ) (w : Window) :
    (resizeBy dir amount w).id = w.id := by
  cases dir <;> exact id_resizeShare ..

@[simp] theorem id_handleSplitSetSizes (path sizes : List ℕ) (w : Window) :
    (handleSplitSetSizes path sizes w).id = w.id := by
  rw [handleSplitSetSizes]
  split
  · split <;> rfl
  · rfl

@[simp] theorem id_repairPath (activeId : Option ℕ) (w : Window) :
    (Server.repairPath activeId w).id = w.id := by
  rw [Server.repairPath]
  split <;> rfl

@[simp] theorem id_pruneWindow (root : Node) (w : Window) : (Server.pruneWindow root w).id = w.id :=
  id_repairPath ..

theorem id_killPaneAtPath {path : List ℕ} (h : killPaneAtPath path w = .ok w') : w'.id = w.id := by
  obtain ⟨root, -, h⟩ := bind_eq_ok.1 h
  rw [← Except.ok.inj h]

theorem id_splitPane {kind : LayoutKind} {id : ℕ} (h : Server.splitPane kind id w = .ok w') :
    w'.id = w.id := by
  obtain ⟨root, -, h⟩ := bind_eq_ok.1 h
  rw [← Except.ok.inj h]

theorem id_graft {pane : Node} (h : Server.graft pane w = .ok w') : w'.id = w.id := by
  obtain ⟨root, -, h⟩ := bind_eq_ok.1 h
  rw [← Except.ok.inj h]

theorem id_setSplitPercent {path : List ℕ} {pct : ℕ} (h : setSplitPercent path pct w = .ok w') :
    w'.id = w.id := by
  rw [setSplitPercent] at h
  split at h
  · split at h
    · contradiction
    · rw [← Except.ok.inj h]
  · rw [← Except.ok.inj h]

theorem id_adjustSplitSizes {d : DragState} {x y : ℕ} (h : adjustSplitSizes d x y w = .ok w') :
    w'.id = w.id := by
  rw [adjustSplitSizes] at h
  split at h
  · split at h
    · obtain ⟨⟨left, right⟩, -, h⟩ := bind_eq_ok.1 h
      rw [← Except.ok.inj h]
    · contradiction
  · rw [← Except.ok.inj h]

end Edits

namespace Server
variable {s s' t : Server} {w : Window}

def windowIds (s : Server) : List ℕ := s.windows.map Window.id

/-- The id of the active window. -/
def activeId (s : Server) : Option ℕ := s.windowIds[s.activeIdx]?

@[simp] theorem length_windowIds (s : Server) : s.windowIds.length = s.windows.length := List.length_map ..

theorem windowIds_getElem? {i : ℕ} (hw : s.windows[i]? = some w) : s.windowIds[i]? = some w.id := by
  rw [windowIds, List.getElem?_map, hw]
  rfl

theorem map_id_set {windows : List Window} {i : ℕ} {v : Window} (hw : windows[i]? = some w)
    (hid : v.id = w.id) : (windows.set i v).map Window.id = windows.map Window.id := by
  obtain ⟨hi, rfl⟩ := List.getElem?_eq_some_iff.1 hw
  rw [List.map_set, hid, ← List.getElem_map Window.id (h := by simpa using hi), List.set_getElem_self]

/-- The same windows and the same window to go back to, the active index in range where
it was. -/
structure Steady (s s' : Server) : Prop where
  ids : s'.windowIds = s.windowIds
  next : s'.nextWinId = s.nextWinId
  last : s'.lastWindowIdx = s.lastWindowIdx
  inRange : s.activeIdx ≤ s.windows.length - 1 → s'.activeIdx ≤ s'.windows.length - 1

theorem Steady.length_eq (h : Steady s s') : s'.windows.length = s.windows.length := by
  have := congrArg List.length h.ids
  simpa using this

theorem Steady.of_eq (hw : s'.windows = s.windows) (hn : s'.nextWinId = s.nextWinId)
    (hl : s'.lastWindowIdx = s.lastWindowIdx) (ha : s'.activeIdx = s.activeIdx) : Steady s s' where
  ids := by rw [windowIds, hw, windowIds]
  next := hn
  last := hl
  inRange := by rw [hw, ha]; exact id

theorem Steady.trans (h : Steady s t) (h' : Steady t s') : Steady s s' :=
  ⟨h'.ids.trans h.ids, h'.next.trans h.next, h'.last.trans h.last, fun hs => h'.inRange (h.inRange hs)⟩

theorem Steady.focus (hw : s'.windows = s.windows) (hn : s'.nextWinId = s.nextWinId)
    (hl : s'.lastWindowIdx = s.lastWindowIdx) (ha : s'.activeIdx < s.windows.length) : Steady s s' where
  ids := by rw [windowIds, hw, windowIds]
  next := hn
  last := hl
  inRange _ := by rw [hw]; omega

def Keeps (s : Server) (x : Except Panic Server) : Prop := ∀ s', x = .ok s' → Steady s s'

theorem Keeps.ok (h : Steady s s') : Keeps s (.ok s') := by
  intro t ht
  rw [← Except.ok.inj ht]
  exact h

theorem Keeps.self (s : Server) : Keeps s (.ok s) := .ok (.of_eq rfl rfl rfl rfl)

theorem Keeps.get {α : Type} {x : Except Panic α} {f : α → Except Panic Server}
    (hf : ∀ a, x = .ok a → Keeps s (f a)) : Keeps s (x >>= f) := by
  intro s' h
  obtain ⟨a, ha, h⟩ := bind_eq_ok.1 h
  exact hf a ha s' h

theorem Steady.keeps {x : Except Panic Server} (h : Steady s t) (hx : Keeps t x) : Keeps s x :=
  fun s' hs => h.trans (hx s' hs)

theorem Keeps.andThen {x : Except Panic Server} {f : Server → Except Panic Server} (hx : Keeps s x)
    (hf : ∀ t, Keeps t (f t)) : Keeps s (x >>= f) :=
  .get fun t ht => (hx t ht).keeps (hf t)

theorem Keeps.ite {p : Prop} [Decidable p] {x y : Except Panic Server} (hx : p → Keeps s x)
    (hy : ¬ p → Keeps s y) : Keeps s (if p then x else y) := by
  split
  · exact hx ‹_›
  · exact hy ‹_›

theorem keeps_onActive {f : Window → Except Panic Window} (hf : ∀ w w', f w = .ok w' → w'.id = w.id) :
    Keeps s (s.onActive f) := by
  intro s' h
  obtain ⟨w, w', hw, hw', rfl⟩ := onActive_eq_ok.1 h
  refine ⟨map_id_set (active_eq_ok.1 hw) (hf w w' hw'), rfl, rfl, fun hs => ?_⟩
  show s.activeIdx ≤ (s.windows.set s.activeIdx w').length - 1
  rwa [List.length_set]

theorem keeps_mapActive {f : Window → Window} (hf : ∀ w, (f w).id = w.id) : Keeps s (s.mapActive f) := by
  refine keeps_onActive fun w w' h => ?_
  rw [← Except.ok.inj h]
  exact hf w

theorem keeps_unzoom (s : Server) : Keeps s s.unzoomIfZoomed := keeps_mapActive Window.id_unzoom

theorem keeps_focusOn {i : ℕ} (hi : i < s.windows.length) {f : Window → Window}
    (hf : ∀ w, (f w).id = w.id) : Keeps s ((s.withActive i).mapActive f) :=
  Steady.keeps (t := s.withActive i) (.focus rfl rfl rfl hi) (keeps_mapActive hf)

theorem steady_replenish (warm : WarmSpawn) (s : Server) : Steady s (s.replenish warm) := by
  rw [replenish.eq_def]
  split <;> exact .of_eq rfl rfl rfl rfl

theorem steady_takePane (defaultShell : Bool) (s : Server) : Steady s (s.takePane defaultShell).2 := by
  rw [takePane.eq_def]
  split <;> exact .of_eq rfl rfl rfl rfl

theorem keeps_unzoomThen {f : Window → Window} (hf : ∀ w, (f w).id = w.id) : Keeps s (unzoomThen f s) :=
  .andThen (keeps_unzoom s) fun _ => keeps_mapActive hf

theorem keeps_splitWindow (kind : LayoutKind) (defaultShell refused detached : Bool)
    (size : Option (ℕ × Bool)) (warm : WarmSpawn) (s : Server) :
    Keeps s (s.splitWindow kind defaultShell refused detached size warm) := by
  refine .andThen (keeps_unzoom s) fun t => .get fun w _ => ?_
  refine .andThen (.ite (fun _ => .self t) fun _ => ?_) fun t => ?_
  · exact (steady_takePane defaultShell t).keeps (keeps_onActive fun _ _ => id_splitPane)
  refine .andThen ?_ fun t => ?_
  · cases size with
    | none => exact .self t
    | some size => exact keeps_onActive fun _ _ => id_setSplitPercent
  refine .andThen ?_ fun t => .ok (steady_replenish warm t)
  exact .ite (fun _ => keeps_mapActive fun _ => rfl) fun _ => .ok (.of_eq rfl rfl rfl rfl)

theorem keeps_killPane (s : Server) : Keeps s s.killPane :=
  .andThen (keeps_unzoom s) fun _ => keeps_onActive fun _ _ => id_killPaneAtPath

theorem keeps_killPaneById (pid : ℕ) (s : Server) : Keeps s (s.killPaneById pid) := by
  refine .andThen (keeps_unzoom s) fun t => .get fun w _ => ?_
  split
  · exact .self t
  · next target path hf =>
    split
    · exact .self t
    · next v hv =>
      refine .get fun v' hv' => ?_
      have hset : Steady t { t with windows := t.windows.set target v' } := by
        refine ⟨map_id_set hv (id_killPaneAtPath hv'), rfl, rfl, ?_⟩
        show _ → t.activeIdx ≤ (t.windows.set target v').length - 1
        rw [List.length_set]
        exact id
      exact .ite (fun _ => .ok hset) fun _ => hset.keeps (keeps_mapActive fun _ => rfl)

theorem keeps_afterMove (path : List ℕ) (s : Server) : Keeps s (s.afterMove path) :=
  .get fun _ _ => .ite (fun _ => .self s) fun _ =>
    .andThen (keeps_mapActive Window.id_touchActive) keeps_unzoom

theorem keeps_swapLastPath (s : Server) : Keeps s s.swapLastPath :=
  .get fun _ _ => .andThen (keeps_mapActive fun _ => rfl) fun _ => .ok (.of_eq rfl rfl rfl rfl)

theorem keeps_selectPaneDir (dir : FocusDir) (s : Server) : Keeps s (s.selectPaneDir dir) := by
  have hland : ∀ (t : Server) (path : List ℕ), Keeps t (.ok { t with lastPanePath := path }) :=
    fun t path => .ok (.of_eq rfl rfl rfl rfl)
  refine .get fun w _ => .andThen (keeps_unzoom s) fun t => .get fun u _ => .ite (fun _ => ?_) fun _ => ?_
  · refine .ite (fun _ => ?_) fun _ => keeps_mapActive Window.id_toggleZoom
    exact .andThen (keeps_mapActive (id_moveFocus _ _)) fun t => hland t _
  · refine .andThen (keeps_mapActive (id_moveFocus _ _)) fun t => .get fun _ _ => ?_
    exact .ite (fun _ => .self t) fun _ => hland t _

theorem keeps_selectPane (target : SelectTarget) (s : Server) : Keeps s (selectPane target s) := by
  have hcycle : ∀ move, Keeps s (s.selectPaneCycle move) := by
    intro move
    refine .get fun w _ => .andThen ?_ fun t => keeps_afterMove _ t
    split
    · exact .self s
    · exact .andThen (keeps_mapActive fun _ => rfl) fun _ => .ok (.of_eq rfl rfl rfl rfl)
  cases target with
  | dir dir => exact keeps_selectPaneDir dir s
  | last =>
    refine .get fun w _ => .andThen ?_ fun t => keeps_afterMove _ t
    exact .ite (fun _ => .self s) fun _ => keeps_swapLastPath s
  | next => exact hcycle _
  | prev => exact hcycle _

theorem keeps_lastPane (s : Server) : Keeps s s.lastPane :=
  .get fun _ _ => .ite (fun _ => keeps_swapLastPath s) fun _ => keeps_mapActive fun _ => rfl

theorem keeps_displayPaneSelect (digit : ℕ) (s : Server) : Keeps s (s.displayPaneSelect digit) := by
  refine .get fun w _ => ?_
  dsimp only
  split
  · exact .self s
  · refine .andThen (keeps_mapActive fun _ => rfl) fun t => .ite (fun _ => .self t) fun _ => ?_
    exact .ok (.of_eq rfl rfl rfl rfl)

theorem keeps_focusPaneById (pid : ℕ) (s : Server) : Keeps s (s.focusPaneById pid) := by
  rw [focusPaneById]
  split
  · exact .self s
  · next target path hf =>
    obtain ⟨w, hw, -⟩ := findPane_eq_some hf
    exact keeps_focusOn (List.getElem?_eq_some_iff.1 hw).1 fun _ => rfl

theorem keeps_unzoomIfMoved (path : List ℕ) (s : Server) : Keeps s (s.unzoomIfMoved path) :=
  .get fun _ _ => .ite (fun _ => .self s) fun _ => keeps_unzoom s

theorem keeps_focusPane (pid : ℕ) (s : Server) : Keeps s (s.focusPane pid) :=
  .get fun _ _ => .andThen (keeps_focusPaneById pid s) fun t => keeps_unzoomIfMoved _ t

theorem keeps_focusPaneByIdx (idx : ℕ) (s : Server) : Keeps s (s.focusPaneByIdx idx) :=
  keeps_mapActive fun _ => rfl

theorem keeps_focusPaneByIndex (idx : ℕ) (checked : Bool) (s : Server) :
    Keeps s (s.focusPaneByIndex idx checked) := by
  refine .get fun w _ => .andThen (keeps_focusPaneByIdx idx s) fun t => ?_
  refine .andThen (keeps_unzoomIfMoved _ t) fun t => ?_
  exact .ite (fun _ => .self t) fun _ => keeps_mapActive Window.id_touchActive

theorem keeps_saveFocus (s : Server) : Keeps s s.saveFocus := by
  rw [saveFocus.eq_def]
  split
  · exact .self s
  · exact .get fun _ _ => .ok (.of_eq rfl rfl rfl rfl)

theorem keeps_focusWindowTemp (wid : ℕ) (s : Server) : Keeps s (s.focusWindowTemp wid) :=
  .andThen (keeps_saveFocus s) fun t =>
    .ite (fun h => .ok (.focus rfl rfl rfl h.2)) fun _ => .self t

theorem keeps_focusPaneTemp (pid : ℕ) (s : Server) : Keeps s (s.focusPaneTemp pid) :=
  .get fun t ht => .ite (fun _ => (keeps_saveFocus s t ht).keeps (keeps_focusPaneById pid t))
    fun _ => .self s

theorem keeps_focusPaneByIndexTemp (idx : ℕ) (s : Server) : Keeps s (s.focusPaneByIndexTemp idx) :=
  .get fun t ht => .get fun _ _ =>
    .ite (fun _ => (keeps_saveFocus s t ht).keeps (keeps_focusPaneByIdx idx t)) fun _ => .self s

theorem keeps_restoreFocus (s : Server) : Keeps s s.restoreFocus := by
  rw [restoreFocus.eq_def]
  split
  · exact .self s
  · have hdone : Steady s { s with tempFocusRestore := none } := .of_eq rfl rfl rfl rfl
    exact .ite (fun hi => hdone.keeps (keeps_focusOn hi fun _ => rfl)) fun _ => .ok hdone

theorem keeps_mouseDown (x y : ℕ) (s : Server) : Keeps s (s.mouseDown x y) := by
  refine .ite (fun _ => .self s) fun _ => .get fun w _ => ?_
  refine .andThen (keeps_mapActive fun v => ?_) fun t => ?_
  · obtain ⟨mru, hm⟩ := click_eq ((computeRects w.root s.lastWindowArea).filter fun l => l.2.contains x y) v
    exact (congrArg Window.id hm).trans rfl
  · dsimp only
    split
    · exact .self t
    · split
      · exact .self t
      · exact .ok (.of_eq rfl rfl rfl rfl)

theorem keeps_mouseDrag (x y : ℕ) (s : Server) : Keeps s (s.mouseDrag x y) := by
  refine keeps_onActive fun w w' h => ?_
  split at h
  · exact id_adjustSplitSizes h
  · rw [Except.ok.inj h]

theorem keeps_paneMouse (paneId : ℕ) (s : Server) : Keeps s (s.paneMouse paneId) := by
  refine keeps_mapActive fun w => ?_
  dsimp only
  split
  · rfl
  · split <;> rfl

theorem steady_clientSize (width height : ℕ) (respawn : Bool) (warm : WarmSpawn) (s : Server) :
    Steady s (s.clientSize width height respawn warm) := by
  simp only [clientSize]
  split
  · have hresized : Steady s { s with lastWindowArea := ⟨0, 0, width, height⟩, warmPane := none } :=
      .of_eq rfl rfl rfl rfl
    exact hresized.trans (steady_replenish warm _)
  · exact .of_eq rfl rfl rfl rfl

/-- A switch that records the window left. -/
structure Switched (s s' : Server) : Prop where
  windows : s'.windows = s.windows
  next : s'.nextWinId = s.nextWinId
  left : s'.lastWindowIdx = s.activeIdx
  inRange : s'.activeIdx < s.windows.length

theorem steady_focusWindow (wid : ℕ) (s : Server) : Steady s (s.focusWindow wid) := by
  rw [focusWindow]
  split
  · next idx h => exact .focus rfl rfl rfl (List.findIdx?_eq_some_iff_getElem.1 h).1
  · exact .of_eq rfl rfl rfl rfl

end Server
end Winsmux.Layout
