import Winsmux.Layout.Effect

/-!
# Commands that move the focus

A focus command sets the active path of one window and ends its zoom or not; the trees
stay. `landing` names the window and the path, `endsZoom` the window whose zoom a command
ends.
-/
namespace Winsmux.Layout
open PathTree Json

def Command.movesFocus : Command → Bool
  | .swapPane _ | .selectPane _ | .lastPane | .displayPaneSelect _ | .focusPane _
  | .focusPaneByIndex _ _ | .focusWindowTemp _ | .focusPaneTemp _ | .focusPaneByIndexTemp _
  | .restoreFocus | .selectWindow _ | .nextWindow | .prevWindow | .lastWindow
  | .clientSize _ _ _ _ | .mouseDown _ _ | .mouseUp | .paneMouse _ => true
  | _ => false

/-- The active path after a move in a direction, which is made without the zoom. -/
def directionPath (area : Rect) (dir : FocusDir) (w : Window) : List ℕ :=
  (moveFocus area dir w.unzoom).activePath

def displayPath (s : Server) (digit : ℕ) (w : Window) : List ℕ :=
  let rects := computeRects w.root s.lastWindowArea
  let label := (rects.take 10).zipIdx.find? fun l => (l.2 + s.options.paneBaseIndex) % 10 = digit
  label.elim w.activePath fun l => l.1.1

/-- The last of the panes under the pointer. -/
def clickPath (s : Server) (x y : ℕ) (w : Window) : List ℕ :=
  let hit := (computeRects w.root s.lastWindowArea).filter fun l => l.2.contains x y
  hit.getLast?.elim w.activePath Prod.fst

def paneMousePath (s : Server) (paneId : ℕ) (w : Window) : List ℕ :=
  let paths := (computeRects w.root s.lastWindowArea).map Prod.fst
  (paths.find? fun path => getActivePaneId w.root path = some paneId).getD w.activePath

/-- Where a focus command sets the active path, and to what. -/
@[grind =] def landing (s : Server) (c : Command) : Option (ℕ × List ℕ) :=
  let inActive := fun path : Window → List ℕ => s.windows[s.activeIdx]?.map fun w => (s.activeIdx, path w)
  match c with
  | .swapPane dir => inActive (directionPath s.lastWindowArea dir)
  | .selectPane (.dir dir) => inActive (directionPath s.lastWindowArea dir)
  | .selectPane .last =>
    inActive fun w => if s.lastPanePath = [] then w.activePath else s.lastPanePath
  | .selectPane .next => inActive fun w => (cyclePane (fun cur _ => cur + 1) w).getD w.activePath
  | .selectPane .prev =>
    inActive fun w => (cyclePane (fun cur len => cur + len - 1) w).getD w.activePath
  | .lastPane => inActive s.lastPanePathIn
  | .displayPaneSelect digit => inActive (displayPath s digit)
  | .focusPane pid => s.findPane pid
  | .focusPaneByIndex idx _ => inActive fun w => (Server.nthPanePath idx w).getD w.activePath
  | .focusPaneTemp pid => s.findPane pid
  | .focusPaneByIndexTemp idx => inActive fun w => (Server.nthPanePath idx w).getD w.activePath
  | .restoreFocus =>
    s.tempFocusRestore.bind fun (idx, paneId) =>
      s.windows[idx]?.map fun w => (idx, (findPathById w.root paneId).getD w.activePath)
  | .mouseDown x y => inActive (clickPath s x y)
  | .paneMouse paneId => inActive (paneMousePath s paneId)
  | _ => none

/-- The window whose zoom a command ends, where it is zoomed. -/
def endsZoom (s : Server) (c : Command) : Option ℕ :=
  match c with
  | .splitWindow .. | .killPane | .killPaneById _ | .breakPane | .joinPane _ | .swapPane _
  | .selectPane (.dir _) | .selectLayout _ | .nextLayout | .prevLayout | .zoomPane
  | .resizePane .. | .resizePaneAbsolute .. | .resizePanePercent .. => some s.activeIdx
  | .selectPane _ | .focusPane _ | .focusPaneByIndex .. =>
    match landing s c, s.windows[s.activeIdx]? with
    | some (i, path), some w => if path = w.activePath then none else some i
    | _, _ => none
  | _ => none

/-- What a focus command makes of the windows. -/
inductive Refocus (s : Server) (c : Command) : List Window → Prop
  | same : Refocus s c s.windows
  | kept {i : ℕ} {path : List ℕ} {w : Window} (mru : List ℕ) (hland : landing s c = some (i, path))
      (hw : s.windows[i]? = some w) (hz : endsZoom s c ≠ some i) :
      Refocus s c (s.windows.set i (w.focused path mru))
  | ended {i : ℕ} {path : List ℕ} {w : Window} (mru : List ℕ) (hland : landing s c = some (i, path))
      (hw : s.windows[i]? = some w) (hz : endsZoom s c = some i) :
      Refocus s c (s.windows.set i (w.focused path mru).unzoom)
  /-- A zoomed pane without a neighbor is zoomed anew. -/
  | rezoomed {dir : FocusDir} {w : Window} (hc : c = .selectPane (.dir dir))
      (hw : s.windows[s.activeIdx]? = some w) (hz : w.zoomSaved.isSome) :
      Refocus s c (s.windows.set s.activeIdx w.unzoom.toggleZoom)

theorem unzoom_focused (path mru : List ℕ) (w : Window) :
    (w.focused path mru).unzoom = w.unzoom.focused path mru := by
  obtain ⟨id, root, old, layoutIndex, oldMru, saved⟩ := w
  cases saved <;> rfl

theorem moveFocus_eq (area : Rect) (dir : FocusDir) (w : Window) :
    ∃ mru, moveFocus area dir w = w.focused (moveFocus area dir w).activePath mru := by
  refine ⟨(moveFocus area dir w).paneMru, ?_⟩
  simp only [moveFocus]
  repeat' split
  all_goals rfl

theorem touchActive_eq (w : Window) : ∃ mru, w.touchActive = w.focused w.activePath mru := by
  rw [Window.touchActive]
  split
  · exact ⟨_, rfl⟩
  · exact ⟨w.paneMru, rfl⟩

/-- A move in a direction sets the path and ends the zoom. -/
theorem moveFocus_unzoom (area : Rect) (dir : FocusDir) (w : Window) :
    ∃ mru, moveFocus area dir w.unzoom = (w.focused (directionPath area dir w) mru).unzoom := by
  obtain ⟨mru, hm⟩ := moveFocus_eq area dir w.unzoom
  exact ⟨mru, by rw [unzoom_focused]; exact hm⟩

theorem movedTo_of_ne {path : List ℕ} {w : Window} (h : path ≠ w.activePath) :
    ∃ mru, w.movedTo path = (w.focused path mru).unzoom := by
  obtain ⟨mru, hm⟩ := touchActive_eq { w with activePath := path }
  refine ⟨mru, ?_⟩
  rw [Window.movedTo, if_neg h, hm]
  rfl

theorem movedTo_self (w : Window) : w.movedTo w.activePath = w := if_pos rfl

/-- A click sets the path to the last pane under the pointer. -/
theorem click_eq (hit : List (List ℕ × Rect)) (w : Window) :
    ∃ mru, hit.foldl (fun w l =>
        { w with
          activePath := l.1
          paneMru :=
            match getActivePaneId w.root l.1 with
            | some id => touchMru w.paneMru id
            | none => w.paneMru : Window }) w =
      w.focused (hit.getLast?.elim w.activePath Prod.fst) mru := by
  induction hit using List.reverseRecOn with
  | nil => exact ⟨w.paneMru, rfl⟩
  | append_singleton hit l ih =>
    obtain ⟨mru, hm⟩ := ih
    rw [List.foldl_append, hm, List.getLast?_concat]
    exact ⟨_, rfl⟩

namespace Server
variable {s s' : Server} {w : Window} {c : Command}

theorem set_self {i : ℕ} (hw : s.windows[i]? = some w) : s.windows.set i w = s.windows := by
  obtain ⟨hi, rfl⟩ := List.getElem?_eq_some_iff.1 hw
  exact List.set_getElem_self hi

theorem findPane_eq_some {pid i : ℕ} {path : List ℕ} (h : s.findPane pid = some (i, path)) :
    ∃ w, s.windows[i]? = some w ∧ findPathById w.root pid = some path := by
  obtain ⟨⟨w, j⟩, hmem, hf⟩ := List.exists_of_findSome?_eq_some h
  obtain ⟨q, hq, he⟩ := Option.map_eq_some_iff.1 hf
  obtain ⟨rfl, rfl⟩ := Prod.mk.inj he
  refine ⟨w, ?_, hq⟩
  obtain ⟨hj, hw⟩ := List.mem_zipIdx' hmem
  rw [List.getElem?_eq_getElem hj, hw]

/-- An edit of the active window, with what it makes of it given in the end. -/
theorem Edits.windows_eq {f : Window → Except Panic Window} (h : Edits f s s') :
    ∃ w w', s.windows[s.activeIdx]? = some w ∧ f w = .ok w' ∧
      s'.windows = s.windows.set s.activeIdx w' := by
  obtain ⟨w, w', hw, hw', hs⟩ := h
  exact ⟨w, w', active_eq_ok.1 hw, hw', hs.windows⟩

theorem displayPaneSelect_edits {digit : ℕ} (h : s.displayPaneSelect digit = .ok s') :
    s' = s ∨ Edits (fun w => .ok { w with activePath := displayPath s digit w }) s s' := by
  obtain ⟨w, hw, h⟩ := bind_eq_ok.1 h
  have hs := WindowNow.start hw
  dsimp only at h
  split at h
  · exact .inl (Except.ok.inj h).symm
  · next path _ _ hl =>
    obtain ⟨s1, h1, h⟩ := bind_eq_ok.1 h
    have hpath : displayPath s digit w = path := by rw [displayPath, hl]; rfl
    refine .inr ⟨w, _, hw, rfl, ?_⟩
    rw [hpath]
    have hs1 := hs.mapActive h1
    split at h
    · rw [← Except.ok.inj h]
      exact hs1
    · rw [← Except.ok.inj h]
      exact hs1.congr rfl rfl rfl

theorem focusPaneById_now {pid : ℕ} (h : s.focusPaneById pid = .ok s') :
    s.findPane pid = none ∧ s' = s ∨
      ∃ i path w, s.findPane pid = some (i, path) ∧ s.windows[i]? = some w ∧
        WindowNow (s.withActive i) (w.focused path (touchMru w.paneMru pid)) s' := by
  rw [focusPaneById] at h
  split at h
  · next hf => exact .inl ⟨hf, (Except.ok.inj h).symm⟩
  · next i path hf =>
    obtain ⟨w, w', hw, hw', hs⟩ := mapActive_edits h
    rw [← Except.ok.inj hw'] at hs
    exact .inr ⟨i, path, w, hf, active_eq_ok.1 hw, hs⟩

theorem unzoomIfMoved_now {t t' : Server} {oldPath : List ℕ} (ht : WindowNow s w t)
    (h : t.unzoomIfMoved oldPath = .ok t') :
    WindowNow s (if w.activePath = oldPath then w else w.unzoom) t' := by
  obtain ⟨v, hv, h⟩ := bind_eq_ok.1 h
  obtain rfl := ht.active_eq hv
  split at h
  · next hp =>
    rw [if_pos hp, ← Except.ok.inj h]
    exact ht
  · next hp =>
    rw [if_neg hp]
    exact ht.mapActive h

theorem saveFocus_eq (h : s.saveFocus = .ok s') :
    s'.windows = s.windows ∧ s'.activeIdx = s.activeIdx := by
  rw [saveFocus.eq_def] at h
  split at h
  · rw [← Except.ok.inj h]
    exact ⟨rfl, rfl⟩
  · obtain ⟨w, -, h⟩ := bind_eq_ok.1 h
    rw [← Except.ok.inj h]
    exact ⟨rfl, rfl⟩

theorem findPane_congr {t : Server} (h : t.windows = s.windows) (pid : ℕ) :
    t.findPane pid = s.findPane pid := by
  rw [findPane, findPane, h]

/-- The focus set in the active window, its zoom kept. -/
theorem refocus_kept {path : Window → List ℕ} {mru : Window → List ℕ}
    (hland : ∀ w, s.windows[s.activeIdx]? = some w → landing s c = some (s.activeIdx, path w))
    (hz : endsZoom s c ≠ some s.activeIdx)
    (h : Edits (fun w => .ok (w.focused (path w) (mru w))) s s') : Refocus s c s'.windows := by
  obtain ⟨w, w', hw, hw', hs⟩ := h.windows_eq
  rw [hs, ← Except.ok.inj hw']
  exact .kept (mru w) (hland w hw) hw hz

/-- The focus set in the active window, its zoom ended. -/
theorem refocus_ended {path : Window → List ℕ} {f : Window → Window}
    (hf : ∀ w, ∃ mru, f w = (w.focused (path w) mru).unzoom)
    (hland : ∀ w, s.windows[s.activeIdx]? = some w → landing s c = some (s.activeIdx, path w))
    (hz : endsZoom s c = some s.activeIdx) (h : Edits (fun w => .ok (f w)) s s') :
    Refocus s c s'.windows := by
  obtain ⟨w, w', hw, hw', hs⟩ := h.windows_eq
  obtain ⟨mru, hm⟩ := hf w
  rw [hs, ← Except.ok.inj hw', hm]
  exact .ended mru (hland w hw) hw hz

/-- The zoom ended where the path is another. -/
theorem refocus_movedTo {path : Window → List ℕ}
    (hland : ∀ w, s.windows[s.activeIdx]? = some w → landing s c = some (s.activeIdx, path w))
    (hz : ∀ w, s.windows[s.activeIdx]? = some w → path w ≠ w.activePath →
      endsZoom s c = some s.activeIdx)
    (h : Edits (fun w => .ok (w.movedTo (path w))) s s') : Refocus s c s'.windows := by
  obtain ⟨w, w', hw, hw', hs⟩ := h.windows_eq
  rw [hs, ← Except.ok.inj hw']
  by_cases hp : path w = w.activePath
  · rw [hp, movedTo_self, set_self hw]
    exact .same
  · obtain ⟨mru, hm⟩ := movedTo_of_ne hp
    rw [hm]
    exact .ended mru (hland w hw) hw (hz w hw hp)

theorem refocus_selectPaneDir {dir : FocusDir} (h : s.selectPaneDir dir = .ok s') :
    Refocus s (.selectPane (.dir dir)) s'.windows := by
  obtain ⟨w, w', hw, hw', hs⟩ := (selectPaneDir_edits h).windows_eq
  rw [hs, ← Except.ok.inj hw', selectDirEdit]
  obtain ⟨mru, hm⟩ := moveFocus_unzoom s.lastWindowArea dir w
  have hland : landing s (.selectPane (.dir dir)) =
      some (s.activeIdx, directionPath s.lastWindowArea dir w) := by simp only [landing, hw, Option.map]
  split
  · split
    · rw [hm]
      exact .ended mru hland hw rfl
    · exact .rezoomed rfl hw ‹_›
  · rw [hm]
    exact .ended mru hland hw rfl

theorem refocus_focusPane {pid : ℕ} (h : s.focusPane pid = .ok s') :
    Refocus s (.focusPane pid) s'.windows := by
  obtain ⟨old, hold, h⟩ := bind_eq_ok.1 h
  obtain ⟨s1, h1, h⟩ := bind_eq_ok.1 h
  obtain ⟨-, he⟩ | ⟨i, path, w, hf, hw, hs1⟩ := focusPaneById_now h1
  · rw [he] at h
    have hs := unzoomIfMoved_now (WindowNow.start hold) h
    rw [if_pos rfl] at hs
    rw [hs.windows, set_self (active_eq_ok.1 hold)]
    exact .same
  · have hs : s'.windows = s.windows.set i
        (if path = old.activePath then w.focused path (touchMru w.paneMru pid)
          else (w.focused path (touchMru w.paneMru pid)).unzoom) := (unzoomIfMoved_now hs1 h).windows
    rw [hs]
    by_cases hp : path = old.activePath
    · rw [if_pos hp]
      refine .kept _ hf hw ?_
      simp only [endsZoom, landing, hf, active_eq_ok.1 hold, if_pos hp]
      exact Option.some_ne_none i |>.symm
    · rw [if_neg hp]
      refine .ended _ hf hw ?_
      simp only [endsZoom, landing, hf, active_eq_ok.1 hold, if_neg hp]

theorem refocus_focusPaneByIndex {idx : ℕ} {checked : Bool}
    (h : s.focusPaneByIndex idx checked = .ok s') :
    Refocus s (.focusPaneByIndex idx checked) s'.windows := by
  obtain ⟨w, hw, h⟩ := bind_eq_ok.1 h
  obtain ⟨s1, h1, h⟩ := bind_eq_ok.1 h
  obtain ⟨s2, h2, h⟩ := bind_eq_ok.1 h
  have hs2 := unzoomIfMoved_now ((WindowNow.start hw).mapActive h1) h2
  have hw := active_eq_ok.1 hw
  have hland : landing s (.focusPaneByIndex idx checked) =
      some (s.activeIdx, (nthPanePath idx w).getD w.activePath) := by simp only [landing, hw, Option.map]
  generalize hp : (nthPanePath idx w).getD w.activePath = path at hland hs2
  obtain ⟨mru, hs⟩ : ∃ mru, s'.windows = s.windows.set s.activeIdx
      (if path = w.activePath then w.focused path mru else (w.focused path mru).unzoom) := by
    split at h
    · rw [← Except.ok.inj h]
      exact ⟨w.paneMru, hs2.windows⟩
    · have hs3 := hs2.mapActive h
      obtain ⟨mru, hm⟩ := touchActive_eq (if path = w.activePath then { w with activePath := path }
        else Window.unzoom { w with activePath := path })
      refine ⟨mru, hs3.windows.trans ?_⟩
      rw [hm]
      split
      · rfl
      · rw [activePath_unzoom, unzoom_focused]
        exact congrArg _ (unzoom_focused path w.paneMru w ▸ rfl)
  rw [hs]
  split
  · next hp =>
    refine .kept _ hland hw ?_
    simp only [endsZoom, hland, hw, if_pos hp]
    exact (Option.some_ne_none _).symm
  · next hp =>
    refine .ended _ hland hw ?_
    simp only [endsZoom, hland, hw, if_neg hp]

theorem refocus_focusPaneTemp {pid : ℕ} (h : s.focusPaneTemp pid = .ok s') :
    Refocus s (.focusPaneTemp pid) s'.windows := by
  obtain ⟨saved, hsaved, h⟩ := bind_eq_ok.1 h
  obtain ⟨hwin, -⟩ := saveFocus_eq hsaved
  split at h
  · obtain ⟨-, he⟩ | ⟨i, path, w, hf, hw, hs⟩ := focusPaneById_now h
    · rw [he, hwin]
      exact .same
    · rw [findPane_congr hwin] at hf
      rw [hwin] at hw
      have hs : s'.windows = s.windows.set i (w.focused path (touchMru w.paneMru pid)) := by
        rw [hs.windows, withActive, hwin]
      rw [hs]
      exact .kept _ hf hw (Option.some_ne_none i).symm
  · rw [← Except.ok.inj h]
    exact .same

theorem refocus_focusPaneByIndexTemp {idx : ℕ} (h : s.focusPaneByIndexTemp idx = .ok s') :
    Refocus s (.focusPaneByIndexTemp idx) s'.windows := by
  obtain ⟨saved, hsaved, h⟩ := bind_eq_ok.1 h
  obtain ⟨hwin, hidx⟩ := saveFocus_eq hsaved
  obtain ⟨_, -, h⟩ := bind_eq_ok.1 h
  split at h
  · obtain ⟨w, w', hw, hw', hs⟩ := (mapActive_edits h).windows_eq
    rw [hwin, hidx] at hw hs
    rw [hs, ← Except.ok.inj hw']
    refine .kept w.paneMru ?_ hw (Option.some_ne_none _).symm
    simp only [landing, hw, Option.map]
  · rw [← Except.ok.inj h]
    exact .same

theorem refocus_restoreFocus (h : s.restoreFocus = .ok s') : Refocus s .restoreFocus s'.windows := by
  rw [restoreFocus] at h
  split at h
  · rw [← Except.ok.inj h]
    exact .same
  · next idx paneId ht =>
    dsimp only at h
    split at h
    · obtain ⟨w, w', hw, hw', hs⟩ := (mapActive_edits h).windows_eq
      have hw : s.windows[idx]? = some w := hw
      have hs : s'.windows = s.windows.set idx w' := hs
      rw [hs, ← Except.ok.inj hw']
      refine .kept w.paneMru ?_ hw (Option.some_ne_none idx).symm
      simp only [landing, ht, hw, Option.bind, Option.map]
    · rw [← Except.ok.inj h]
      exact .same

theorem refocus_mouseDown {x y : ℕ} (h : s.mouseDown x y = .ok s') :
    Refocus s (.mouseDown x y) s'.windows := by
  rw [mouseDown] at h
  dsimp only at h
  split at h
  · rw [← Except.ok.inj h]
    exact .same
  · obtain ⟨w, hw, h⟩ := bind_eq_ok.1 h
    obtain ⟨s1, h1, h⟩ := bind_eq_ok.1 h
    have hs1 := (WindowNow.start hw).mapActive h1
    have hwin : s'.windows = s1.windows := by
      split at h
      · rw [Except.ok.inj h]
      · split at h
        · rw [Except.ok.inj h]
        · rw [← Except.ok.inj h]
    have hw := active_eq_ok.1 hw
    obtain ⟨mru, hm⟩ := click_eq
      ((computeRects w.root s.lastWindowArea).filter fun l => l.2.contains x y) w
    rw [hwin, hs1.windows.trans (congrArg (s.windows.set s.activeIdx) hm)]
    refine .kept mru ?_ hw (Option.some_ne_none _).symm
    simp only [landing, hw, Option.map]
    rfl

theorem refocus_paneMouse {paneId : ℕ} (h : s.paneMouse paneId = .ok s') :
    Refocus s (.paneMouse paneId) s'.windows := by
  obtain ⟨w, w', hw, hw', hs⟩ := (mapActive_edits h).windows_eq
  have hland : landing s (.paneMouse paneId) = some (s.activeIdx, paneMousePath s paneId w) := by
    simp only [landing, hw, Option.map]
  rw [hs, ← Except.ok.inj hw']
  dsimp only
  split
  · rw [set_self hw]
    exact .same
  · next path hp =>
    split
    · rw [set_self hw]
      exact .same
    · have hpath : paneMousePath s paneId w = path := by rw [paneMousePath, hp, Option.getD_some]
      rw [hpath] at hland
      exact .kept _ hland hw (Option.some_ne_none _).symm

end Server

open Server in
theorem refocus_step {s s' : Server} {c : Command} (hc : c.movesFocus = true)
    (h : step s c = .ok s') : Refocus s c s'.windows := by
  have hland : ∀ {path : Window → List ℕ} (w : Window), s.windows[s.activeIdx]? = some w →
      s.windows[s.activeIdx]?.map (fun w => (s.activeIdx, path w)) = some (s.activeIdx, path w) := by
    intro path w hw
    rw [hw, Option.map_some]
  have hmoved : ∀ {path : Window → List ℕ} (w : Window), s.windows[s.activeIdx]? = some w →
      path w ≠ w.activePath →
      (match s.windows[s.activeIdx]?.map (fun w => (s.activeIdx, path w)), s.windows[s.activeIdx]? with
      | some (i, path), some w => if path = w.activePath then none else some i
      | _, _ => none) = some s.activeIdx := by
    intro path w hw hp
    simp only [hw, Option.map_some, if_neg hp]
  cases c with
  | swapPane dir =>
    exact refocus_ended (moveFocus_unzoom s.lastWindowArea dir) hland rfl (unzoomThen_edits h)
  | selectPane target =>
    cases target with
    | dir dir => exact refocus_selectPaneDir h
    | last => exact refocus_movedTo hland hmoved (selectPaneLast_edits h)
    | next => exact refocus_movedTo hland hmoved (selectPaneCycle_edits h)
    | prev => exact refocus_movedTo hland hmoved (selectPaneCycle_edits h)
  | lastPane => exact refocus_kept hland (Option.some_ne_none _).symm (lastPane_edits h)
  | displayPaneSelect digit =>
    obtain rfl | h := displayPaneSelect_edits h
    · exact .same
    · exact refocus_kept hland (Option.some_ne_none _).symm h
  | focusPane pid => exact refocus_focusPane h
  | focusPaneByIndex idx checked => exact refocus_focusPaneByIndex h
  | focusWindowTemp wid =>
    obtain ⟨saved, hsaved, h⟩ := bind_eq_ok.1 h
    obtain ⟨hwin, -⟩ := saveFocus_eq hsaved
    have hs : s'.windows = s.windows := by
      split at h
      · rw [← Except.ok.inj h]
        exact hwin
      · rw [← Except.ok.inj h]
        exact hwin
    rw [hs]
    exact .same
  | focusPaneTemp pid => exact refocus_focusPaneTemp h
  | focusPaneByIndexTemp idx => exact refocus_focusPaneByIndexTemp h
  | restoreFocus => exact refocus_restoreFocus h
  | selectWindow idx =>
    have hs : s'.windows = s.windows := by
      rw [← Except.ok.inj h]
      dsimp only [selectWindow]
      split <;> rfl
    rw [hs]
    exact .same
  | nextWindow | prevWindow =>
    have hs : s'.windows = s.windows := by
      rw [← Except.ok.inj h]
      dsimp only [stepWindow]
      split <;> rfl
    rw [hs]
    exact .same
  | lastWindow =>
    have hs : s'.windows = s.windows := by
      rw [← Except.ok.inj h]
      dsimp only [Server.lastWindow]
      split <;> rfl
    rw [hs]
    exact .same
  | clientSize width height respawn warm =>
    have hs : s'.windows = s.windows := by
      rw [← Except.ok.inj h]
      dsimp only [clientSize]
      split
      · exact windows_replenish ..
      · rfl
    rw [hs]
    exact .same
  | mouseDown x y => exact refocus_mouseDown h
  | mouseUp =>
    obtain ⟨w, -, h⟩ := bind_eq_ok.1 h
    rw [← Except.ok.inj h]
    exact .same
  | paneMouse paneId => exact refocus_paneMouse h
  | _ => contradiction

end Winsmux.Layout
