import Winsmux.Layout.Transfer

/-!
# The panes of a server

The ids of all panes in all windows. A command makes at most one pane, with an id that
was never in use; the ids of a server are distinct in every run.
-/
namespace Winsmux.Layout
open PathTree Json Transition

/-- The ids in a tree. -/
def idsIn (n : Node) : Multiset ℕ := collectPaneIds n

def Window.ids (w : Window) : Multiset ℕ := idsIn w.root

def idsOf (windows : List Window) : Multiset ℕ := (windows.map Window.ids).sum

def Server.paneIds (s : Server) : Multiset ℕ := idsOf s.windows

/-- The id of the pane that a command makes. -/
def madeId (s : Server) : Command → Multiset ℕ
  | .splitWindow _ defaultShell refused .. => if refused then 0 else {(s.takePane defaultShell).1}
  | .newWindow defaultShell refused .. =>
    if refused && !(defaultShell && s.warmPane.isSome) then 0 else {(s.takePane defaultShell).1}
  | _ => 0

/-- Only splits, new windows and new terminal sizes start panes. -/
def Command.startsPane : Command → Bool
  | .newWindow .. | .splitWindow .. | .clientSize .. => true
  | _ => false

/-- Commands that change nothing of a tree but its splits. -/
def Command.relabels : Command → Bool
  | .cycleTopLayout | .zoomPane | .resizePane .. | .resizePaneAbsolute .. | .resizePanePercent ..
  | .mouseDrag .. | .splitSetSizes .. => true
  | _ => false

theorem idsIn_eq_of_perm {n m : Node} (h : (leaves n).Perm (leaves m)) : idsIn n = idsIn m :=
  Multiset.coe_eq_coe.2 (h.map Pane.id)

theorem ids_eq_of_shape {w w' : Window} (h : shape w'.root = shape w.root) : w'.ids = w.ids :=
  idsIn_eq_of_perm (List.Perm.of_eq (leaves_eq_of_shape h))

@[simp] theorem ids_unzoom (w : Window) : w.unzoom.ids = w.ids := ids_eq_of_shape (shape_unzoom w)

@[simp] theorem ids_focused (path mru : List ℕ) (w : Window) : (w.focused path mru).ids = w.ids := rfl

@[simp] theorem activePath_toggleZoom (w : Window) : w.toggleZoom.activePath = w.activePath := by
  rw [Window.toggleZoom]
  split
  · rfl
  · exact activePath_unzoom w

@[simp] theorem shape_resizeBy (dir : FocusDir) (amount : ℕ) (w : Window) :
    shape (resizeBy dir amount w).root = shape w.root := by
  cases dir <;> exact shape_resizeShare ..

@[simp] theorem activePath_resizeBy (dir : FocusDir) (amount : ℕ) (w : Window) :
    (resizeBy dir amount w).activePath = w.activePath := by
  cases dir <;> exact activePath_resizeShare ..

namespace Server
variable {s s' : Server} {c : Command} {w w' : Window} {i : ℕ}

theorem relabel_step (hc : c.relabels = true) (h : step s c = .ok s') :
    ∃ w w', s.windows[s.activeIdx]? = some w ∧ s'.windows = s.windows.set s.activeIdx w' ∧
      shape w'.root = shape w.root ∧ w'.activePath = w.activePath := by
  have hmap : ∀ {f : Window → Window}, Edits (fun w => .ok (f w)) s s' →
      (∀ w, shape (f w).root = shape w.root ∧ (f w).activePath = w.activePath) →
      ∃ w w', s.windows[s.activeIdx]? = some w ∧ s'.windows = s.windows.set s.activeIdx w' ∧
        shape w'.root = shape w.root ∧ w'.activePath = w.activePath := by
    intro f he hf
    obtain ⟨w, w', hw, hw', hs⟩ := he.windows_eq
    rw [← Except.ok.inj hw'] at hs
    exact ⟨w, f w, hw, hs, hf w⟩
  cases c with
  | cycleTopLayout => exact hmap (mapActive_edits h) fun w => ⟨shape_cycleTopLayout w, rfl⟩
  | zoomPane => exact hmap (mapActive_edits h) fun w => ⟨shape_toggleZoom w, activePath_toggleZoom w⟩
  | resizePane dir amount => exact hmap (unzoomThen_edits h) fun w => by simp
  | resizePaneAbsolute axis size =>
    exact hmap (unzoomThen_edits h) fun w => by simp [resizePaneAbsolute]
  | resizePanePercent axis pct =>
    exact hmap (unzoomThen_edits h) fun w => by simp [resizePaneAbsolute]
  | mouseDrag x y =>
    obtain ⟨w, w', hw, hw', hs⟩ := (onActive_edits h).windows_eq
    refine ⟨w, w', hw, hs, ?_⟩
    split at hw'
    · exact adjustSplitSizes_eq_ok hw'
    · rw [Except.ok.inj hw']
      exact ⟨rfl, rfl⟩
  | splitSetSizes path sizes => exact hmap (mapActive_edits h) fun w => by simp
  | _ => contradiction

/-- One window apart from the rest. -/
theorem idsOf_split {windows : List Window} (hw : windows[i]? = some w) :
    ∃ rest, idsOf windows = w.ids + rest ∧ (∀ w', idsOf (windows.set i w') = w'.ids + rest) ∧
      idsOf (windows.eraseIdx i) = rest := by
  obtain ⟨left, right, rfl, rfl⟩ := exists_append_of_getElem? hw
  refine ⟨idsOf left + idsOf right, ?_, fun w' => ?_, ?_⟩
  · simp only [idsOf, List.map_append, List.map_cons, List.sum_append, List.sum_cons]
    exact add_left_comm ..
  · simp only [idsOf, List.set_append_right _ _ le_rfl, Nat.sub_self, List.set_cons_zero,
      List.map_append, List.map_cons, List.sum_append, List.sum_cons]
    exact add_left_comm ..
  · simp [idsOf, List.eraseIdx_append_of_length_le]

theorem paneIds_of_set (hw : s.windows[i]? = some w) (h : s'.windows = s.windows.set i w')
    (hids : w'.ids = w.ids) : s'.paneIds = s.paneIds := by
  obtain ⟨rest, hs, hset, -⟩ := idsOf_split hw
  rw [paneIds, paneIds, h, hset, hs, hids]

theorem paneIds_of_refocus {windows : List Window} (h : Refocus s c windows)
    (hs : s'.windows = windows) : s'.paneIds = s.paneIds := by
  cases h with
  | same => rw [paneIds, hs, paneIds]
  | kept mru _ hw _ => exact paneIds_of_set hw hs rfl
  | ended mru _ hw _ => exact paneIds_of_set hw hs (ids_unzoom _)
  | rezoomed _ hw _ =>
    exact paneIds_of_set hw hs (ids_eq_of_shape ((shape_toggleZoom _).trans (shape_unzoom _)))

theorem Edits.supply_eq {f : Window → Except Panic Window} (h : Edits f s s') :
    s'.supply = s.supply := by
  obtain ⟨w, w', -, -, hs⟩ := h
  exact hs.supply

theorem supply_focusPaneById {pid : ℕ} (h : s.focusPaneById pid = .ok s') : s'.supply = s.supply := by
  obtain ⟨-, rfl⟩ | ⟨i, path, w, -, -, hs⟩ := focusPaneById_now h
  · rfl
  · exact hs.supply

theorem supply_saveFocus (h : s.saveFocus = .ok s') : s'.supply = s.supply := by
  rw [saveFocus.eq_def] at h
  split at h
  · rw [← Except.ok.inj h]
  · obtain ⟨w, -, h⟩ := bind_eq_ok.1 h
    rw [← Except.ok.inj h]
    rfl

theorem supply_mapActive {f : Window → Window} (h : s.mapActive f = .ok s') : s'.supply = s.supply :=
  (mapActive_edits h).supply_eq

theorem supply_unzoomIfMoved {path : List ℕ} (h : s.unzoomIfMoved path = .ok s') :
    s'.supply = s.supply := by
  obtain ⟨w, -, h⟩ := bind_eq_ok.1 h
  split at h
  · rw [← Except.ok.inj h]
  · exact supply_mapActive h

theorem supply_movePane {targetWin : ℕ} (h : s.movePane targetWin = .ok s') : s'.supply = s.supply := by
  rw [movePane] at h
  split at h
  · obtain ⟨⟨pane, s1⟩, h1, h⟩ := bind_eq_ok.1 h
    obtain ⟨-, -, -, -, -, hs1⟩ := takeActive_eq_ok h1
    cases pane with
    | none =>
      rw [← Except.ok.inj h]
      exact hs1
    | some u =>
      have hidx : ∀ (b : Bool) (i : ℕ), (if b then s1.withActive i else s1).supply = s1.supply := by
        intro b i
        cases b <;> rfl
      have hend : ∀ (t : Server) (tgt : ℕ), t.supply = s1.supply →
          (if tgt < t.windows.length then (t.withActive tgt).onActive (graft u) else .ok t) = .ok s' →
          s'.supply = s1.supply := by
        intro t tgt ht h
        split at h
        · obtain ⟨w, w', -, -, rfl⟩ := onActive_eq_ok.1 h
          exact ht
        · rw [← Except.ok.inj h]
          exact ht
      exact (hend _ _ (hidx _ _) h).trans hs1
  · rw [← Except.ok.inj h]

theorem supply_killPaneById {pid : ℕ} (h : s.killPaneById pid = .ok s') : s'.supply = s.supply := by
  obtain ⟨s1, h1, h⟩ := bind_eq_ok.1 h
  obtain ⟨w, -, h⟩ := bind_eq_ok.1 h
  rw [← supply_mapActive h1]
  split at h
  · rw [← Except.ok.inj h]
  · split at h
    · rw [← Except.ok.inj h]
    · obtain ⟨t, -, h⟩ := bind_eq_ok.1 h
      dsimp only at h
      split at h
      · rw [← Except.ok.inj h]
        rfl
      · exact (supply_mapActive h).trans rfl

theorem supply_reapWindow (exited : List ℕ) (s : Server) (i : ℕ) :
    (s.reapWindow exited i).supply = s.supply := by
  rw [reapWindow]
  repeat' split
  all_goals rfl

theorem supply_breakPane (h : s.breakPane = .ok s') : s'.supply = s.supply := by
  obtain ⟨s1, h1, h⟩ := bind_eq_ok.1 h
  obtain ⟨⟨pane, s2⟩, h2, h⟩ := bind_eq_ok.1 h
  obtain ⟨-, -, -, -, -, hs2⟩ := takeActive_eq_ok h2
  rw [← supply_mapActive h1, ← hs2]
  cases pane with
  | none => rw [← Except.ok.inj h]
  | some u =>
    rw [← Except.ok.inj h]
    rfl

theorem supply_focusPaneByIndex {idx : ℕ} {checked : Bool} (h : s.focusPaneByIndex idx checked = .ok s') :
    s'.supply = s.supply := by
  obtain ⟨w, -, h⟩ := bind_eq_ok.1 h
  obtain ⟨s1, h1, h⟩ := bind_eq_ok.1 h
  obtain ⟨s2, h2, h⟩ := bind_eq_ok.1 h
  rw [← supply_mapActive h1, ← supply_unzoomIfMoved h2]
  split at h
  · rw [← Except.ok.inj h]
  · exact supply_mapActive h

theorem supply_focusWindowTemp {wid : ℕ} (h : s.focusWindowTemp wid = .ok s') : s'.supply = s.supply := by
  obtain ⟨s1, h1, h⟩ := bind_eq_ok.1 h
  rw [← supply_saveFocus h1]
  split at h
  · rw [← Except.ok.inj h]
    rfl
  · rw [← Except.ok.inj h]

theorem supply_focusPaneTemp {pid : ℕ} (h : s.focusPaneTemp pid = .ok s') : s'.supply = s.supply := by
  obtain ⟨s1, h1, h⟩ := bind_eq_ok.1 h
  split at h
  · exact (supply_focusPaneById h).trans (supply_saveFocus h1)
  · rw [← Except.ok.inj h]

theorem supply_focusPaneByIndexTemp {idx : ℕ} (h : s.focusPaneByIndexTemp idx = .ok s') :
    s'.supply = s.supply := by
  obtain ⟨s1, h1, h⟩ := bind_eq_ok.1 h
  obtain ⟨_, -, h⟩ := bind_eq_ok.1 h
  split at h
  · exact (supply_mapActive h).trans (supply_saveFocus h1)
  · rw [← Except.ok.inj h]

theorem supply_restoreFocus (h : s.restoreFocus = .ok s') : s'.supply = s.supply := by
  simp only [Server.restoreFocus] at h
  split at h
  · rw [← Except.ok.inj h]
  · split at h
    · exact (supply_mapActive h).trans rfl
    · rw [← Except.ok.inj h]
      rfl

theorem supply_killWindow (h : s.killWindow = .ok s') : s'.supply = s.supply := by
  simp only [Server.killWindow] at h
  split at h
  · obtain ⟨_, -, h⟩ := bind_eq_ok.1 h
    rw [← Except.ok.inj h]
    rfl
  · split at h
    · cases h
    · rw [← Except.ok.inj h]

theorem supply_mouseDown {x y : ℕ} (h : s.mouseDown x y = .ok s') : s'.supply = s.supply := by
  simp only [Server.mouseDown] at h
  split at h
  · rw [← Except.ok.inj h]
  · obtain ⟨_, -, h⟩ := bind_eq_ok.1 h
    obtain ⟨s1, h1, h⟩ := bind_eq_ok.1 h
    rw [← supply_mapActive h1]
    split at h
    · rw [← Except.ok.inj h]
    · split at h
      · rw [← Except.ok.inj h]
      · rw [← Except.ok.inj h]
        rfl

theorem supply_step (hc : c.startsPane = false) (h : step s c = .ok s') : s'.supply = s.supply := by
  cases c with
  | newWindow | splitWindow | clientSize => contradiction
  | killPane => exact (killPane_edits h).supply_eq
  | killPaneById pid => exact supply_killPaneById h
  | breakPane => exact supply_breakPane h
  | joinPane targetWin =>
    obtain ⟨s1, h1, h⟩ := bind_eq_ok.1 h
    exact (supply_movePane h).trans (supply_mapActive h1)
  | movePane targetWin => exact supply_movePane h
  | rotateWindow | cycleTopLayout | zoomPane | paneMouse | splitSetSizes => exact supply_mapActive h
  | swapPane | selectLayout | nextLayout | prevLayout | resizePane | resizePaneAbsolute
  | resizePanePercent => exact (unzoomThen_edits h).supply_eq
  | selectPane target =>
    cases target with
    | dir dir => exact (selectPaneDir_edits h).supply_eq
    | last => exact (selectPaneLast_edits h).supply_eq
    | next => exact (selectPaneCycle_edits h).supply_eq
    | prev => exact (selectPaneCycle_edits h).supply_eq
  | lastPane => exact (lastPane_edits h).supply_eq
  | displayPaneSelect digit =>
    obtain rfl | h := displayPaneSelect_edits h
    · rfl
    · exact h.supply_eq
  | focusPane pid =>
    obtain ⟨w, -, h⟩ := bind_eq_ok.1 h
    obtain ⟨s1, h1, h⟩ := bind_eq_ok.1 h
    exact (supply_unzoomIfMoved h).trans (supply_focusPaneById h1)
  | focusPaneByIndex idx checked => exact supply_focusPaneByIndex h
  | focusWindowTemp wid => exact supply_focusWindowTemp h
  | focusPaneTemp pid => exact supply_focusPaneTemp h
  | focusPaneByIndexTemp idx => exact supply_focusPaneByIndexTemp h
  | restoreFocus => exact supply_restoreFocus h
  | selectWindow | nextWindow | prevWindow | lastWindow =>
    rw [← Except.ok.inj h]
    dsimp only [selectWindow, stepWindow, Server.lastWindow]
    split <;> rfl
  | killWindow => exact supply_killWindow h
  | mouseDown x y => exact supply_mouseDown h
  | mouseDrag x y => exact (onActive_edits h).supply_eq
  | mouseUp =>
    obtain ⟨_, -, h⟩ := bind_eq_ok.1 h
    rw [← Except.ok.inj h]
    rfl
  | reapChildren exited =>
    rw [← Except.ok.inj h]
    exact reapChildren_invariant (P := fun t => t.supply = s.supply) rfl
      fun t i ht => (supply_reapWindow exited t i).trans ht

end Server
end Winsmux.Layout
