import Winsmux.Fallible
import Winsmux.Layout.Command

/-!
# What a command does to the windows

Most commands edit one window in its place. `windowEdit` names the window and the edit,
and `step_windowEdit` says that the command does that to the list of windows and nothing
else; the other commands get an inversion lemma each. What is proved about the windows
of a run rests on these alone.
-/
namespace Winsmux.Layout
open PathTree Json

namespace Window

/-- The focus moved to a path within a window: the zoom ends where the path is another. -/
def movedTo (path : List ℕ) (w : Window) : Window :=
  if path = w.activePath then w else (touchActive { w with activePath := path }).unzoom

/-- The focus on a path, whatever the zoom. -/
def focused (path mru : List ℕ) (w : Window) : Window :=
  { w with activePath := path, paneMru := mru }

end Window

/-- The active window after the command that selects a pane in a direction. -/
def selectDirEdit (area : Rect) (dir : FocusDir) (w : Window) : Window :=
  if w.zoomSaved.isSome then
    if hasTarget area dir w.unzoom then moveFocus area dir w.unzoom else w.unzoom.toggleZoom
  else moveFocus area dir w.unzoom

@[simp] theorem activePath_unzoom (w : Window) : w.unzoom.activePath = w.activePath := by
  rw [Window.unzoom]
  split <;> rfl

namespace Server
variable {s s' : Server} {w : Window}

theorem active_eq_ok : s.active = .ok w ↔ s.windows[s.activeIdx]? = some w := by
  rw [active]
  cases s.windows[s.activeIdx]? with
  | none => simp
  | some v => simp

theorem onActive_eq_ok {f : Window → Except Panic Window} :
    s.onActive f = .ok s' ↔ ∃ w w', s.active = .ok w ∧ f w = .ok w' ∧ s' = s.setActive w' := by
  constructor
  · intro h
    obtain ⟨w, hw, h⟩ := bind_eq_ok.1 h
    obtain ⟨w', hw', h⟩ := bind_eq_ok.1 h
    exact ⟨w, w', hw, hw', (Except.ok.inj h).symm⟩
  · intro ⟨w, w', hw, hw', hs⟩
    rw [onActive, hw, ok_bind, hw', ok_bind, hs]

theorem mapActive_eq_ok {f : Window → Window} :
    s.mapActive f = .ok s' ↔ ∃ w, s.active = .ok w ∧ s' = s.setActive (f w) := by
  rw [mapActive, onActive_eq_ok]
  constructor
  · intro ⟨w, w', hw, hw', hs⟩
    exact ⟨w, hw, by rw [hs, Except.ok.inj hw']⟩
  · intro ⟨w, hw, hs⟩
    exact ⟨w, f w, hw, rfl, hs⟩

/-- Where new pane ids come from. -/
def supply (s : Server) : ℕ × Option ℕ := (s.nextPaneId, s.warmPane)

/-- In the middle of a command: the windows are those of `s` but for the active one. -/
structure WindowNow (s : Server) (w : Window) (t : Server) : Prop where
  windows : t.windows = s.windows.set s.activeIdx w
  activeIdx : t.activeIdx = s.activeIdx
  supply : t.supply = s.supply
  lt : s.activeIdx < s.windows.length

namespace WindowNow
variable {t t' : Server}

theorem start (hw : s.active = .ok w) : WindowNow s w s where
  windows := by
    obtain ⟨hi, rfl⟩ := List.getElem?_eq_some_iff.1 (active_eq_ok.1 hw)
    rw [List.set_getElem_self]
  activeIdx := rfl
  supply := rfl
  lt := (List.getElem?_eq_some_iff.1 (active_eq_ok.1 hw)).1

theorem active (h : WindowNow s w t) : t.active = .ok w := by
  rw [active_eq_ok, h.windows, h.activeIdx, List.getElem?_set_self h.lt]

theorem active_eq (h : WindowNow s w t) {v : Window} (hv : t.active = .ok v) : v = w := by
  rw [h.active] at hv
  exact (Except.ok.inj hv).symm

theorem onActive (h : WindowNow s w t) {f : Window → Except Panic Window}
    (hf : t.onActive f = .ok t') : ∃ w', f w = .ok w' ∧ WindowNow s w' t' := by
  rw [Server.onActive, h.active, ok_bind] at hf
  obtain ⟨w', hw', ht⟩ := bind_eq_ok.1 hf
  refine ⟨w', hw', ?_⟩
  rw [← Except.ok.inj ht]
  exact ⟨by rw [setActive, h.windows, h.activeIdx, List.set_set], h.activeIdx, h.supply, h.lt⟩

theorem mapActive (h : WindowNow s w t) {f : Window → Window} (hf : t.mapActive f = .ok t') :
    WindowNow s (f w) t' := by
  obtain ⟨w', hw', ht⟩ := h.onActive hf
  rw [Except.ok.inj hw']
  exact ht

/-- A change that is not about the windows. -/
theorem congr (h : WindowNow s w t) (hw : t'.windows = t.windows) (ha : t'.activeIdx = t.activeIdx)
    (hsup : t'.supply = t.supply) : WindowNow s w t' :=
  ⟨hw.trans h.windows, ha.trans h.activeIdx, hsup.trans h.supply, h.lt⟩

end WindowNow

@[simp] theorem windows_replenish (warm : WarmSpawn) (s : Server) :
    (s.replenish warm).windows = s.windows := by
  rw [replenish.eq_def]
  split <;> rfl

@[simp] theorem activeIdx_replenish (warm : WarmSpawn) (s : Server) :
    (s.replenish warm).activeIdx = s.activeIdx := by
  rw [replenish.eq_def]
  split <;> rfl

@[simp] theorem windows_takePane (defaultShell : Bool) (s : Server) :
    (s.takePane defaultShell).2.windows = s.windows := by
  rw [takePane.eq_def]
  split <;> rfl

@[simp] theorem activeIdx_takePane (defaultShell : Bool) (s : Server) :
    (s.takePane defaultShell).2.activeIdx = s.activeIdx := by
  rw [takePane.eq_def]
  split <;> rfl

/-- The command leaves the windows as they are but for the active one, edited by `f`. -/
def Edits (f : Window → Except Panic Window) (s s' : Server) : Prop :=
  ∃ w w', s.active = .ok w ∧ f w = .ok w' ∧ WindowNow s w' s'

theorem onActive_edits {f : Window → Except Panic Window} (h : s.onActive f = .ok s') :
    Edits f s s' := by
  obtain ⟨w, hw, -⟩ := bind_eq_ok.1 h
  obtain ⟨w', hw', hs'⟩ := (WindowNow.start hw).onActive h
  exact ⟨w, w', hw, hw', hs'⟩

theorem mapActive_edits {f : Window → Window} (h : s.mapActive f = .ok s') :
    Edits (fun w => .ok (f w)) s s' := onActive_edits h

theorem unzoomThen_edits {f : Window → Window} (h : unzoomThen f s = .ok s') :
    Edits (fun w => .ok (f w.unzoom)) s s' := by
  obtain ⟨s1, h1, h2⟩ := bind_eq_ok.1 h
  obtain ⟨w, w1, hw, hw1, hs1⟩ := mapActive_edits h1
  refine ⟨w, f w1, hw, ?_, hs1.mapActive h2⟩
  rw [← Except.ok.inj hw1]

theorem splitPercent_bounds (kind : LayoutKind) (area : Rect) (val : ℕ) (isPct : Bool) :
    1 ≤ splitPercent kind area val isPct ∧ splitPercent kind area val isPct ≤ 99 := by
  have hclamp (n : ℕ) : 1 ≤ max 1 (min 99 n) ∧ max 1 (min 99 n) ≤ 99 := by omega
  rw [splitPercent.eq_def]
  split
  · exact hclamp val
  · cases kind <;> (dsimp only; split; exact hclamp _; omega)

/-- The active window after a split: the new pane hung in or refused, the shares set, the
focus kept or taken back. -/
def splitEdit (kind : LayoutKind) (id : ℕ) (refused detached : Bool) (pct : Option ℕ) (w : Window) :
    Except Panic Window := do
  let w' ← (if refused then .ok w.unzoom else splitPane kind id w.unzoom)
  let w' ←
    (match pct with
    | none => .ok w'
    | some pct => setSplitPercent w.activePath pct w')
  .ok (if detached then revertFocus w.activePath w' else w')

theorem fst_takePane_setActive (defaultShell : Bool) (s : Server) (w : Window) :
    ((s.setActive w).takePane defaultShell).1 = (s.takePane defaultShell).1 := by
  cases defaultShell <;> cases hp : s.warmPane <;> simp [takePane, setActive, hp]

/-- What a split starts its pane from: the supply is used where the pane is accepted. -/
def splitBase (defaultShell refused : Bool) (s : Server) : Server :=
  if refused then s else (s.takePane defaultShell).2

theorem takePane_setActive (defaultShell : Bool) (s : Server) (w : Window) :
    ((s.setActive w).takePane defaultShell).2 = (s.takePane defaultShell).2.setActive w := by
  cases defaultShell <;> cases hp : s.warmPane <;> simp [takePane, setActive, hp]

theorem active_splitBase (defaultShell refused : Bool) (s : Server) :
    (s.splitBase defaultShell refused).active = s.active := by
  rw [splitBase]
  split
  · rfl
  · rw [active, active, windows_takePane, activeIdx_takePane]

theorem splitWindow_eq_ok {kind : LayoutKind} {defaultShell refused detached : Bool}
    {size : Option (ℕ × Bool)} {warm : WarmSpawn}
    (h : s.splitWindow kind defaultShell refused detached size warm = .ok s') :
    ∃ pct : Option ℕ, (∀ p ∈ pct, 1 ≤ p ∧ p ≤ 99) ∧
      ∃ w w' t, s.active = .ok w ∧
        splitEdit kind (s.takePane defaultShell).1 refused detached pct w = .ok w' ∧
        WindowNow (s.splitBase defaultShell refused) w' t ∧ s' = t.replenish warm := by
  obtain ⟨s1, h1, h⟩ := bind_eq_ok.1 h
  obtain ⟨w, hw, rfl⟩ := mapActive_eq_ok.1 h1
  have hbase := WindowNow.start ((active_splitBase defaultShell refused s).trans hw)
  obtain ⟨v, hv, h⟩ := bind_eq_ok.1 h
  obtain rfl : w.unzoom = v := by
    have := (WindowNow.start hw).mapActive h1
    exact (this.active_eq hv).symm
  obtain ⟨s2, h2, h⟩ := bind_eq_ok.1 h
  obtain ⟨w2, hw2, hs2⟩ : ∃ w2, (if refused then .ok w.unzoom
      else splitPane kind (s.takePane defaultShell).1 w.unzoom) = .ok w2 ∧
        WindowNow (s.splitBase defaultShell refused) w2 s2 := by
    cases refused with
    | true =>
      rw [← Except.ok.inj h2]
      exact ⟨_, rfl, (WindowNow.start hw).mapActive h1⟩
    | false =>
      have h2 : ((s.setActive w.unzoom).takePane defaultShell).2.onActive
          (splitPane kind ((s.setActive w.unzoom).takePane defaultShell).1) = .ok s2 := h2
      rw [takePane_setActive, fst_takePane_setActive] at h2
      have hs1 : WindowNow (s.splitBase defaultShell false) w.unzoom
          ((s.takePane defaultShell).2.setActive w.unzoom) :=
        hbase.mapActive (mapActive_eq_ok.2 ⟨w, (active_splitBase defaultShell false s).trans hw, rfl⟩)
      exact hs1.onActive h2
  rw [activePath_unzoom] at h
  obtain ⟨s3, h3, h⟩ := bind_eq_ok.1 h
  obtain ⟨pct, hpct, w3, hw3, hs3⟩ : ∃ pct : Option ℕ, (∀ p ∈ pct, 1 ≤ p ∧ p ≤ 99) ∧
      ∃ w3, (match pct with
        | none => Except.ok w2
        | some pct => setSplitPercent w.activePath pct w2) = .ok w3 ∧
        WindowNow (s.splitBase defaultShell refused) w3 s3 := by
    cases size with
    | none =>
      rw [← Except.ok.inj h3]
      exact ⟨none, by simp, w2, rfl, hs2⟩
    | some size =>
      obtain ⟨w3, hw3, hs3⟩ := hs2.onActive h3
      exact ⟨some _, by simpa using splitPercent_bounds .., w3, hw3, hs3⟩
  obtain ⟨s4, h4, h⟩ := bind_eq_ok.1 h
  have hs4 : WindowNow (s.splitBase defaultShell refused)
      (if detached then revertFocus w.activePath w3 else w3) s4 := by
    cases detached with
    | true =>
      rw [if_pos rfl] at h4 ⊢
      exact hs3.mapActive h4
    | false =>
      rw [← Except.ok.inj h4]
      exact hs3.congr rfl rfl rfl
  refine ⟨pct, hpct, w, if detached then revertFocus w.activePath w3 else w3, s4, hw, ?_, hs4,
    (Except.ok.inj h).symm⟩
  rw [splitEdit, hw2, ok_bind, hw3, ok_bind]

theorem windows_splitBase (defaultShell refused : Bool) (s : Server) :
    (s.splitBase defaultShell refused).windows = s.windows ∧
      (s.splitBase defaultShell refused).activeIdx = s.activeIdx := by
  rw [splitBase]
  split
  · exact ⟨rfl, rfl⟩
  · exact ⟨windows_takePane .., activeIdx_takePane ..⟩

/-- A split edits the active window. -/
theorem splitWindow_windows {kind : LayoutKind} {defaultShell refused detached : Bool}
    {size : Option (ℕ × Bool)} {warm : WarmSpawn}
    (h : s.splitWindow kind defaultShell refused detached size warm = .ok s') :
    ∃ pct : Option ℕ, (∀ p ∈ pct, 1 ≤ p ∧ p ≤ 99) ∧
      ∃ w w', s.windows[s.activeIdx]? = some w ∧
        splitEdit kind (s.takePane defaultShell).1 refused detached pct w = .ok w' ∧
        s'.windows = s.windows.set s.activeIdx w' := by
  obtain ⟨pct, hpct, w, w', t, hw, hw', ht, rfl⟩ := splitWindow_eq_ok h
  obtain ⟨hwin, hidx⟩ := windows_splitBase defaultShell refused s
  refine ⟨pct, hpct, w, w', active_eq_ok.1 hw, hw', ?_⟩
  rw [windows_replenish, ht.windows, hwin, hidx]

theorem killPane_edits (h : s.killPane = .ok s') :
    Edits (fun w => killPaneAtPath w.activePath w.unzoom) s s' := by
  obtain ⟨s1, h1, h⟩ := bind_eq_ok.1 h
  obtain ⟨w, w1, hw, hw1, hs1⟩ := mapActive_edits h1
  obtain rfl := Except.ok.inj hw1
  obtain ⟨w2, hw2, hs2⟩ := hs1.onActive h
  rw [activePath_unzoom] at hw2
  exact ⟨w, w2, hw, hw2, hs2⟩

theorem afterMove_now {t t' : Server} {oldPath : List ℕ} (ht : WindowNow s w t)
    (h : t.afterMove oldPath = .ok t') :
    WindowNow s (if w.activePath = oldPath then w else w.touchActive.unzoom) t' := by
  obtain ⟨v, hv, h⟩ := bind_eq_ok.1 h
  obtain rfl := ht.active_eq hv
  split at h
  · next hp =>
    rw [if_pos hp, ← Except.ok.inj h]
    exact ht
  · next hp =>
    obtain ⟨t1, h1, h⟩ := bind_eq_ok.1 h
    rw [if_neg hp]
    exact (ht.mapActive h1).mapActive h

theorem swapLastPath_now {t t' : Server} (ht : WindowNow s w t) (h : t.swapLastPath = .ok t') :
    WindowNow s { w with activePath := t.lastPanePath } t' := by
  obtain ⟨v, -, h⟩ := bind_eq_ok.1 h
  obtain ⟨t1, h1, h⟩ := bind_eq_ok.1 h
  rw [← Except.ok.inj h]
  exact (ht.mapActive h1).congr rfl rfl rfl

theorem selectPaneDir_edits {dir : FocusDir} (h : s.selectPaneDir dir = .ok s') :
    Edits (fun w => .ok (selectDirEdit s.lastWindowArea dir w)) s s' := by
  obtain ⟨w, hw, h⟩ := bind_eq_ok.1 h
  have hs := WindowNow.start hw
  obtain ⟨s1, h1, h⟩ := bind_eq_ok.1 h
  have hs1 := hs.mapActive h1
  obtain ⟨v, hv, rfl⟩ := mapActive_eq_ok.1 h1
  obtain rfl : w = v := (hs.active_eq hv).symm
  obtain ⟨v, hv, h⟩ := bind_eq_ok.1 h
  obtain rfl := hs1.active_eq hv
  refine ⟨w, _, hw, rfl, ?_⟩
  rw [selectDirEdit]
  split at h
  · next hz =>
    rw [if_pos hz]
    split at h
    · next ht =>
      obtain ⟨s2, h2, h⟩ := bind_eq_ok.1 h
      rw [if_pos (show hasTarget s.lastWindowArea dir w.unzoom = true from ht), ← Except.ok.inj h]
      exact (hs1.mapActive h2).congr rfl rfl rfl
    · next ht =>
      rw [if_neg (show ¬ hasTarget s.lastWindowArea dir w.unzoom = true from ht)]
      exact hs1.mapActive h
  · next hz =>
    rw [if_neg hz]
    obtain ⟨s2, h2, h⟩ := bind_eq_ok.1 h
    have hs2 := hs1.mapActive h2
    obtain ⟨v, -, h⟩ := bind_eq_ok.1 h
    split at h
    · rw [← Except.ok.inj h]
      exact hs2
    · rw [← Except.ok.inj h]
      exact hs2.congr rfl rfl rfl

theorem movedTo_eq (path : List ℕ) (w : Window) :
    (if path = w.activePath then { w with activePath := path }
      else (Window.touchActive { w with activePath := path }).unzoom) = w.movedTo path := by
  rw [Window.movedTo]
  split
  · next h => rw [h]
  · rfl

theorem selectPaneLast_edits (h : s.selectPaneLast = .ok s') :
    Edits (fun w => .ok (w.movedTo (if s.lastPanePath = [] then w.activePath else s.lastPanePath)))
      s s' := by
  obtain ⟨w, hw, h⟩ := bind_eq_ok.1 h
  obtain ⟨s1, h1, h⟩ := bind_eq_ok.1 h
  have hs := WindowNow.start hw
  refine ⟨w, _, hw, rfl, ?_⟩
  rw [← movedTo_eq]
  split at h1
  · next hp =>
    rw [if_pos hp]
    rw [← Except.ok.inj h1] at h
    exact afterMove_now hs h
  · next hp =>
    rw [if_neg hp]
    exact afterMove_now (swapLastPath_now hs h1) h

theorem selectPaneCycle_edits {step : ℕ → ℕ → ℕ} (h : s.selectPaneCycle step = .ok s') :
    Edits (fun w => .ok (w.movedTo ((cyclePane step w).getD w.activePath))) s s' := by
  obtain ⟨w, hw, h⟩ := bind_eq_ok.1 h
  obtain ⟨s1, h1, h⟩ := bind_eq_ok.1 h
  have hs := WindowNow.start hw
  refine ⟨w, _, hw, rfl, ?_⟩
  rw [← movedTo_eq]
  split at h1
  · next hp =>
    rw [hp, Option.getD_none]
    rw [← Except.ok.inj h1] at h
    exact afterMove_now hs h
  · next path hp =>
    rw [hp, Option.getD_some]
    obtain ⟨s2, h2, h1⟩ := bind_eq_ok.1 h1
    rw [← Except.ok.inj h1] at h
    have hs2 : WindowNow s _ { s2 with lastPanePath := w.activePath } :=
      (hs.mapActive h2).congr rfl rfl rfl
    exact afterMove_now hs2 h

def lastPanePathIn (s : Server) (w : Window) : List ℕ :=
  if s.lastPanePath ≠ [] ∧ pathExists w.root s.lastPanePath then s.lastPanePath
  else flipLast w.activePath

theorem lastPane_edits (h : s.lastPane = .ok s') :
    Edits (fun w => .ok { w with activePath := s.lastPanePathIn w }) s s' := by
  obtain ⟨w, hw, h⟩ := bind_eq_ok.1 h
  have hs := WindowNow.start hw
  refine ⟨w, _, hw, rfl, ?_⟩
  rw [lastPanePathIn]
  split at h
  · next hp =>
    rw [if_pos hp]
    exact swapLastPath_now hs h
  · next hp =>
    rw [if_neg hp]
    exact hs.mapActive h

end Server
end Winsmux.Layout
