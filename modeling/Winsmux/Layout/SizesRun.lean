import Winsmux.Layout.SplitSizes

/-!
# Sizes in every run

The step lemma: a command leaves every tree well sized and does not panic over sizes,
under a condition on the state before. The condition is about what overwrites sizes with a
list of its own: saved sizes, a fixed pair, a client's list, a layout string.
-/
namespace Winsmux.Layout
open PathTree Json Transition

/-- A window whose tree is well sized and whose saved sizes are not all zero. -/
def SoundSizes (w : Window) : Prop := WellSized w.root ∧ SavedNonzero w

/-- The state before a command that leaves every split well sized. -/
def KeepsSizes (s : Server) (c : Command) : Prop :=
  (∀ i ∈ endsZoom s c, ∀ w ∈ s.windows[i]?, RestoresFit w) ∧
    match c with
    | .zoomPane => ∀ w ∈ s.windows[s.activeIdx]?, w.zoomSaved = none → PathInRange w
    | .selectPane (.dir _) => ∀ w ∈ s.windows[s.activeIdx]?, w.zoomSaved.isSome → PathInRange w
    | .selectLayout layout => ∀ w ∈ s.windows[s.activeIdx]?, LayoutSized s.options layout w
    | .cycleTopLayout =>
      ∀ w ∈ s.windows[s.activeIdx]?, ∀ k ∈ arity w.root w.activePath.dropLast, k = 2
    | .mouseDrag _ _ => ∀ w ∈ s.windows[s.activeIdx]?, DragInRange s w
    | .splitSetSizes path sizes =>
      ∀ w ∈ s.windows[s.activeIdx]?, ∀ k ∈ arity w.root path, sizes.length = k → ∃ x ∈ sizes, x ≠ 0
    | _ => True

/-- Not a panic over sizes. -/
def Harmless {α : Type} (x : Except Panic α) : Prop := x ≠ .error .sizeIndex ∧ x ≠ .error .divideByZero

theorem harmless_ok {α : Type} (a : α) : Harmless (.ok a) := ⟨by simp, by simp⟩

theorem harmless_of_eq_ok {α : Type} {x : Except Panic α} {a : α} (h : x = .ok a) : Harmless x :=
  h ▸ harmless_ok a

theorem harmless_bind {α β : Type} {x : Except Panic α} {f : α → Except Panic β} (hx : Harmless x)
    (hf : ∀ a, x = .ok a → Harmless (f a)) : Harmless (x >>= f) := by
  cases x with
  | ok a => exact hf a rfl
  | error e => exact ⟨fun h => hx.1 (congrArg _ (Except.error.inj h)), fun h => hx.2 (congrArg _ (Except.error.inj h))⟩

theorem harmless_ite {α : Type} {p : Prop} [Decidable p] {x y : Except Panic α} (hx : Harmless x)
    (hy : Harmless y) : Harmless (if p then x else y) := by
  split
  · exact hx
  · exact hy

theorem harmless_replaceLeafWithSplit (kind : LayoutKind) (new n : Node) (path : List ℕ) :
    Harmless (replaceLeafWithSplit kind new n path) := by
  rw [replaceLeafWithSplit_eq]
  split
  · exact harmless_ok _
  · split
    · exact harmless_ok _
    · exact ⟨by simp, by simp⟩

/-- A removal divides by zero only where it leaves a split without children. -/
theorem harmless_removeNode {n : Node} (h : WellSized n) (path : List ℕ) :
    Harmless (removeNode n path) := by
  induction path generalizing n with
  | nil =>
    cases n with
    | leaf p => exact harmless_of_eq_ok (removeNode_leaf p [])
    | split a children => exact harmless_ok _
  | cons i path ih =>
    cases n with
    | leaf p => exact harmless_of_eq_ok (removeNode_leaf p (i :: path))
    | split a children =>
      obtain ⟨ha, hall⟩ := wellSized_split.1 h
      have htwo := ha.two
      cases path with
      | nil =>
        have hne : children.eraseIdx i ≠ [] := by
          refine List.ne_nil_of_length_pos ?_
          rw [List.length_eraseIdx]
          split <;> omega
        rw [removeNode, if_neg hne]
        exact harmless_ok _
      | cons j path =>
        rw [removeNode]
        split
        · have hne : children ≠ [] := List.ne_nil_of_length_pos (by omega)
          rw [if_neg hne]
          exact harmless_ok _
        · next c hc =>
          exact harmless_bind (ih (hall c (List.mem_of_getElem? hc))) fun d _ => harmless_ok _

theorem harmless_killPaneAtPath {w : Window} (h : WellSized w.root) (path : List ℕ) :
    Harmless (killPaneAtPath path w) :=
  harmless_bind (harmless_removeNode h path) fun _ _ => harmless_ok _

namespace Server
variable {s s' : Server} {c : Command} {w w' : Window} {i : ℕ}

theorem harmless_active (s : Server) : Harmless s.active := by
  rw [active]
  split
  · exact harmless_ok _
  · exact ⟨by simp, by simp⟩

theorem harmless_onActive {f : Window → Except Panic Window}
    (hf : ∀ w, s.windows[s.activeIdx]? = some w → Harmless (f w)) : Harmless (s.onActive f) :=
  harmless_bind (harmless_active s) fun w hw =>
    harmless_bind (hf w (active_eq_ok.1 hw)) fun _ _ => harmless_ok _

theorem harmless_mapActive (f : Window → Window) (s : Server) : Harmless (s.mapActive f) :=
  harmless_onActive fun _ _ => harmless_ok _

theorem harmless_unzoomThen (f : Window → Window) (s : Server) : Harmless (unzoomThen f s) :=
  harmless_bind (harmless_mapActive ..) fun _ _ => harmless_mapActive ..

theorem harmless_afterMove (path : List ℕ) (s : Server) : Harmless (s.afterMove path) := by
  refine harmless_bind (harmless_active s) fun w _ => harmless_ite (harmless_ok _) ?_
  exact harmless_bind (harmless_mapActive ..) fun _ _ => harmless_mapActive ..

theorem harmless_swapLastPath (s : Server) : Harmless s.swapLastPath :=
  harmless_bind (harmless_active s) fun _ _ =>
    harmless_bind (harmless_mapActive ..) fun _ _ => harmless_ok _

theorem harmless_selectPaneDir (dir : FocusDir) (s : Server) : Harmless (s.selectPaneDir dir) := by
  refine harmless_bind (harmless_active s) fun w _ => ?_
  refine harmless_bind (harmless_mapActive ..) fun s1 _ => ?_
  refine harmless_bind (harmless_active s1) fun v _ => harmless_ite ?_ ?_
  · refine harmless_ite ?_ (harmless_mapActive ..)
    exact harmless_bind (harmless_mapActive ..) fun _ _ => harmless_ok _
  · refine harmless_bind (harmless_mapActive ..) fun s2 _ => ?_
    exact harmless_bind (harmless_active s2) fun _ _ => harmless_ite (harmless_ok _) (harmless_ok _)

theorem harmless_selectPaneLast (s : Server) : Harmless s.selectPaneLast := by
  refine harmless_bind (harmless_active s) fun w _ => ?_
  refine harmless_bind (harmless_ite (harmless_ok _) (harmless_swapLastPath s)) fun s1 _ => ?_
  exact harmless_afterMove ..

theorem harmless_selectPaneCycle (step : ℕ → ℕ → ℕ) (s : Server) : Harmless (s.selectPaneCycle step) := by
  refine harmless_bind (harmless_active s) fun w _ => ?_
  refine harmless_bind ?_ fun s1 _ => harmless_afterMove ..
  split
  · exact harmless_ok _
  · exact harmless_bind (harmless_mapActive ..) fun _ _ => harmless_ok _

theorem harmless_displayPaneSelect (digit : ℕ) (s : Server) : Harmless (s.displayPaneSelect digit) := by
  refine harmless_bind (harmless_active s) fun w _ => ?_
  dsimp only
  split
  · exact harmless_ok _
  · exact harmless_bind (harmless_mapActive ..) fun _ _ => harmless_ite (harmless_ok _) (harmless_ok _)

theorem harmless_focusPaneById (pid : ℕ) (s : Server) : Harmless (s.focusPaneById pid) := by
  rw [focusPaneById]
  split
  · exact harmless_ok _
  · exact harmless_mapActive ..

theorem harmless_unzoomIfMoved (path : List ℕ) (s : Server) : Harmless (s.unzoomIfMoved path) :=
  harmless_bind (harmless_active s) fun _ _ => harmless_ite (harmless_ok _) (harmless_mapActive ..)

theorem harmless_saveFocus (s : Server) : Harmless s.saveFocus := by
  rw [saveFocus.eq_def]
  split
  · exact harmless_ok _
  · exact harmless_bind (harmless_active s) fun _ _ => harmless_ok _

theorem harmless_takeActive (s : Server) : Harmless s.takeActive := by
  refine harmless_bind (harmless_active s) fun w _ => ?_
  split <;> exact harmless_ok _

theorem harmless_graft (u : Node) (w : Window) : Harmless (graft u w) :=
  harmless_bind (harmless_replaceLeafWithSplit ..) fun _ _ => harmless_ok _

theorem harmless_movePane (targetWin : ℕ) (s : Server) : Harmless (s.movePane targetWin) := by
  refine harmless_ite ?_ (harmless_ok _)
  refine harmless_bind (harmless_takeActive s) fun taken _ => ?_
  split
  · exact harmless_ok _
  · exact harmless_ite (harmless_onActive fun _ _ => harmless_graft ..) (harmless_ok _)

theorem harmless_breakPane (s : Server) : Harmless s.breakPane := by
  refine harmless_bind (harmless_mapActive ..) fun s1 _ => ?_
  refine harmless_bind (harmless_takeActive s1) fun taken _ => ?_
  split <;> exact harmless_ok _

theorem harmless_joinPane (targetWin : ℕ) (s : Server) : Harmless (s.joinPane targetWin) :=
  harmless_bind (harmless_mapActive ..) fun s1 _ => harmless_movePane targetWin s1

theorem harmless_focusPane (pid : ℕ) (s : Server) : Harmless (s.focusPane pid) := by
  refine harmless_bind (harmless_active s) fun w _ => ?_
  exact harmless_bind (harmless_focusPaneById pid s) fun s1 _ => harmless_unzoomIfMoved ..

theorem harmless_focusPaneByIndex (idx : ℕ) (checked : Bool) (s : Server) :
    Harmless (s.focusPaneByIndex idx checked) := by
  refine harmless_bind (harmless_active s) fun w _ => ?_
  refine harmless_bind (harmless_mapActive ..) fun s1 _ => ?_
  exact harmless_bind (harmless_unzoomIfMoved ..) fun s2 _ =>
    harmless_ite (harmless_ok _) (harmless_mapActive ..)

theorem harmless_focusWindowTemp (wid : ℕ) (s : Server) : Harmless (s.focusWindowTemp wid) :=
  harmless_bind (harmless_saveFocus s) fun _ _ => harmless_ite (harmless_ok _) (harmless_ok _)

theorem harmless_focusPaneTemp (pid : ℕ) (s : Server) : Harmless (s.focusPaneTemp pid) :=
  harmless_bind (harmless_saveFocus s) fun saved _ =>
    harmless_ite (harmless_focusPaneById pid saved) (harmless_ok _)

theorem harmless_focusPaneByIndexTemp (idx : ℕ) (s : Server) :
    Harmless (s.focusPaneByIndexTemp idx) :=
  harmless_bind (harmless_saveFocus s) fun _ _ => harmless_bind (harmless_active s) fun _ _ =>
    harmless_ite (harmless_mapActive ..) (harmless_ok _)

theorem harmless_restoreFocus (s : Server) : Harmless s.restoreFocus := by
  rw [restoreFocus.eq_def]
  split
  · exact harmless_ok _
  · exact harmless_ite (harmless_mapActive ..) (harmless_ok _)

theorem harmless_killWindow (s : Server) : Harmless s.killWindow := by
  rw [killWindow]
  refine harmless_ite (harmless_bind (harmless_active s) fun _ _ => harmless_ok _) ?_
  exact harmless_ite ⟨by simp, by simp⟩ (harmless_ok _)

theorem harmless_mouseDown (x y : ℕ) (s : Server) : Harmless (s.mouseDown x y) := by
  refine harmless_ite (harmless_ok _) ?_
  refine harmless_bind (harmless_active s) fun w _ => ?_
  refine harmless_bind (harmless_mapActive ..) fun s1 _ => ?_
  dsimp only
  generalize List.find? _ _ = border
  cases border with
  | none => exact harmless_ok _
  | some b =>
    dsimp only
    split <;> exact harmless_ok _

end Server

section Sound
variable {w w' : Window} {i : ℕ}

theorem SoundSizes.of_root (h : SoundSizes w) (hroot : WellSized w'.root)
    (hsaved : w'.zoomSaved = w.zoomSaved) : SoundSizes w' := by
  refine ⟨hroot, ?_⟩
  rw [SavedNonzero, hsaved]
  exact h.2

theorem SoundSizes.unzoom (h : SoundSizes w) (hfit : RestoresFit w) : SoundSizes w.unzoom :=
  wellSized_unzoom h.1 h.2 hfit

theorem SoundSizes.focused (h : SoundSizes w) (path mru : List ℕ) : SoundSizes (w.focused path mru) :=
  h.of_root h.1 rfl

theorem SoundSizes.toggleZoom (h : SoundSizes w) (hfit : RestoresFit w)
    (hin : w.zoomSaved = none → PathInRange w) : SoundSizes w.toggleZoom := by
  rw [Window.toggleZoom]
  split
  · next hz =>
    obtain ⟨hroot, hsaved⟩ := wellSized_zoomIn h.1 (hin hz)
    refine ⟨hroot, fun saved he => ?_⟩
    rw [← Option.some.inj he]
    exact hsaved
  · exact h.unzoom hfit

theorem SoundSizes.ownWindow {u : Node} (h : WellSized u) (wid : ℕ) (mru : List ℕ) :
    SoundSizes (ownWindow wid u mru) := ⟨h, fun _ he => by contradiction⟩

theorem SoundSizes.killPaneAtPath {path : List ℕ} (h : SoundSizes w)
    (hk : killPaneAtPath path w = .ok w') : SoundSizes w' := by
  obtain ⟨root, hroot, hk⟩ := bind_eq_ok.1 hk
  rw [← Except.ok.inj hk]
  exact h.of_root (wellSized_removeNode h.1 hroot) rfl

theorem SoundSizes.graft {u : Node} (h : SoundSizes w) (hu : WellSized u)
    (hg : Server.graft u w = .ok w') : SoundSizes w' := by
  obtain ⟨root, hroot, hg⟩ := bind_eq_ok.1 hg
  rw [← Except.ok.inj hg]
  exact h.of_root (wellSized_replaceLeafWithSplit h.1 hu hroot) rfl

theorem SoundSizes.splitPane {kind : LayoutKind} {id : ℕ} (h : SoundSizes w)
    (hs : Server.splitPane kind id w = .ok w') : SoundSizes w' := by
  obtain ⟨root, hroot, hs⟩ := bind_eq_ok.1 hs
  rw [← Except.ok.inj hs]
  exact h.of_root (wellSized_replaceLeafWithSplit h.1 (wellSized_leaf _) hroot) rfl

theorem SoundSizes.splitEdit {kind : LayoutKind} {id : ℕ} {refused detached : Bool} {pct : Option ℕ}
    (h : SoundSizes w) (hfit : RestoresFit w) (hpct : ∀ p ∈ pct, 1 ≤ p)
    (he : Server.splitEdit kind id refused detached pct w = .ok w') : SoundSizes w' := by
  obtain ⟨w1, h1, he⟩ := bind_eq_ok.1 he
  have hw1 : SoundSizes w1 := by
    cases refused with
    | true =>
      rw [← Except.ok.inj h1]
      exact h.unzoom hfit
    | false => exact (h.unzoom hfit).splitPane h1
  obtain ⟨w2, h2, he⟩ := bind_eq_ok.1 he
  have hw2 : SoundSizes w2 := by
    cases pct with
    | none =>
      rw [← Except.ok.inj h2]
      exact hw1
    | some p =>
      obtain ⟨w3, h3, hroot, hsaved⟩ := wellSized_setSplitPercent (hpct p rfl) hw1.1
      obtain rfl := Except.ok.inj (h3.symm.trans h2)
      exact hw1.of_root hroot hsaved
  rw [← Except.ok.inj he]
  split
  · exact hw2.of_root hw2.1 rfl
  · exact hw2

theorem extractNode_fst_ne_none {n : Node} {path : List ℕ} (h : at? n path = none) :
    (extractNode n path).1 ≠ none := by
  induction path generalizing n with
  | nil => simp at h
  | cons i path ih =>
    cases n with
    | leaf p => simp [extractNode]
    | split a children =>
      rw [at?_split_cons] at h
      cases hc : children[i]? with
      | none => simp [extractNode, hc]
      | some c =>
        rw [hc] at h
        obtain ⟨r, hr⟩ := Option.ne_none_iff_exists'.1 (ih h)
        have hlt := (List.getElem?_eq_some_iff.1 hc).1
        have hne : children.set i r ≠ [] := by
          refine List.ne_nil_of_length_pos ?_
          rw [List.length_set]
          omega
        simp only [extractNode, hc, hr, if_neg hne]
        exact Option.some_ne_none _

theorem SoundSizes.without {rest : Node} (h : SoundSizes w) {path : List ℕ} {u : Option Node}
    (he : extractNode w.root path = (some rest, u)) : SoundSizes (w.without rest) := by
  have hrest := (@wellSized_extractNode _ path h.1).1
  rw [he] at hrest
  exact h.of_root (hrest rest rfl) rfl

theorem SoundSizes.astray {rest : Option Node} (h : SoundSizes w)
    (he : extractNode w.root w.activePath = (rest, none)) : SoundSizes (w.astray rest) := by
  have hat : at? w.root w.activePath = none := by rw [← extractNode_snd, he]
  obtain ⟨r, hr⟩ := Option.ne_none_iff_exists'.1 (extractNode_fst_ne_none hat)
  have hrest := (@wellSized_extractNode _ w.activePath h.1).1 r hr
  rw [he] at hr
  obtain rfl : rest = some r := hr
  exact h.of_root hrest rfl

theorem wellSized_extracted {rest : Option Node} {u : Node} (h : SoundSizes w)
    (he : extractNode w.root w.activePath = (rest, some u)) : WellSized u := by
  have hu := (@wellSized_extractNode _ w.activePath h.1).2
  rw [he] at hu
  exact hu u rfl

/-- The windows after a pane was taken are sound, and so is the pane. -/
theorem sound_taken {windows ws : List Window} {pane : Option Node} (hall : ∀ w ∈ windows, SoundSizes w)
    (hw : SoundSizes w) (h : Taken windows i w pane ws) :
    (∀ w ∈ ws, SoundSizes w) ∧ ∀ u ∈ pane, WellSized u := by
  cases h with
  | some he =>
    refine ⟨forall_set hall (hw.without he), fun u hu => ?_⟩
    rw [← Option.some.inj hu]
    exact wellSized_extracted hw he
  | last he =>
    refine ⟨forall_eraseIdx hall, fun u hu => ?_⟩
    rw [← Option.some.inj hu]
    exact wellSized_extracted hw he
  | astray he => exact ⟨forall_set hall (hw.astray he), by simp⟩

theorem sound_moved {windows ws : List Window} {j : ℕ} {t : Window}
    (hall : ∀ w ∈ windows, SoundSizes w) (hw : SoundSizes w) (ht : SoundSizes t)
    (h : Moved windows i j w t ws) : ∀ w ∈ ws, SoundSizes w := by
  cases h with
  | some he hg =>
    exact forall_set (forall_set hall (hw.without he)) (ht.graft (wellSized_extracted hw he) hg)
  | last he hg =>
    exact forall_eraseIdx (forall_set hall (ht.graft (wellSized_extracted hw he) hg))
  | astray he => exact forall_set hall (hw.astray he)

theorem SoundSizes.applyLayout {options : Options} {layout : Text} (h : SoundSizes w)
    (hok : LayoutSized options layout w) : SoundSizes (applyLayout options layout w) := by
  refine h.of_root (wellSized_applyLayout h.1 hok) ?_
  rw [Layout.applyLayout]
  dsimp only
  repeat' split
  all_goals rfl

theorem SoundSizes.cycleLayoutBy {step : ℕ} {options : Options} (h : SoundSizes w) :
    SoundSizes (cycleLayoutBy step options w) := by
  rw [Layout.cycleLayoutBy]
  split
  · exact h
  · have hidx : (w.layoutIndex + step) % layoutNames.length < layoutNames.length :=
      Nat.mod_lt _ (by decide)
    have hw : SoundSizes { w with layoutIndex := (w.layoutIndex + step) % layoutNames.length } :=
      h.of_root h.1 rfl
    refine hw.applyLayout (.inl (.inr ?_))
    rw [List.getD_eq_getElem?_getD, List.getElem?_eq_getElem hidx, Option.getD_some]
    exact namedLayout_layoutNames (List.getElem_mem hidx) ..

theorem SoundSizes.resizeShare {kind : LayoutKind} {new : ℕ → ℕ} (hnew : ∀ old, new old ≠ 0)
    (h : SoundSizes w) : SoundSizes (resizeShare kind new w) := by
  refine h.of_root (wellSized_resizeShare hnew h.1) ?_
  simp only [Layout.resizeShare]
  split <;> rfl

theorem SoundSizes.resizeBy (dir : FocusDir) (amount : ℕ) (h : SoundSizes w) :
    SoundSizes (resizeBy dir amount w) := by
  cases dir <;> exact h.resizeShare fun _ => atLeastOne_ne_zero _

theorem SoundSizes.resizePaneAbsolute (axis : Axis) (target : ℕ) (h : SoundSizes w) :
    SoundSizes (resizePaneAbsolute axis target w) := by
  refine h.resizeShare fun _ => ?_
  omega

theorem SoundSizes.rotatePanes (reverse : Bool) (h : SoundSizes w) : SoundSizes (rotatePanes reverse w) := by
  rw [Layout.rotatePanes]
  split
  · next a children hroot =>
    split
    · next htwo =>
      have hw := h.1
      rw [hroot] at hw
      obtain ⟨ha, hall⟩ := wellSized_split.1 hw
      have hperm : (children.drop (if reverse then 1 else children.length - 1) ++
          children.take (if reverse then 1 else children.length - 1)).Perm children :=
        List.perm_append_comm.trans (List.Perm.of_eq (List.take_append_drop ..))
      refine h.of_root (wellSized_split.2 ⟨?_, fun c hc => hall c (hperm.mem_iff.1 hc)⟩) rfl
      rw [hperm.length_eq]
      exact ha
    · exact h
  · exact h

end Sound

namespace Server
variable {s s' : Server} {c : Command}

theorem sound_unzoomIfZoomed (hall : ∀ w ∈ s.windows, SoundSizes w)
    (hfit : ∀ w ∈ s.windows[s.activeIdx]?, RestoresFit w) (h : s.unzoomIfZoomed = .ok s') :
    ∀ w ∈ s'.windows, SoundSizes w := by
  obtain ⟨w, w', hw, hw', hs⟩ := (mapActive_edits h).windows_eq
  rw [hs, ← Except.ok.inj hw']
  exact forall_set hall ((hall w (List.mem_of_getElem? hw)).unzoom (hfit w hw))

theorem harmless_splitPane (kind : LayoutKind) (id : ℕ) (w : Window) : Harmless (splitPane kind id w) :=
  harmless_bind (harmless_replaceLeafWithSplit ..) fun _ _ => harmless_ok _

theorem harmless_splitWindow {kind : LayoutKind} {defaultShell refused detached : Bool}
    {size : Option (ℕ × Bool)} {warm : WarmSpawn} (hall : ∀ w ∈ s.windows, SoundSizes w)
    (hfit : ∀ w ∈ s.windows[s.activeIdx]?, RestoresFit w) :
    Harmless (s.splitWindow kind defaultShell refused detached size warm) := by
  refine harmless_bind (harmless_mapActive ..) fun s1 h1 => ?_
  have hall1 := sound_unzoomIfZoomed hall hfit h1
  refine harmless_bind (harmless_active s1) fun w _ => ?_
  refine harmless_bind ?_ fun s2 h2 => ?_
  · exact harmless_ite (harmless_ok _) (harmless_onActive fun _ _ => harmless_splitPane ..)
  have hall2 : ∀ w ∈ s2.windows, SoundSizes w := by
    split at h2
    · rw [← Except.ok.inj h2]
      exact hall1
    · obtain ⟨v, v', hv, hv', hs⟩ := (onActive_edits h2).windows_eq
      rw [windows_takePane] at hv hs
      rw [hs]
      exact forall_set hall1 ((hall1 v (List.mem_of_getElem? hv)).splitPane hv')
  refine harmless_bind ?_ fun s3 _ => ?_
  · cases size with
    | none => exact harmless_ok _
    | some size =>
      refine harmless_onActive fun v hv => ?_
      have hpct := (splitPercent_bounds kind s2.lastWindowArea size.1 size.2).1
      obtain ⟨v', hv', -⟩ :=
        @wellSized_setSplitPercent w.activePath _ hpct _ (hall2 v (List.mem_of_getElem? hv)).1
      exact harmless_of_eq_ok hv'
  · exact harmless_bind (harmless_ite (harmless_mapActive ..) (harmless_ok _)) fun _ _ => harmless_ok _

theorem harmless_killPane (hall : ∀ w ∈ s.windows, SoundSizes w)
    (hfit : ∀ w ∈ s.windows[s.activeIdx]?, RestoresFit w) : Harmless s.killPane :=
  harmless_bind (harmless_mapActive ..) fun _ h1 => harmless_onActive fun w hw =>
    harmless_killPaneAtPath (sound_unzoomIfZoomed hall hfit h1 w (List.mem_of_getElem? hw)).1 _

theorem harmless_killPaneById {pid : ℕ} (hall : ∀ w ∈ s.windows, SoundSizes w)
    (hfit : ∀ w ∈ s.windows[s.activeIdx]?, RestoresFit w) : Harmless (s.killPaneById pid) := by
  refine harmless_bind (harmless_mapActive ..) fun s1 h1 => ?_
  have hall1 := sound_unzoomIfZoomed hall hfit h1
  refine harmless_bind (harmless_active s1) fun w _ => ?_
  split
  · exact harmless_ok _
  · split
    · exact harmless_ok _
    · next t ht =>
      refine harmless_bind (harmless_killPaneAtPath (hall1 t (List.mem_of_getElem? ht)).1 _) fun t' _ => ?_
      exact harmless_ite (harmless_ok _) (harmless_mapActive ..)

theorem harmless_mouseDrag {x y : ℕ} (hall : ∀ w ∈ s.windows, SoundSizes w)
    (hrange : ∀ w ∈ s.windows[s.activeIdx]?, DragInRange s w) : Harmless (s.mouseDrag x y) := by
  refine harmless_onActive fun w hw => ?_
  split
  · next d hd =>
    obtain ⟨w', hw', -⟩ | hclamp := wellSized_adjustSplitSizes (x := x) (y := y)
      (hall w (List.mem_of_getElem? hw)).1 (hrange w hw d hd)
    · exact harmless_of_eq_ok hw'
    · rw [hclamp]
      exact ⟨by simp, by simp⟩
  · exact harmless_ok _

/-- Over sound sizes no command that meets the condition panics over sizes. -/
theorem harmless_step (hall : ∀ w ∈ s.windows, SoundSizes w) (hok : KeepsSizes s c) :
    Harmless (step s c) := by
  obtain ⟨hends, hok⟩ := hok
  cases c with
  | splitWindow => exact harmless_splitWindow hall (hends _ rfl)
  | killPane => exact harmless_killPane hall (hends _ rfl)
  | killPaneById pid => exact harmless_killPaneById hall (hends _ rfl)
  | breakPane => exact harmless_breakPane s
  | joinPane targetWin => exact harmless_joinPane targetWin s
  | movePane targetWin => exact harmless_movePane targetWin s
  | selectPane target =>
    cases target with
    | dir dir => exact harmless_selectPaneDir dir s
    | last => exact harmless_selectPaneLast s
    | next | prev => exact harmless_selectPaneCycle _ s
  | lastPane =>
    refine harmless_bind (harmless_active s) fun w _ => ?_
    exact harmless_ite (harmless_swapLastPath s) (harmless_mapActive ..)
  | displayPaneSelect digit => exact harmless_displayPaneSelect digit s
  | focusPane pid => exact harmless_focusPane pid s
  | focusPaneByIndex idx checked => exact harmless_focusPaneByIndex idx checked s
  | focusWindowTemp wid => exact harmless_focusWindowTemp wid s
  | focusPaneTemp pid => exact harmless_focusPaneTemp pid s
  | focusPaneByIndexTemp idx => exact harmless_focusPaneByIndexTemp idx s
  | restoreFocus => exact harmless_restoreFocus s
  | killWindow => exact harmless_killWindow s
  | mouseDown x y => exact harmless_mouseDown x y s
  | mouseDrag x y => exact harmless_mouseDrag hall hok
  | mouseUp => exact harmless_bind (harmless_active s) fun _ _ => harmless_ok _
  | rotateWindow | cycleTopLayout | zoomPane | paneMouse | splitSetSizes => exact harmless_mapActive _ s
  | swapPane | selectLayout | nextLayout | prevLayout | resizePane | resizePaneAbsolute
  | resizePanePercent => exact harmless_unzoomThen _ s
  | newWindow | selectWindow | nextWindow | prevWindow | lastWindow | clientSize | reapChildren =>
    exact harmless_ok _

theorem zoomSaved_unzoom (w : Window) : w.unzoom.zoomSaved = none := by
  rw [Window.unzoom]
  split
  · next hz => exact hz
  · rfl

theorem zoomSaved_pruneWindow (root : Node) (w : Window) : (pruneWindow root w).zoomSaved = w.zoomSaved := by
  have hrepair (activeId : Option ℕ) (w : Window) : (repairPath activeId w).zoomSaved = w.zoomSaved := by
    rw [repairPath]
    split <;> rfl
  exact hrepair ..

theorem sound_refocus {windows : List Window} (hall : ∀ w ∈ s.windows, SoundSizes w)
    (hok : KeepsSizes s c) (h : Refocus s c windows) : ∀ w ∈ windows, SoundSizes w := by
  cases h with
  | same => exact hall
  | @kept i path w mru _ hw _ => exact forall_set hall ((hall w (List.mem_of_getElem? hw)).focused path mru)
  | @ended i path w mru _ hw hz =>
    have hfit : RestoresFit (w.focused path mru) := hok.1 i hz w hw
    exact forall_set hall (((hall w (List.mem_of_getElem? hw)).focused path mru).unzoom hfit)
  | @rezoomed dir w hc hw hz =>
    subst hc
    have hunzoom := (hall w (List.mem_of_getElem? hw)).unzoom (hok.1 _ rfl w hw)
    refine forall_set hall (hunzoom.toggleZoom ?_ fun _ => ?_)
    · intro saved he
      rw [zoomSaved_unzoom] at he
      contradiction
    · intro depth hd k hk
      rw [activePath_unzoom] at hd hk ⊢
      rw [arity_eq_of_shape (shape_unzoom w)] at hk
      exact hok.2 w hw hz depth hd k hk

theorem sound_edits {f : Window → Window} (hall : ∀ w ∈ s.windows, SoundSizes w)
    (h : Edits (fun w => .ok (f w)) s s')
    (hf : ∀ w, s.windows[s.activeIdx]? = some w → SoundSizes w → SoundSizes (f w)) :
    ∀ w ∈ s'.windows, SoundSizes w := by
  obtain ⟨w, w', hw, hw', hs⟩ := h.windows_eq
  rw [hs, ← Except.ok.inj hw']
  exact forall_set hall (hf w hw (hall w (List.mem_of_getElem? hw)))

theorem sound_reap (exited : List ℕ) (hall : ∀ w ∈ s.windows, SoundSizes w) :
    ∀ w ∈ (s.reapChildren exited).windows, SoundSizes w := by
  refine reapChildren_invariant (P := fun t => ∀ w ∈ t.windows, SoundSizes w) hall fun t i hall => ?_
  have h := reaped_reapWindow exited t i
  generalize (t.reapWindow exited i).windows = windows at h
  cases h with
  | same => exact hall
  | @pruned w root hw hr =>
    have hsound := hall w (List.mem_of_getElem? hw)
    refine forall_set hall (hsound.of_root ?_ (zoomSaved_pruneWindow root w))
    rw [root_pruneWindow]
    exact wellSized_pruneExited hsound.1 hr
  | gone => exact forall_eraseIdx hall

theorem sound_killPaneById (hall : ∀ w ∈ s.windows, SoundSizes w) {pid : ℕ}
    (hends : ∀ i ∈ endsZoom s (.killPaneById pid), ∀ w ∈ s.windows[i]?, RestoresFit w)
    (h : s.killPaneById pid = .ok s') : ∀ w ∈ s'.windows, SoundSizes w := by
  obtain ⟨w, hw, hs | ⟨path, w', -, hw', hs⟩ | ⟨j, path, t, t', -, ht, -, ht', hs⟩⟩ := killPaneById_eq_ok h
  all_goals
    have hsound := (hall w (List.mem_of_getElem? hw)).unzoom (hends _ rfl w hw)
    rw [hs]
  · exact forall_set hall hsound
  · exact forall_set hall (hsound.killPaneAtPath hw')
  · exact forall_set (forall_set hall ((hall t (List.mem_of_getElem? ht)).killPaneAtPath ht'))
      (hsound.of_root hsound.1 rfl)

theorem sound_breakPane (hall : ∀ w ∈ s.windows, SoundSizes w)
    (hends : ∀ i ∈ endsZoom s .breakPane, ∀ w ∈ s.windows[i]?, RestoresFit w)
    (h : s.breakPane = .ok s') : ∀ w ∈ s'.windows, SoundSizes w := by
  obtain ⟨w, pane, windows, hw, ht, hs⟩ := breakPane_eq_ok h
  obtain ⟨hws, hpane⟩ :=
    sound_taken hall ((hall w (List.mem_of_getElem? hw)).unzoom (hends _ rfl w hw)) ht
  rw [hs]
  intro v hv
  obtain hv | hv := List.mem_append.1 hv
  · exact hws v hv
  · obtain ⟨u, hu, rfl⟩ := Option.map_eq_some_iff.1 (Option.mem_toList.1 hv)
    exact .ownWindow (hpane u hu) _ _

theorem sound_mouseDrag (hall : ∀ w ∈ s.windows, SoundSizes w)
    (hok : ∀ w ∈ s.windows[s.activeIdx]?, DragInRange s w) {x y : ℕ} (h : s.mouseDrag x y = .ok s') :
    ∀ w ∈ s'.windows, SoundSizes w := by
  obtain ⟨w, w', hw, hw', hs⟩ := (onActive_edits h).windows_eq
  have hsound := hall w (List.mem_of_getElem? hw)
  rw [hs]
  refine forall_set hall ?_
  split at hw'
  · next d hd =>
    obtain ⟨v, hv, hroot, hsaved⟩ | hclamp := wellSized_adjustSplitSizes hsound.1 (hok w hw d hd)
    · obtain rfl := Except.ok.inj (hv.symm.trans hw')
      exact hsound.of_root hroot hsaved
    · rw [hclamp] at hw'
      cases hw'
  · rw [← Except.ok.inj hw']
    exact hsound

theorem sound_step (hall : ∀ w ∈ s.windows, SoundSizes w) (hok : KeepsSizes s c) (h : step s c = .ok s') :
    ∀ w ∈ s'.windows, SoundSizes w := by
  have hunzoomThen : ∀ {f : Window → Window}, endsZoom s c = some s.activeIdx → unzoomThen f s = .ok s' →
      (∀ w, s.windows[s.activeIdx]? = some w → SoundSizes w.unzoom → SoundSizes (f w.unzoom)) →
      ∀ w ∈ s'.windows, SoundSizes w := fun hz h hf =>
    sound_edits hall (unzoomThen_edits h) fun w hw hs => hf w hw (hs.unzoom (hok.1 _ hz w hw))
  have hfocus := fun hc => sound_refocus hall hok (refocus_step hc h)
  obtain ⟨hends, hok⟩ := hok
  cases c with
  | newWindow defaultShell refused detached warm =>
    rw [← Except.ok.inj h, windows_newWindow]
    split
    · exact hall
    · intro w hw
      obtain hw | hw := List.mem_append.1 hw
      · exact hall w hw
      · rw [List.mem_singleton.1 hw]
        exact .ownWindow (wellSized_leaf _) _ _
  | splitWindow =>
    obtain ⟨pct, hpct, w, w', hw, hw', hs⟩ := splitWindow_windows h
    have hsound := hall w (List.mem_of_getElem? hw)
    rw [hs]
    exact forall_set hall (hsound.splitEdit (hends _ rfl w hw) (fun p hp => (hpct p hp).1) hw')
  | killPane =>
    obtain ⟨w, w', hw, hw', hs⟩ := (killPane_edits h).windows_eq
    have hsound := (hall w (List.mem_of_getElem? hw)).unzoom (hends _ rfl w hw)
    rw [hs]
    exact forall_set hall (hsound.killPaneAtPath hw')
  | killPaneById pid => exact sound_killPaneById hall hends h
  | breakPane => exact sound_breakPane hall hends h
  | joinPane targetWin =>
    obtain ⟨w, hw, ⟨-, hs⟩ | ⟨-, -, t, ht, hm⟩⟩ := joinPane_eq_ok h
    all_goals have hsound := (hall w (List.mem_of_getElem? hw)).unzoom (hends _ rfl w hw)
    · rw [hs]
      exact forall_set hall hsound
    · exact sound_moved hall hsound (hall t (List.mem_of_getElem? ht)) hm
  | movePane targetWin =>
    obtain ⟨-, rfl⟩ | ⟨-, -, w, t, hw, ht, hm⟩ := movePane_eq_ok h
    · exact hall
    · exact sound_moved hall (hall w (List.mem_of_getElem? hw)) (hall t (List.mem_of_getElem? ht)) hm
  | rotateWindow reverse => exact sound_edits hall (mapActive_edits h) fun w _ hs => hs.rotatePanes reverse
  | selectLayout layout =>
    refine hunzoomThen rfl h fun w hw hs => hs.applyLayout ?_
    have hleaves := leaves_eq_of_shape (shape_unzoom w)
    rw [LayoutSized, LayoutNamed, countPanes, collectLeaves, hleaves]
    exact hok w hw
  | nextLayout | prevLayout => exact hunzoomThen rfl h fun w _ hs => hs.cycleLayoutBy
  | cycleTopLayout =>
    exact sound_edits hall (mapActive_edits h) fun w hw hs =>
      hs.of_root (wellSized_cycleTopLayout hs.1 (hok w hw)) rfl
  | zoomPane =>
    exact sound_edits hall (mapActive_edits h) fun w hw hs => hs.toggleZoom (hends _ rfl w hw) (hok w hw)
  | resizePane dir amount => exact hunzoomThen rfl h fun w _ hs => hs.resizeBy dir amount
  | resizePaneAbsolute axis size => exact hunzoomThen rfl h fun w _ hs => hs.resizePaneAbsolute axis size
  | resizePanePercent axis pct => exact hunzoomThen rfl h fun w _ hs => hs.resizePaneAbsolute axis _
  | killWindow =>
    obtain hs | hs := killWindow_eq_ok h
    · rw [hs]
      exact hall
    · rw [hs]
      exact forall_eraseIdx hall
  | mouseDrag x y => exact sound_mouseDrag hall hok h
  | splitSetSizes path sizes =>
    refine sound_edits hall (mapActive_edits h) fun w hw hs =>
      hs.of_root (wellSized_handleSplitSetSizes hs.1 (hok w hw)) ?_
    rw [handleSplitSetSizes]
    repeat' split
    all_goals rfl
  | reapChildren exited =>
    rw [← Except.ok.inj h]
    exact sound_reap exited hall
  | swapPane | selectPane | lastPane | displayPaneSelect | focusPane | focusPaneByIndex
  | focusWindowTemp | focusPaneTemp | focusPaneByIndexTemp | restoreFocus | selectWindow
  | nextWindow | prevWindow | lastWindow | clientSize | mouseDown | mouseUp | paneMouse =>
    exact hfocus rfl

end Server

/-- In every run whose commands meet the condition, every split has two children or more and
as many sizes, not all zero, and no further such command panics over sizes. -/
theorem splits_stay_sized {options : Options} {area : Rect} {paneId winId : ℕ} {s : Server}
    (hs : ((session (start options area paneId winId)).restrict KeepsSizes).Reachable s) :
    (∀ w ∈ s.windows, ∀ path a children, at? w.root path = some (.split a children) →
      2 ≤ children.length ∧ a.sizes.length = children.length ∧ ∃ x ∈ a.sizes, x ≠ 0) ∧
    ∀ c, KeepsSizes s c → step s c ≠ .error .sizeIndex ∧ step s c ≠ .error .divideByZero := by
  have hinit : ∀ w ∈ (start options area paneId winId).windows, SoundSizes w := by
    intro w hw
    rw [List.mem_singleton.1 hw]
    exact .ownWindow (wellSized_leaf _) winId [paneId]
  have hinv : ∀ w ∈ s.windows, SoundSizes w := by
    refine hs.invariant (P := fun s => ∀ w ∈ s.windows, SoundSizes w) hinit ?_
    intro s c _ hall ⟨hl, hok⟩
    exact Server.sound_step hall hok (session_next hl)
  constructor
  · intro w hw path a children hat
    have h := allSplits_iff.1 (hinv w hw).1 path a children hat
    exact ⟨h.two, h.length, h.nonzero⟩
  · intro c hok
    exact Server.harmless_step hinv hok

theorem splits_stay_sized_halves :
    let s := (session terminal).run terminal halves
    (∀ w ∈ s.windows, ∀ path a children, at? w.root path = some (.split a children) →
      2 ≤ children.length ∧ a.sizes.length = children.length ∧ ∃ x ∈ a.sizes, x ≠ 0) ∧
    ∀ c, KeepsSizes s c → step s c ≠ .error .sizeIndex ∧ step s c ≠ .error .divideByZero := by
  have hfit : KeepsSizes terminal (.splitWindow .horizontal true false false none .refused) := by
    refine ⟨fun i hi w hw saved hsaved => ?_, trivial⟩
    obtain rfl : 0 = i := Option.some.inj hi
    obtain rfl := Option.some.inj hw
    contradiction
  exact splits_stay_sized (System.Reachable.run (S := (session terminal).restrict KeepsSizes) .init halves
    ⟨⟨show (session terminal).enabled terminal _ by decide, hfit⟩, trivial⟩)

/-- Three panes in a row. -/
def thirds : List Command :=
  halves ++ [.splitWindow .horizontal true false false none .refused, .selectLayout (utf8 "even-horizontal")]

/-- The shares at the top and how many children there are. -/
def topSizes : Node → List ℕ × ℕ
  | .split a children => (a.sizes, children.length)
  | .leaf _ => ([], 0)

/-- Two panes, the left one in a group of its own. -/
def oneInGroup : Text := utf8 "abcd,80x24,0,0{40x24,0,0[40x24,0,0,0],39x24,41,0,1}"

/-- How many children the first child has. -/
def firstArity : Node → Option ℕ
  | .split _ (.split _ children :: _) => some children.length
  | _ => none

theorem at?_of_firstArity {n : Node} {k : ℕ} (h : firstArity n = some k) :
    ∃ a children, at? n [0] = some (.split a children) ∧ children.length = k := by
  unfold firstArity at h
  split at h
  · next a b children rest => exact ⟨b, children, by simp [at?], Option.some.inj h⟩
  · cases h

/-- The turn of a split gives three panes two sizes, and a layout makes a split of one pane. -/
theorem turn_drops_size :
    (¬ ∀ s : Server, (session terminal).Reachable s → ∀ w ∈ s.windows, ∀ path a children,
      at? w.root path = some (.split a children) → a.sizes.length = children.length) ∧
    ¬ ∀ s : Server, (session terminal).Reachable s → ∀ w ∈ s.windows, ∀ path a children,
      at? w.root path = some (.split a children) → 2 ≤ children.length := by
  constructor
  · intro h
    have hv : (session terminal).Valid terminal (thirds ++ [.cycleTopLayout]) := by
      decide
    have hw : ((session terminal).run terminal (thirds ++ [.cycleTopLayout])).windows.head?.map
        (fun w => topSizes w.root) = some ([50, 50], 3) := by
      decide
    obtain ⟨w, hhead, hroot⟩ := Option.map_eq_some_iff.1 hw
    unfold topSizes at hroot
    split at hroot
    · next a children he =>
      have hlen := h _ (System.Reachable.run .init _ hv) w (List.mem_of_head? hhead) [] a children
        (by rw [he, at?_nil])
      obtain ⟨hsizes, hchildren⟩ := Prod.mk.inj hroot
      rw [hsizes, hchildren] at hlen
      contradiction
    · cases hroot
  · intro h
    have hv : (session terminal).Valid terminal (halves ++ [.selectLayout oneInGroup]) := by
      decide
    have hw : ((session terminal).run terminal (halves ++ [.selectLayout oneInGroup])).windows.head?.bind
        (fun w => firstArity w.root) = some 1 := by
      decide
    obtain ⟨w, hhead, harity⟩ := Option.bind_eq_some_iff.1 hw
    obtain ⟨a, children, hat, hlen⟩ := at?_of_firstArity harity
    have htwo := h _ (System.Reachable.run .init _ hv) w (List.mem_of_head? hhead) [0] a children hat
    omega

end Winsmux.Layout
