import Winsmux.Layout.Focus

/-!
# Commands on more than one window

What a command that makes, breaks, joins or removes windows leaves of the list of
windows. A pane taken out of a window goes into a window of its own or into the target's
tree; its window may go with it.
-/
namespace Winsmux.Layout
open PathTree Json

/-- The window that a broken pane gets. -/
def ownWindow (wid : ℕ) (pane : Node) (mru : List ℕ) : Window := ⟨wid, pane, [], 0, mru, none⟩

/-- A window after a pane was taken out of it. -/
def Window.without (rest : Node) (w : Window) : Window :=
  { w with root := rest, activePath := firstLeafPath rest }

/-- A window that was asked for a pane it does not have. -/
def Window.astray (rest : Option Node) (w : Window) : Window := { w with root := rest.getD placeholder }

/-- What is left of the windows when the pane at the active path of `w` goes. -/
inductive Taken (windows : List Window) (i : ℕ) (w : Window) : Option Node → List Window → Prop
  | some {rest u : Node} (he : extractNode w.root w.activePath = (some rest, some u)) :
      Taken windows i w (some u) (windows.set i (w.without rest))
  | last {u : Node} (he : extractNode w.root w.activePath = (none, some u)) :
      Taken windows i w (some u) (windows.eraseIdx i)
  | astray {rest : Option Node} (he : extractNode w.root w.activePath = (rest, none)) :
      Taken windows i w none (windows.set i (w.astray rest))

/-- What is left of the windows when the pane at the active path of `w` goes into `t`. -/
inductive Moved (windows : List Window) (i j : ℕ) (w t : Window) : List Window → Prop
  | some {rest u : Node} {t' : Window} (he : extractNode w.root w.activePath = (some rest, some u))
      (hg : Server.graft u t = .ok t') : Moved windows i j w t ((windows.set i (w.without rest)).set j t')
  | last {u : Node} {t' : Window} (he : extractNode w.root w.activePath = (none, some u))
      (hg : Server.graft u t = .ok t') : Moved windows i j w t ((windows.set j t').eraseIdx i)
  | astray {rest : Option Node} (he : extractNode w.root w.activePath = (rest, none)) :
      Moved windows i j w t (windows.set i (w.astray rest))

theorem Moved.of_set {windows ws : List Window} {i j : ℕ} {v w t : Window} (hne : j ≠ i)
    (h : Moved (windows.set i v) i j w t ws) : Moved windows i j w t ws := by
  cases h with
  | some he hg =>
    rw [List.set_set]
    exact .some he hg
  | last he hg =>
    rw [List.set_comm _ _ hne.symm, List.eraseIdx_set_eq]
    exact .last he hg
  | astray he =>
    rw [List.set_set]
    exact .astray he

theorem Taken.of_set {windows ws : List Window} {i : ℕ} {v w : Window} {pane : Option Node}
    (h : Taken (windows.set i v) i w pane ws) : Taken windows i w pane ws := by
  cases h with
  | some he =>
    rw [List.set_set]
    exact .some he
  | last he =>
    rw [List.eraseIdx_set_eq]
    exact .last he
  | astray he =>
    rw [List.set_set]
    exact .astray he

namespace Server
variable {s s' : Server} {w : Window} {c : Command}

theorem takeActive_eq_ok {pane : Option Node} (h : s.takeActive = .ok (pane, s')) :
    ∃ w, s.windows[s.activeIdx]? = some w ∧ Taken s.windows s.activeIdx w pane s'.windows ∧
      s'.activeIdx = s.activeIdx ∧ s'.nextWinId = s.nextWinId ∧ s'.supply = s.supply := by
  obtain ⟨w, hw, h⟩ := bind_eq_ok.1 h
  refine ⟨w, active_eq_ok.1 hw, ?_⟩
  split at h
  · next rest u he =>
    obtain ⟨rfl, rfl⟩ := Prod.mk.inj (Except.ok.inj h)
    exact ⟨.some he, rfl, rfl, rfl⟩
  · next u he =>
    obtain ⟨rfl, rfl⟩ := Prod.mk.inj (Except.ok.inj h)
    exact ⟨.last he, rfl, rfl, rfl⟩
  · next rest he =>
    obtain ⟨rfl, rfl⟩ := Prod.mk.inj (Except.ok.inj h)
    exact ⟨.astray he, rfl, rfl, rfl⟩

theorem windows_newWindow (defaultShell refused detached : Bool) (warm : WarmSpawn) (s : Server) :
    (s.newWindow defaultShell refused detached warm).windows =
      if refused && !(defaultShell && s.warmPane.isSome) then s.windows
      else
        s.windows ++ [ownWindow s.nextWinId (.leaf ⟨(s.takePane defaultShell).1, false⟩)
          [(s.takePane defaultShell).1]] := by
  have hid : (s.takePane defaultShell).2.nextWinId = s.nextWinId := by
    rw [takePane.eq_def]
    split <;> rfl
  have hcreate : (s.createWindow defaultShell refused).windows =
      if refused && !(defaultShell && s.warmPane.isSome) then s.windows
      else
        s.windows ++ [ownWindow s.nextWinId (.leaf ⟨(s.takePane defaultShell).1, false⟩)
          [(s.takePane defaultShell).1]] := by
    rw [createWindow]
    split
    · rfl
    · simp only [withActive, pushWindow, windows_takePane, hid]
      rfl
  rw [newWindow, windows_replenish]
  split
  · exact hcreate
  · exact hcreate

theorem active_setActive {v : Window} (hw : s.active = .ok w) :
    (s.setActive v).windows[s.activeIdx]? = some v :=
  List.getElem?_set_self (List.getElem?_eq_some_iff.1 (active_eq_ok.1 hw)).1

theorem breakPane_eq_ok (h : s.breakPane = .ok s') :
    ∃ w pane windows, s.windows[s.activeIdx]? = some w ∧
      Taken s.windows s.activeIdx w.unzoom pane windows ∧
      s'.windows = windows ++ (pane.map fun u => ownWindow s.nextWinId u (collectPaneIds u)).toList := by
  obtain ⟨s1, h1, h⟩ := bind_eq_ok.1 h
  obtain ⟨w, hw, rfl⟩ := mapActive_eq_ok.1 h1
  obtain ⟨⟨pane, s2⟩, h2, h⟩ := bind_eq_ok.1 h
  obtain ⟨v, hv, ht, -, hid, -⟩ := takeActive_eq_ok h2
  obtain rfl : w.unzoom = v := Option.some.inj ((active_setActive hw).symm.trans hv)
  refine ⟨w, pane, s2.windows, active_eq_ok.1 hw, ht.of_set, ?_⟩
  cases pane with
  | none =>
    rw [← Except.ok.inj h]
    simp
  | some u =>
    rw [← Except.ok.inj h]
    simp [pushWindow, withActive, ownWindow, hid]
    rfl

/-- Where the target stands once the source window is gone. -/
theorem erased_target (windows : List Window) {i j : ℕ} (hne : i ≠ j) :
    (j < windows.length → i < windows.length → (if i < j then j - 1 else j) < windows.length - 1) ∧
      (windows.eraseIdx i)[if i < j then j - 1 else j]? = windows[j]? ∧
      ∀ t, (windows.eraseIdx i).set (if i < j then j - 1 else j) t = (windows.set j t).eraseIdx i := by
  by_cases h : i < j
  · have hj : j - 1 + 1 = j := by omega
    simp only [if_pos h]
    refine ⟨by omega, ?_, fun t => ?_⟩
    · rw [List.getElem?_eraseIdx_of_ge (by omega), hj]
    · rw [List.set_eraseIdx_le (by omega), hj]
  · simp only [if_neg h]
    refine ⟨by omega, ?_, fun t => ?_⟩
    · rw [List.getElem?_eraseIdx_of_lt (by omega)]
    · rw [List.set_eraseIdx_gt (by omega)]

theorem movePane_eq_ok {targetWin : ℕ} (h : s.movePane targetWin = .ok s') :
    ¬ (targetWin < s.windows.length ∧ targetWin ≠ s.activeIdx) ∧ s' = s ∨
      targetWin < s.windows.length ∧ targetWin ≠ s.activeIdx ∧
        ∃ w t, s.windows[s.activeIdx]? = some w ∧ s.windows[targetWin]? = some t ∧
          Moved s.windows s.activeIdx targetWin w t s'.windows := by
  rw [movePane] at h
  split at h
  · next hv =>
    obtain ⟨hlt, hne⟩ := hv
    obtain ⟨⟨pane, s1⟩, h1, h⟩ := bind_eq_ok.1 h
    obtain ⟨w, hw, ht, hidx, -⟩ := takeActive_eq_ok h1
    refine .inr ⟨hlt, hne, w, s.windows[targetWin], hw, List.getElem?_eq_getElem hlt, ?_⟩
    have hi := (List.getElem?_eq_some_iff.1 hw).1
    generalize hws : s1.windows = windows at ht
    cases ht with
    | astray he =>
      rw [← Except.ok.inj h, hws]
      exact .astray he
    | @some rest u he =>
      have hlen : s1.windows.length = s.windows.length := by rw [hws, List.length_set]
      simp only [hlen, lt_irrefl, decide_false, Bool.false_and, Bool.false_eq_true, if_false, if_pos hlt] at h
      obtain ⟨t, t', ht, ht', rfl⟩ := onActive_eq_ok.1 h
      have ht : s1.windows[targetWin]? = some t := active_eq_ok.1 ht
      rw [hws, List.getElem?_set_ne (Ne.symm hne)] at ht
      obtain rfl : s.windows[targetWin] = t := by simpa using (List.getElem?_eq_getElem hlt).symm.trans ht
      have hs : ((s1.withActive targetWin).setActive t').windows =
          (s.windows.set s.activeIdx (w.without rest)).set targetWin t' := by
        rw [setActive, withActive, hws]
      rw [hs]
      exact .some he ht'
    | @last u he =>
      have hlen : s1.windows.length = s.windows.length - 1 := by rw [hws, List.length_eraseIdx_of_lt hi]
      have hempty : s1.windows.length < s.windows.length := by omega
      obtain ⟨htgt, hget, hset⟩ := erased_target s.windows (Ne.symm hne)
      rw [← hws] at hget hset
      simp only [hempty, decide_true, Bool.true_and, if_true, decide_eq_true_eq, gt_iff_lt] at h
      generalize hg : (if s.activeIdx < targetWin then targetWin - 1 else targetWin) = tgt at *
      have hlt' : tgt < (s1.withActive (min s1.activeIdx (s1.windows.length - 1))).windows.length := by
        show tgt < s1.windows.length
        omega
      rw [if_pos hlt'] at h
      obtain ⟨t, t', ht, ht', rfl⟩ := onActive_eq_ok.1 h
      have ht : s1.windows[tgt]? = some t := active_eq_ok.1 ht
      rw [hget] at ht
      obtain rfl : s.windows[targetWin] = t := by simpa using (List.getElem?_eq_getElem hlt).symm.trans ht
      have hs : ((s1.withActive tgt).setActive t').windows =
          (s.windows.set targetWin t').eraseIdx s.activeIdx := hset t'
      show Moved _ _ _ _ _ ((s1.withActive tgt).setActive t').windows
      rw [hs]
      exact .last he ht'
  · next hv => exact .inl ⟨hv, (Except.ok.inj h).symm⟩

theorem joinPane_eq_ok {targetWin : ℕ} (h : s.joinPane targetWin = .ok s') :
    ∃ w, s.windows[s.activeIdx]? = some w ∧
      (¬ (targetWin < s.windows.length ∧ targetWin ≠ s.activeIdx) ∧
          s'.windows = s.windows.set s.activeIdx w.unzoom ∨
        targetWin < s.windows.length ∧ targetWin ≠ s.activeIdx ∧
          ∃ t, s.windows[targetWin]? = some t ∧
            Moved s.windows s.activeIdx targetWin w.unzoom t s'.windows) := by
  obtain ⟨s1, h1, h⟩ := bind_eq_ok.1 h
  obtain ⟨w, hw, rfl⟩ := mapActive_eq_ok.1 h1
  refine ⟨w, active_eq_ok.1 hw, ?_⟩
  have hlen : (s.setActive w.unzoom).windows.length = s.windows.length := List.length_set ..
  have hidx : (s.setActive w.unzoom).activeIdx = s.activeIdx := rfl
  obtain ⟨hv, rfl⟩ | ⟨hlt, hne, v, t, hv, ht, hm⟩ := movePane_eq_ok h
  · rw [hlen, hidx] at hv
    exact .inl ⟨hv, rfl⟩
  · rw [hlen] at hlt
    rw [hidx] at hne hm
    obtain rfl : w.unzoom = v := Option.some.inj ((active_setActive hw).symm.trans hv)
    have ht : s.windows[targetWin]? = some t := by
      rwa [setActive, List.getElem?_set_ne (Ne.symm hne)] at ht
    exact .inr ⟨hlt, hne, t, ht, hm.of_set hne⟩

/-- A pane killed by its id: none such, one of the active window, one of another. -/
theorem killPaneById_eq_ok {pid : ℕ} (h : s.killPaneById pid = .ok s') :
    ∃ w, s.windows[s.activeIdx]? = some w ∧
      (s'.windows = s.windows.set s.activeIdx w.unzoom ∨
        (∃ path w', findPathById w.unzoom.root pid = some path ∧
          killPaneAtPath path w.unzoom = .ok w' ∧ s'.windows = s.windows.set s.activeIdx w') ∨
        ∃ j path t t', j ≠ s.activeIdx ∧ s.windows[j]? = some t ∧
          findPathById t.root pid = some path ∧ killPaneAtPath path t = .ok t' ∧
          s'.windows = (s.windows.set j t').set s.activeIdx (refocus w.unzoom.activePaneId w.unzoom)) := by
  obtain ⟨s1, h1, h⟩ := bind_eq_ok.1 h
  obtain ⟨w, hw, rfl⟩ := mapActive_eq_ok.1 h1
  refine ⟨w, active_eq_ok.1 hw, ?_⟩
  have hw1 := active_setActive (v := w.unzoom) hw
  rw [active_eq_ok.2 hw1, ok_bind] at h
  split at h
  · rw [← Except.ok.inj h]
    exact .inl rfl
  · next j path hf =>
    obtain ⟨t, ht, hpath⟩ := findPane_eq_some hf
    rw [ht] at h
    obtain ⟨t', ht', hend⟩ := bind_eq_ok.1 h
    by_cases hj : j = s.activeIdx
    · rw [hj] at ht
      obtain rfl : w.unzoom = t := Option.some.inj (hw1.symm.trans ht)
      simp only [hj, setActive, if_true, List.set_set] at hend
      refine .inr (.inl ⟨path, t', hpath, ht', ?_⟩)
      rw [← Except.ok.inj hend]
    · simp only [hj, setActive, if_false] at hend
      have ht : s.windows[j]? = some t := by
        rwa [setActive, List.getElem?_set_ne (Ne.symm hj)] at ht
      obtain ⟨v, hv, rfl⟩ := mapActive_eq_ok.1 hend
      have hv : ((s.setActive w.unzoom).windows.set j t')[s.activeIdx]? = some v := active_eq_ok.1 hv
      rw [List.getElem?_set_ne hj, hw1] at hv
      obtain rfl := Option.some.inj hv
      refine .inr (.inr ⟨j, path, t, t', hj, ht, hpath, ht', ?_⟩)
      show ((s.windows.set s.activeIdx w.unzoom).set j t').set s.activeIdx _ = _
      rw [List.set_comm _ _ (Ne.symm hj), List.set_set]

theorem killWindow_eq_ok (h : s.killWindow = .ok s') :
    s'.windows = s.windows ∨ s'.windows = s.windows.eraseIdx s.activeIdx := by
  rw [killWindow] at h
  split at h
  · obtain ⟨w, -, h⟩ := bind_eq_ok.1 h
    rw [← Except.ok.inj h]
    exact .inr rfl
  · split at h
    · cases h
    · rw [Except.ok.inj h]
      exact .inl rfl

@[simp] theorem root_repairPath (activeId : Option ℕ) (w : Window) :
    (repairPath activeId w).root = w.root := by
  rw [repairPath]
  split <;> rfl

@[simp] theorem root_pruneWindow (root : Node) (w : Window) : (pruneWindow root w).root = root :=
  root_repairPath ..

/-- One window of a reap: as it was, pruned or gone. -/
inductive Reaped (exited : List ℕ) (s : Server) (i : ℕ) : List Window → Prop
  | same : Reaped exited s i s.windows
  | pruned {w : Window} {root : Node} (hw : s.windows[i]? = some w)
      (hr : pruneExited exited s.options.remainOnExit w.root = some root) :
      Reaped exited s i (s.windows.set i (pruneWindow root w))
  | gone {w : Window} (hw : s.windows[i]? = some w)
      (hr : pruneExited exited s.options.remainOnExit w.root = none) :
      Reaped exited s i (s.windows.eraseIdx i)

theorem reaped_reapWindow (exited : List ℕ) (s : Server) (i : ℕ) :
    Reaped exited s i (s.reapWindow exited i).windows := by
  rw [reapWindow]
  split
  · exact .same
  · next w hw =>
    split
    · split
      · next root hr => exact .pruned hw hr
      · next hr => exact .gone hw hr
    · exact .same

/-- What the reap of every one window keeps, the reap keeps. -/
theorem reapChildren_invariant {P : Server → Prop} {exited : List ℕ} (hs : P s)
    (hstep : ∀ s i, P s → P (s.reapWindow exited i)) : P (s.reapChildren exited) := by
  rw [reapChildren]
  generalize (List.range s.windows.length).reverse = is
  induction is generalizing s with
  | nil => exact hs
  | cons i is ih => exact ih (hstep s i hs)

end Server
end Winsmux.Layout
