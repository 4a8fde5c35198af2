import Winsmux.Layout.WindowIds

/-!
# The windows that a command removes and makes

Most commands that edit the list of windows remove some by position and put new ones at
the end (`Listed`); the others move, exchange or insert one. Each leaves every window that
it does not remove once (`Account`).
-/
namespace Winsmux.Layout
open PathTree Json Transition Positions

/-- Whether the active path leads to a pane that can be taken out. -/
def Window.yields (w : Window) : Bool := (extractNode w.root w.activePath).2.isSome

/-- Whether the window goes with the pane that is taken out. -/
def Window.emptied (w : Window) : Bool := w.yields && (extractNode w.root w.activePath).1.isNone

namespace Server

/-- A window other than the active one. -/
def another (s : Server) (target : ℕ) : Bool := target < s.windows.length && s.activeIdx != target

/-- Whether a shell was started in a new window. -/
def opens (s : Server) (defaultShell refused : Bool) : Bool :=
  !(refused && !(defaultShell && s.warmPane.isSome))

def links (s : Server) (src : Option ℕ) (refused : Bool) : Bool :=
  src.getD s.activeIdx < s.windows.length && s.opens true refused

/-- Whether all panes of a window have exited. -/
def exits (s : Server) (exited : List ℕ) (w : Window) : Bool :=
  hasAnyExited exited w.root && (pruneExited exited s.options.remainOnExit w.root).isNone

end Server

namespace WindowCommand

/-- The commands that insert, remove or reorder windows. -/
def editsWindows : WindowCommand → Bool
  | .layout (.newWindow ..) | .layout .breakPane | .layout (.joinPane _) | .layout (.movePane _)
  | .layout .killWindow | .layout (.reapChildren _) | .moveWindow _ | .swapWindow _ | .linkWindow ..
  | .unlinkWindow => true
  | _ => false

/-- The windows that a command removes, by position. -/
def removes (s : Server) (c : WindowCommand) (i : ℕ) : Bool :=
  match c with
  | .layout .breakPane => i = s.activeIdx && s.windows[i]?.any fun w => w.unzoom.emptied
  | .layout (.joinPane target) =>
    s.another target && (i = s.activeIdx && s.windows[i]?.any fun w => w.unzoom.emptied)
  | .layout (.movePane target) => s.another target && (i = s.activeIdx && s.windows[i]?.any Window.emptied)
  | .layout .killWindow | .unlinkWindow => s.windows.length > 1 && i = s.activeIdx
  | .layout (.reapChildren exited) => s.windows[i]?.any (s.exits exited)
  | _ => false

/-- Whether a command makes a window. -/
def makes (s : Server) : WindowCommand → Bool
  | .layout (.newWindow defaultShell refused _ _) => s.opens defaultShell refused
  | .layout .breakPane => s.windows[s.activeIdx]?.any fun w => w.unzoom.yields
  | .linkWindow src _ refused => s.links src refused
  | _ => false

/-- The windows that a command makes. -/
def created (s : Server) (c : WindowCommand) : List ℕ := if c.makes s then [s.nextWinId] else []

/-- Detached or refused. -/
def idle (s : Server) : WindowCommand → Bool
  | .layout (.newWindow defaultShell refused detached _) => detached || !s.opens defaultShell refused
  | .layout .breakPane => !s.windows[s.activeIdx]?.any fun w => w.unzoom.yields
  | .layout (.joinPane target) =>
    !(s.another target && s.windows[s.activeIdx]?.any fun w => w.unzoom.yields)
  | .layout (.movePane target) => !(s.another target && s.windows[s.activeIdx]?.any Window.yields)
  | .layout .killWindow | .unlinkWindow => s.windows.length ≤ 1
  | .moveWindow target => !target.any s.another
  | .swapWindow target => !s.another target
  | .linkWindow src _ refused => !s.links src refused
  | _ => false

end WindowCommand

/-- What one command leaves of the windows of a server. -/
structure Account (s : Server) (c : WindowCommand) (s' : Server) : Prop where
  perm : s'.windowIds.Perm (survivors (c.removes s) s.windowIds ++ c.created s)
  next : s'.nextWinId = s.nextWinId + (c.created s).length
  inRange : s.activeIdx ≤ s.windows.length - 1 → s'.activeIdx ≤ s'.windows.length - 1

/-- The windows left are in their old order, new ones at the end. -/
structure Listed (s : Server) (c : WindowCommand) (s' : Server) : Prop where
  ids : s'.windowIds = survivors (c.removes s) s.windowIds ++ c.created s
  next : s'.nextWinId = s.nextWinId + (c.created s).length
  inRange : s.activeIdx ≤ s.windows.length - 1 → s'.activeIdx ≤ s'.windows.length - 1
  last : s'.lastWindowIdx = s.lastWindowIdx
  idle : c.idle s = true → s'.activeIdx = s.activeIdx ∧ ∀ i, c.removes s i = false

theorem Listed.account {s s' : Server} {c : WindowCommand} (h : Listed s c s') : Account s c s' :=
  ⟨.of_eq h.ids, h.next, h.inRange⟩

namespace Server
variable {s s' t : Server} {c : WindowCommand} {w : Window}

theorem Steady.account (h : Steady s s') (hr : ∀ i, c.removes s i = false) (hc : c.created s = []) :
    Account s c s' where
  perm := by rw [survivors_of_none hr, hc, List.append_nil, h.ids]
  next := by rw [hc, h.next, List.length_nil, Nat.add_zero]
  inRange := h.inRange

theorem Switched.account (h : Switched s s') (hr : ∀ i, c.removes s i = false) (hc : c.created s = []) :
    Account s c s' where
  perm := by rw [survivors_of_none hr, hc, List.append_nil, windowIds, h.windows, windowIds]
  next := by rw [hc, h.next, List.length_nil, Nat.add_zero]
  inRange _ := by rw [h.windows]; exact Nat.le_sub_one_of_lt h.inRange

theorem createWindow_refused {defaultShell refused : Bool} (h : s.opens defaultShell refused = false) :
    s.createWindow defaultShell refused = s := by
  rw [opens, Bool.not_eq_false'] at h
  rw [createWindow, if_pos h]

/-- A window made: its id at the end of the list, in focus. -/
structure Opened (s s' : Server) : Prop where
  ids : s'.windowIds = s.windowIds ++ [s.nextWinId]
  active : s'.activeIdx = s.windows.length
  next : s'.nextWinId = s.nextWinId + 1
  last : s'.lastWindowIdx = s.lastWindowIdx

theorem Opened.length {s s' : Server} (h : Opened s s') : s'.windows.length = s.windows.length + 1 := by
  have := congrArg List.length h.ids
  simpa using this

theorem createWindow_opened {defaultShell refused : Bool} (h : s.opens defaultShell refused = true) :
    Opened s (s.createWindow defaultShell refused) := by
  have hsteady := steady_takePane defaultShell s
  rw [opens, Bool.not_eq_true'] at h
  rw [createWindow, h, if_neg Bool.false_ne_true]
  refine ⟨?_, ?_, ?_, hsteady.last⟩
  · simp [pushWindow, withActive, windowIds, hsteady.next]
  · simp [pushWindow, withActive]
  · simp [pushWindow, withActive, hsteady.next]

theorem listed_newWindow (defaultShell refused detached : Bool) (warm : WarmSpawn) (s : Server) :
    Listed s (.layout (.newWindow defaultShell refused detached warm))
      (s.newWindow defaultShell refused detached warm) := by
  rw [newWindow]
  generalize ht : (if detached = true then (s.createWindow defaultShell refused).withActive s.activeIdx
    else s.createWindow defaultShell refused) = t
  have hsteady := steady_replenish warm t
  have hidx := activeIdx_replenish warm t
  have hnone : survivors (WindowCommand.removes s (.layout (.newWindow defaultShell refused detached warm)))
      s.windowIds = s.windowIds := survivors_of_none (fun _ => rfl) _
  have hlen : t.windows.length - 1 = (t.replenish warm).windows.length - 1 := by rw [windows_replenish]
  cases hop : s.opens defaultShell refused with
  | false =>
    rw [createWindow_refused hop] at ht
    obtain rfl : s = t := by
      rw [← ht]
      split <;> rfl
    refine ⟨?_, ?_, by rw [hidx, hlen]; exact id, hsteady.last, fun _ => ⟨hidx, fun _ => rfl⟩⟩
    · simp [hnone, WindowCommand.created, WindowCommand.makes, hop, hsteady.ids]
    · simp [WindowCommand.created, WindowCommand.makes, hop, hsteady.next]
  | true =>
    have ho := createWindow_opened hop
    obtain ⟨hids, hnext, hlast, hactive⟩ : t.windowIds = s.windowIds ++ [s.nextWinId] ∧
        t.nextWinId = s.nextWinId + 1 ∧ t.lastWindowIdx = s.lastWindowIdx ∧
        t.activeIdx = if detached then s.activeIdx else s.windows.length := by
      rw [← ht]
      cases detached with
      | true => exact ⟨ho.ids, ho.next, ho.last, rfl⟩
      | false => exact ⟨ho.ids, ho.next, ho.last, ho.active⟩
    have hn : t.windows.length = s.windows.length + 1 := by
      have := congrArg List.length hids
      simpa using this
    refine ⟨?_, ?_, fun h => ?_, hsteady.last.trans hlast, fun h => ⟨?_, fun _ => rfl⟩⟩
    · simp [hnone, WindowCommand.created, WindowCommand.makes, hop, hsteady.ids, hids]
    · simp [WindowCommand.created, WindowCommand.makes, hop, hsteady.next, hnext]
    · rw [hidx, ← hlen, hn, hactive]
      split <;> omega
    · have hd : detached = true := by simpa [WindowCommand.idle, hop] using h
      rw [hidx, hactive, if_pos hd]

/-- The windows after the active pane was taken out. -/
theorem takeActive_ids {pane : Option Node} (h : s.takeActive = .ok (pane, s')) :
    ∃ w, s.windows[s.activeIdx]? = some w ∧ pane.isSome = w.yields ∧
      s'.windowIds = (if w.emptied then s.windowIds.eraseIdx s.activeIdx else s.windowIds) ∧
      s'.activeIdx = s.activeIdx ∧ s'.lastWindowIdx = s.lastWindowIdx ∧ s'.nextWinId = s.nextWinId := by
  obtain ⟨w, hw, h⟩ := bind_eq_ok.1 h
  have hw := active_eq_ok.1 hw
  have hset : ∀ v : Window, v.id = w.id → (s.setActive v).windowIds = s.windowIds :=
    fun v hv => map_id_set hw hv
  refine ⟨w, hw, ?_⟩
  split at h
  · next rest u he =>
    obtain ⟨rfl, rfl⟩ := Prod.mk.inj (Except.ok.inj h)
    refine ⟨by simp [Window.yields, he], ?_, rfl, rfl, rfl⟩
    rw [if_neg (by simp [Window.emptied, he])]
    exact hset _ rfl
  · next u he =>
    obtain ⟨rfl, rfl⟩ := Prod.mk.inj (Except.ok.inj h)
    refine ⟨by simp [Window.yields, he], ?_, rfl, rfl, rfl⟩
    rw [if_pos (by simp [Window.emptied, Window.yields, he])]
    exact (List.eraseIdx_map ..).symm
  · next rest he =>
    obtain ⟨rfl, rfl⟩ := Prod.mk.inj (Except.ok.inj h)
    refine ⟨by simp [Window.yields, he], ?_, rfl, rfl, rfl⟩
    rw [if_neg (by simp [Window.emptied, Window.yields, he])]
    exact hset _ rfl

/-- Nothing done to the list. -/
theorem listed_still (hids : s'.windowIds = s.windowIds) (hnext : s'.nextWinId = s.nextWinId)
    (hactive : s'.activeIdx = s.activeIdx) (hlast : s'.lastWindowIdx = s.lastWindowIdx)
    (hr : ∀ i, c.removes s i = false) (hc : c.created s = []) : Listed s c s' where
  ids := by rw [survivors_of_none hr, hc, List.append_nil, hids]
  next := by rw [hnext, hc, List.length_nil, Nat.add_zero]
  inRange := by rw [hactive, ← length_windowIds s', hids, length_windowIds]; exact id
  last := hlast
  idle _ := ⟨hactive, hr⟩

theorem another_eq_true {target : ℕ} :
    s.another target = true ↔ target < s.windows.length ∧ target ≠ s.activeIdx := by
  rw [another, Bool.and_eq_true, decide_eq_true_eq, bne_iff_ne, ne_comm]

theorem removes_active {b : Window → Bool} (hw : s.windows[s.activeIdx]? = some w) (j : ℕ) :
    (decide (j = s.activeIdx) && s.windows[j]?.any b) = (decide (j = s.activeIdx) && b w) := by
  by_cases hj : j = s.activeIdx
  · rw [hj, hw]
    rfl
  · simp [hj]

theorem listed_breakPane (h : s.breakPane = .ok s') : Listed s (.layout .breakPane) s' := by
  obtain ⟨s1, h1, h⟩ := bind_eq_ok.1 h
  obtain ⟨w, hw, rfl⟩ := mapActive_eq_ok.1 h1
  obtain ⟨⟨pane, s2⟩, h2, h⟩ := bind_eq_ok.1 h
  obtain ⟨v, hv, hpane, hids, hactive, hlast, hnext⟩ := takeActive_ids h2
  obtain rfl : w.unzoom = v := Option.some.inj ((active_setActive hw).symm.trans hv)
  have hw := active_eq_ok.1 hw
  have hsame : (s.setActive w.unzoom).windowIds = s.windowIds := map_id_set hw (Window.id_unzoom w)
  rw [hsame] at hids
  have hgone : ∀ j, WindowCommand.removes s (.layout .breakPane) j =
      (decide (j = s.activeIdx) && w.unzoom.emptied) := removes_active hw
  have hids : s2.windowIds = survivors (WindowCommand.removes s (.layout .breakPane)) s.windowIds := by
    rw [survivors_of_one hgone, hids]
    rfl
  have hcreated : WindowCommand.created s (.layout .breakPane) =
      if pane.isSome then [s.nextWinId] else [] := by
    simp [WindowCommand.created, WindowCommand.makes, hw, hpane]
  cases pane with
  | none =>
    obtain rfl := Except.ok.inj h
    have hnot : w.unzoom.emptied = false := by
      rw [Window.emptied, ← hpane]
      rfl
    have hr : ∀ i, WindowCommand.removes s (.layout .breakPane) i = false := fun i => by
      rw [hgone, hnot, Bool.and_false]
    rw [survivors_of_none hr] at hids
    exact listed_still hids hnext hactive hlast hr hcreated
  | some u =>
    obtain rfl := Except.ok.inj h
    have hn2 : s2.nextWinId = s.nextWinId := hnext
    refine ⟨?_, ?_, fun _ => ?_, hlast, fun hidle => ?_⟩
    · rw [hcreated, ← hids]
      simp [pushWindow, withActive, windowIds, hn2]
    · rw [hcreated]
      simp [pushWindow, withActive, hn2]
    · simp [pushWindow, withActive]
    · rw [Option.isSome_some] at hpane
      simp [WindowCommand.idle, hw, ← hpane] at hidle

/-- The active pane, with `w` around it, gone to another window. -/
structure Transferred (s : Server) (acts : Bool) (w : Window) (s' : Server) : Prop where
  ids : s'.windowIds = if acts && w.emptied then s.windowIds.eraseIdx s.activeIdx else s.windowIds
  next : s'.nextWinId = s.nextWinId
  last : s'.lastWindowIdx = s.lastWindowIdx
  inRange : s.activeIdx ≤ s.windows.length - 1 → s'.activeIdx ≤ s'.windows.length - 1
  stays : (acts && w.yields) = false → s'.activeIdx = s.activeIdx

theorem transferred_movePane {target : ℕ} (hw : s.windows[s.activeIdx]? = some w)
    (h : s.movePane target = .ok s') : Transferred s (s.another target) w s' := by
  rw [movePane] at h
  split at h
  · next hto =>
    rw [another_eq_true.2 hto]
    obtain ⟨⟨pane, s1⟩, h1, h⟩ := bind_eq_ok.1 h
    obtain ⟨v, hv, hpane, hids, hactive, hlast, hnext⟩ := takeActive_ids h1
    obtain rfl : w = v := Option.some.inj (hw.symm.trans hv)
    cases pane with
    | none =>
      obtain rfl := Except.ok.inj h
      refine ⟨hids, hnext, hlast, ?_, fun _ => hactive⟩
      have hnot : w.emptied = false := by
        rw [Window.emptied, ← hpane]
        rfl
      rw [hnot, if_neg Bool.false_ne_true] at hids
      rw [hactive, ← length_windowIds s1, hids, length_windowIds]
      exact id
    | some u =>
      have hyields : w.yields = true := hpane.symm
      suffices hs : s'.windowIds = s1.windowIds ∧ s'.nextWinId = s1.nextWinId ∧
          s'.lastWindowIdx = s1.lastWindowIdx ∧
          (s.activeIdx ≤ s.windows.length - 1 → s'.activeIdx ≤ s'.windows.length - 1) by
        refine ⟨hs.1.trans hids, hs.2.1.trans hnext, hs.2.2.1.trans hlast, hs.2.2.2, ?_⟩
        simp [hyields]
      dsimp only at h
      generalize hs2 : (if decide (s1.windows.length < s.windows.length) = true then
        s1.withActive (min s1.activeIdx (s1.windows.length - 1)) else s1) = s2 at h
      generalize (if (decide (s1.windows.length < s.windows.length) && decide (target > s.activeIdx)) = true
        then target - 1 else target) = tgt at h
      have hwin : s2.windows = s1.windows ∧ s2.nextWinId = s1.nextWinId ∧
          s2.lastWindowIdx = s1.lastWindowIdx := by
        rw [← hs2]
        split <;> exact ⟨rfl, rfl, rfl⟩
      have hids2 : s2.windowIds = s1.windowIds := congrArg (List.map Window.id) hwin.1
      split at h
      · next htgt =>
        obtain ⟨t, t', ht, ht', rfl⟩ := onActive_eq_ok.1 h
        refine ⟨(map_id_set (active_eq_ok.1 ht) (id_graft ht')).trans hids2, hwin.2.1, hwin.2.2, fun _ => ?_⟩
        show _ ≤ (List.set _ _ _).length - 1
        rw [List.length_set]
        exact Nat.le_sub_one_of_lt htgt
      · obtain rfl := Except.ok.inj h
        refine ⟨hids2, hwin.2.1, hwin.2.2, fun hle => ?_⟩
        rw [hwin.1, ← hs2]
        split
        · exact min_le_right ..
        · next hlen =>
          rw [hactive]
          simp only [decide_eq_true_eq, not_lt] at hlen
          omega
  · next hto =>
    obtain rfl := Except.ok.inj h
    have hanother : s.another target = false := by
      rw [← Bool.not_eq_true, another_eq_true]
      exact hto
    rw [hanother]
    exact ⟨rfl, rfl, rfl, id, fun _ => rfl⟩

theorem Transferred.listed {acts : Bool} (h : Transferred s acts w s')
    (hremoves : ∀ i, c.removes s i = (decide (i = s.activeIdx) && (acts && w.emptied)))
    (hcreated : c.created s = []) (hidle : c.idle s = !(acts && w.yields)) : Listed s c s' := by
  refine ⟨?_, ?_, h.inRange, h.last, fun hi => ?_⟩
  · rw [survivors_of_one hremoves, hcreated, List.append_nil, h.ids]
  · rw [hcreated, h.next, List.length_nil, Nat.add_zero]
  · rw [hidle, Bool.not_eq_true'] at hi
    refine ⟨h.stays hi, fun i => ?_⟩
    rw [hremoves, Window.emptied, ← Bool.and_assoc acts, hi, Bool.false_and, Bool.and_false]

theorem listed_movePane {target : ℕ} (h : s.movePane target = .ok s') :
    Listed s (.layout (.movePane target)) s' := by
  cases hw : s.windows[s.activeIdx]? with
  | none =>
    by_cases hto : target < s.windows.length ∧ target ≠ s.activeIdx
    · rw [movePane, if_pos hto, takeActive, active, hw] at h
      contradiction
    · rw [movePane, if_neg hto] at h
      obtain rfl := Except.ok.inj h
      have hnot : s.another target = false := by
        rw [← Bool.not_eq_true, another_eq_true]
        exact hto
      refine listed_still rfl rfl rfl rfl (fun i => ?_) rfl
      rw [WindowCommand.removes, hnot, Bool.false_and]
  | some w =>
    refine (transferred_movePane hw h).listed (fun i => ?_) rfl ?_
    · rw [WindowCommand.removes, removes_active hw, Bool.and_left_comm]
    · simp [WindowCommand.idle, hw]

theorem listed_joinPane {target : ℕ} (h : s.joinPane target = .ok s') :
    Listed s (.layout (.joinPane target)) s' := by
  obtain ⟨s1, h1, h⟩ := bind_eq_ok.1 h
  obtain ⟨w, hw, rfl⟩ := mapActive_eq_ok.1 h1
  have ht := transferred_movePane (active_setActive hw) h
  have hw := active_eq_ok.1 hw
  have hids : (s.setActive w.unzoom).windowIds = s.windowIds := map_id_set hw (Window.id_unzoom w)
  have hlen : (s.setActive w.unzoom).windows.length = s.windows.length := List.length_set ..
  have hanother : (s.setActive w.unzoom).another target = s.another target := by
    rw [another, another, hlen]
    rfl
  have hs : Transferred s (s.another target) w.unzoom s' := by
    obtain ⟨hi, hnext, hlast, hrange, hstay⟩ := ht
    rw [hanother, hids] at hi
    rw [hlen] at hrange
    rw [hanother] at hstay
    exact ⟨hi, hnext, hlast, hrange, hstay⟩
  refine hs.listed (fun i => ?_) rfl ?_
  · rw [WindowCommand.removes, removes_active hw, Bool.and_left_comm]
  · simp [WindowCommand.idle, hw]

/-- The active window removed where it is not the only one. -/
theorem listed_removeActive
    (hremoves : ∀ i, c.removes s i = (s.windows.length > 1 && decide (i = s.activeIdx)))
    (hcreated : c.created s = []) (hidle : c.idle s = decide (s.windows.length ≤ 1))
    (hs : if s.windows.length > 1 then s' = { s with
        windows := s.windows.eraseIdx s.activeIdx
        activeIdx := min s.activeIdx ((s.windows.eraseIdx s.activeIdx).length - 1) }
      else s' = s) : Listed s c s' := by
  split at hs
  · next hlen =>
    subst hs
    have hr : ∀ i, c.removes s i = (decide (i = s.activeIdx) && true) := by
      simpa [hlen] using hremoves
    refine ⟨?_, ?_, fun _ => min_le_right .., rfl, fun hi => ?_⟩
    · rw [survivors_of_one hr, hcreated, List.append_nil, if_pos rfl]
      exact (List.eraseIdx_map ..).symm
    · rw [hcreated]
      rfl
    · rw [hidle, decide_eq_true_eq] at hi
      omega
  · next hlen =>
    subst hs
    exact listed_still rfl rfl rfl rfl (by simpa [hlen] using hremoves) hcreated

theorem listed_killWindow (h : s.killWindow = .ok s') : Listed s (.layout .killWindow) s' := by
  refine listed_removeActive (fun _ => rfl) rfl rfl ?_
  rw [killWindow] at h
  split at h
  · next hlen =>
    obtain ⟨w, -, h⟩ := bind_eq_ok.1 h
    rw [if_pos hlen]
    exact (Except.ok.inj h).symm
  · next hlen =>
    split at h
    · contradiction
    · rw [if_neg hlen]
      exact (Except.ok.inj h).symm

theorem listed_unlinkWindow (h : s.unlinkWindow = .ok s') : Listed s .unlinkWindow s' := by
  refine listed_removeActive (fun _ => rfl) rfl rfl ?_
  rw [unlinkWindow] at h
  split at h
  · next hlen =>
    obtain ⟨w, -, h⟩ := bind_eq_ok.1 h
    rw [if_pos hlen]
    exact (Except.ok.inj h).symm
  · next hlen =>
    rw [if_neg hlen]
    exact (Except.ok.inj h).symm

theorem windowIds_removeWindow (i : ℕ) (s : Server) :
    (s.removeWindow i).windowIds = s.windowIds.eraseIdx i := (List.eraseIdx_map ..).symm

/-- A window removed that is not the active one. -/
theorem activeId_removeWindow {i : ℕ} (ha : s.activeIdx < s.windows.length) (hi : i < s.windows.length)
    (hne : i ≠ s.activeIdx) :
    (s.removeWindow i).activeId = s.activeId ∧
      (s.removeWindow i).activeIdx = if i < s.activeIdx then s.activeIdx - 1 else s.activeIdx := by
  have hlen : (s.windows.eraseIdx i).length = s.windows.length - 1 := List.length_eraseIdx_of_lt hi
  have hidx : (s.removeWindow i).activeIdx = if i < s.activeIdx then s.activeIdx - 1 else s.activeIdx := by
    have hcons : s.windows.eraseIdx i ≠ [] := List.ne_nil_of_length_pos (by omega)
    simp only [removeWindow, if_neg hcons, hlen]
    split
    · rfl
    · omega
  refine ⟨?_, hidx⟩
  rw [activeId, activeId, windowIds_removeWindow, hidx, List.getElem?_eraseIdx]
  split
  · next hlt =>
    rw [if_neg (by omega)]
    congr 1
    omega
  · next hge =>
    rw [if_pos (by omega)]

/-- The windows that a reap removes. -/
def gone (exited : List ℕ) (s : Server) (i : ℕ) : Bool := s.windows[i]?.any (s.exits exited)

/-- The windows from the last down to position `i` have been reaped. -/
structure ReapedTo (exited : List ℕ) (s : Server) (i : ℕ) (s' : Server) : Prop where
  ids : s'.windowIds = s.windowIds.take i ++ survivors (fun j => s.gone exited (i + j)) (s.windowIds.drop i)
  before : s'.windows.take i = s.windows.take i
  options : s'.options = s.options
  next : s'.nextWinId = s.nextWinId
  last : s'.lastWindowIdx = s.lastWindowIdx
  inRange : s.activeIdx ≤ s.windows.length - 1 → s'.activeIdx ≤ s'.windows.length - 1
  active : s.activeIdx < s.windows.length → s.gone exited s.activeIdx = false → s'.activeId = s.activeId
  ahead : s.activeIdx < s.windows.length → s.gone exited s.activeIdx = false →
    (s.activeIdx < i → s'.activeIdx = s.activeIdx) ∧ (i ≤ s.activeIdx → i ≤ s'.activeIdx)

theorem reapedTo_start (exited : List ℕ) (s : Server) : ReapedTo exited s s.windows.length s where
  ids := by rw [← length_windowIds, List.take_length, List.drop_length]; simp [survivors]
  before := rfl
  options := rfl
  next := rfl
  last := rfl
  inRange := id
  active _ _ := rfl
  ahead _ _ := ⟨fun _ => rfl, id⟩

theorem reapWindow_gone {exited : List ℕ} {i : ℕ} (h : s.gone exited i = true) :
    s.reapWindow exited i = s.removeWindow i := by
  obtain ⟨w, hw, he⟩ : ∃ w, s.windows[i]? = some w ∧ s.exits exited w = true := by
    simpa [gone, Option.any_eq_true] using h
  rw [exits, Bool.and_eq_true, Option.isNone_iff_eq_none] at he
  rw [reapWindow, hw]
  dsimp only
  rw [if_pos he.1, he.2]

theorem reapWindow_kept {exited : List ℕ} {i : ℕ} (h : s.gone exited i = false) :
    (s.reapWindow exited i).windowIds = s.windowIds ∧
      (s.reapWindow exited i).windows.take i = s.windows.take i ∧
      (s.reapWindow exited i).options = s.options ∧ (s.reapWindow exited i).nextWinId = s.nextWinId ∧
      (s.reapWindow exited i).lastWindowIdx = s.lastWindowIdx ∧
      (s.reapWindow exited i).activeIdx = s.activeIdx := by
  rw [reapWindow]
  split
  · exact ⟨rfl, rfl, rfl, rfl, rfl, rfl⟩
  · next w hw =>
    split
    · next he =>
      split
      · next root hr =>
        exact ⟨map_id_set hw (id_pruneWindow root w), List.take_set_of_le le_rfl, rfl, rfl, rfl, rfl⟩
      · next hr => simp [gone, hw, exits, he, hr] at h
    · exact ⟨rfl, rfl, rfl, rfl, rfl, rfl⟩

theorem ReapedTo.window {exited : List ℕ} {i : ℕ} (h : ReapedTo exited s (i + 1) t) :
    t.windows[i]? = s.windows[i]? ∧ t.gone exited i = s.gone exited i := by
  have hw : t.windows[i]? = s.windows[i]? := by
    rw [← List.getElem?_take_of_lt (Nat.lt_succ_self i), h.before, List.getElem?_take_of_lt (Nat.lt_succ_self i)]
  have hexits : t.exits exited = s.exits exited := funext fun w => by rw [exits, exits, h.options]
  exact ⟨hw, by rw [gone, gone, hw, hexits]⟩

theorem inRange_removeWindow {i : ℕ} (hi : i < s.windows.length)
    (h : s.activeIdx ≤ s.windows.length - 1) :
    (s.removeWindow i).activeIdx ≤ (s.removeWindow i).windows.length - 1 := by
  have hlen : (s.windows.eraseIdx i).length = s.windows.length - 1 := List.length_eraseIdx_of_lt hi
  rw [removeWindow]
  dsimp only
  split
  · next hnil =>
    rw [hnil, List.length_nil] at hlen
    omega
  · split <;> omega

theorem ReapedTo.step {exited : List ℕ} {i : ℕ} (h : ReapedTo exited s (i + 1) t)
    (hi : i < s.windows.length) : ReapedTo exited s i (t.reapWindow exited i) := by
  obtain ⟨hw, hgone⟩ := h.window
  have hlt : i < t.windows.length := by
    by_contra hge
    rw [List.getElem?_eq_none (not_lt.1 hge), List.getElem?_eq_getElem hi] at hw
    contradiction
  have hi' : i < s.windowIds.length := by rwa [length_windowIds]
  have htake : s.windowIds.take (i + 1) = s.windowIds.take i ++ [s.windowIds[i]] :=
    List.take_succ_eq_append_getElem hi'
  have hbefore : t.windows.take i = s.windows.take i := by
    have := congrArg (List.take i) h.before
    rwa [List.take_take, List.take_take, min_eq_left (Nat.le_succ i)] at this
  cases hg : s.gone exited i with
  | false =>
    obtain ⟨hids, htakes, hoptions, hnext, hlast, hactive⟩ := reapWindow_kept (hgone.trans hg)
    refine ⟨?_, htakes.trans hbefore, hoptions.trans h.options, hnext.trans h.next, hlast.trans h.last, ?_, ?_, ?_⟩
    · rw [hids, h.ids, htake, survivors_drop _ hi', hg, if_neg Bool.false_ne_true, List.append_assoc]
    · rw [hactive, ← length_windowIds (t.reapWindow exited i), hids, length_windowIds]
      exact h.inRange
    · rw [activeId, hids, hactive]
      exact h.active
    · intro ha hk
      obtain ⟨hbelow, habove⟩ := h.ahead ha hk
      rw [hactive]
      refine ⟨fun hlt => hbelow (by omega), fun hle => ?_⟩
      by_cases he : i = s.activeIdx
      · rw [← he] at hbelow
        rw [hbelow (Nat.lt_succ_self i)]
      · exact (Nat.le_succ i).trans (habove (by omega))
  | true =>
    rw [reapWindow_gone (hgone.trans hg)]
    have hother : s.activeIdx < s.windows.length → s.gone exited s.activeIdx = false →
        (s.activeIdx < i → t.activeIdx = s.activeIdx) ∧ (i < s.activeIdx → i < t.activeIdx) ∧
          i ≠ s.activeIdx ∧ t.activeIdx < t.windows.length := by
      intro ha hk
      obtain ⟨hbelow, habove⟩ := h.ahead ha hk
      have hne : i ≠ s.activeIdx := by
        rintro rfl
        rw [hk] at hg
        contradiction
      refine ⟨fun hlt => hbelow (by omega), habove, hne, ?_⟩
      have hid : t.windowIds[t.activeIdx]? = s.windowIds[s.activeIdx]? := h.active ha hk
      by_contra hge
      rw [List.getElem?_eq_none (by simpa using hge), eq_comm, List.getElem?_eq_none_iff] at hid
      exact absurd ha (by simpa using hid)
    refine ⟨?_, ?_, h.options, h.next, h.last, fun ha => ?_, fun ha hk => ?_, fun ha hk => ?_⟩
    · rw [windowIds_removeWindow, h.ids, htake, survivors_drop _ hi', hg, if_pos rfl, List.append_assoc,
        List.eraseIdx_append_of_length_le (List.length_take_le ..), List.length_take_of_le hi'.le, Nat.sub_self]
      rfl
    · rw [← hbefore]
      exact List.take_eraseIdx_eq_take_of_le _ _ _ le_rfl
    · exact inRange_removeWindow hlt (h.inRange ha)
    · obtain ⟨hbelow, habove, hne, ht⟩ := hother ha hk
      exact (activeId_removeWindow ht hlt (by omega)).1.trans (h.active ha hk)
    · obtain ⟨hbelow, habove, hne, ht⟩ := hother ha hk
      rw [(activeId_removeWindow ht hlt (by omega)).2]
      refine ⟨fun hlt => ?_, fun hle => ?_⟩ <;> split <;> omega

theorem reapedTo_zero (exited : List ℕ) (s : Server) : ReapedTo exited s 0 (s.reapChildren exited) := by
  have hrun : ∀ n ≤ s.windows.length, ∀ t, ReapedTo exited s n t →
      ReapedTo exited s 0 ((List.range n).reverse.foldl (reapWindow exited) t) := by
    intro n
    induction n with
    | zero => exact fun _ t h => h
    | succ n ih =>
      intro hn t h
      rw [List.range_succ, List.reverse_append, List.reverse_singleton, List.singleton_append, List.foldl_cons]
      exact ih (by omega) _ (h.step hn)
  exact hrun _ le_rfl s (reapedTo_start exited s)

theorem listed_reapChildren (exited : List ℕ) (s : Server) :
    Listed s (.layout (.reapChildren exited)) (s.reapChildren exited) := by
  have h := reapedTo_zero exited s
  refine ⟨?_, h.next, h.inRange, h.last, fun hi => by simp [WindowCommand.idle] at hi⟩
  rw [h.ids, List.take_zero, List.nil_append, List.drop_zero]
  simp only [Nat.zero_add]
  exact (List.append_nil _).symm

/-- Where a moved window is put in once it is taken out. -/
def insertIdx (s : Server) (target : ℕ) : ℕ := if target > s.activeIdx then target - 1 else target

theorem insertIdx_lt {target : ℕ} (ht : s.another target = true) :
    s.insertIdx target < s.windows.length := by
  have := another_eq_true.1 ht
  rw [insertIdx]
  split <;> omega

theorem moveWindow_idle {target : Option ℕ} (h : target.any s.another = false)
    (hs : s.moveWindow target = .ok s') : s' = s := by
  cases target with
  | none => exact (Except.ok.inj hs).symm
  | some target =>
    have hnot : ¬ (target < s.windows.length ∧ s.activeIdx ≠ target) := fun hto => by
      rw [Option.any_some, ← Bool.not_eq_true, another_eq_true] at h
      exact h ⟨hto.1, hto.2.symm⟩
    rw [moveWindow, if_neg hnot] at hs
    exact (Except.ok.inj hs).symm

/-- The active window moved to a target, where it stays active. -/
structure MovedTo (s : Server) (target : ℕ) (w : Window) (s' : Server) : Prop where
  window : s.windows[s.activeIdx]? = some w
  ids : s'.windowIds = (s.windowIds.eraseIdx s.activeIdx).insertIdx (s.insertIdx target) w.id
  active : s'.activeIdx = s.insertIdx target
  next : s'.nextWinId = s.nextWinId
  last : s'.lastWindowIdx = s.lastWindowIdx

theorem moveWindow_moves {target : ℕ} (ht : s.another target = true)
    (h : s.moveWindow (some target) = .ok s') : ∃ w, MovedTo s target w s' := by
  obtain ⟨hlt, hne⟩ := another_eq_true.1 ht
  rw [moveWindow, if_pos ⟨hlt, hne.symm⟩] at h
  obtain ⟨w, hw, h⟩ := bind_eq_ok.1 h
  have hw := active_eq_ok.1 hw
  have ha := (List.getElem?_eq_some_iff.1 hw).1
  have hlen : (s.windows.eraseIdx s.activeIdx).length = s.windows.length - 1 := List.length_eraseIdx_of_lt ha
  have hp := insertIdx_lt ht
  obtain rfl := Except.ok.inj h
  refine ⟨w, hw, ?_, min_eq_left (Nat.le_sub_one_of_lt hp), rfl, rfl⟩
  show ((s.windows.eraseIdx s.activeIdx).insertIdx (min (s.insertIdx target) _) w).map Window.id = _
  rw [hlen, min_eq_left (Nat.le_sub_one_of_lt hp), List.map_insertIdx, ← List.eraseIdx_map]
  rfl

theorem swapWindow_idle {target : ℕ} (h : s.another target = false)
    (hs : s.swapWindow target = .ok s') : s' = s := by
  have hnot : ¬ (target < s.windows.length ∧ s.activeIdx ≠ target) := fun hto => by
    rw [← Bool.not_eq_true, another_eq_true] at h
    exact h ⟨hto.1, hto.2.symm⟩
  rw [swapWindow, if_neg hnot] at hs
  exact (Except.ok.inj hs).symm

/-- The active window and the target exchanged, the index kept. -/
structure Swapped (s : Server) (target : ℕ) (a b : Window) (s' : Server) : Prop where
  active : s.windows[s.activeIdx]? = some a
  other : s.windows[target]? = some b
  ids : s'.windowIds = (s.windowIds.set s.activeIdx b.id).set target a.id
  index : s'.activeIdx = s.activeIdx
  next : s'.nextWinId = s.nextWinId
  last : s'.lastWindowIdx = s.lastWindowIdx

theorem swapWindow_swaps {target : ℕ} (ht : s.another target = true)
    (h : s.swapWindow target = .ok s') : ∃ a b, Swapped s target a b s' := by
  obtain ⟨hlt, hne⟩ := another_eq_true.1 ht
  rw [swapWindow, if_pos ⟨hlt, hne.symm⟩] at h
  obtain ⟨a, ha, h⟩ := bind_eq_ok.1 h
  rw [List.getElem?_eq_getElem hlt] at h
  obtain rfl := Except.ok.inj h
  refine ⟨a, s.windows[target], active_eq_ok.1 ha, List.getElem?_eq_getElem hlt, ?_, rfl, rfl, rfl⟩
  show ((s.windows.set _ _).set _ _).map Window.id = _
  rw [List.map_set, List.map_set]
  rfl

/-- A linked window at its place; the active index is the last but one where that is not
the end. -/
structure Linked (s : Server) (dst : Option ℕ) (s' : Server) : Prop where
  ids : s'.windowIds = s.windowIds.insertIdx (min (dst.getD s.windows.length) s.windows.length) s.nextWinId
  active : s'.activeIdx =
    if dst.getD s.windows.length < s.windows.length then s.windows.length - 1 else s.windows.length
  next : s'.nextWinId = s.nextWinId + 1
  last : s'.lastWindowIdx = s.lastWindowIdx

theorem linkWindow_idle {src : Option ℕ} {refused : Bool} (dst : Option ℕ)
    (h : s.links src refused = false) : s.linkWindow src dst refused = s := by
  refine if_neg fun hif => ?_
  rw [links, opens] at h
  simp [hif.1] at h
  simp [h] at hif

theorem linkWindow_links {src : Option ℕ} {refused : Bool} (dst : Option ℕ)
    (h : s.links src refused = true) : Linked s dst (s.linkWindow src dst refused) := by
  rw [links, Bool.and_eq_true, decide_eq_true_eq] at h
  have hif : src.getD s.activeIdx < s.windows.length ∧ !(refused && s.warmPane.isNone) := by
    refine ⟨h.1, ?_⟩
    have := h.2
    rw [opens] at this
    cases hw : s.warmPane <;> simp_all
  have ho := createWindow_opened h.2
  rw [linkWindow, if_pos hif]
  generalize hs1 : s.createWindow true refused = s1 at ho
  have hlen : s1.windows.length - 1 = s.windows.length := by rw [ho.length, Nat.add_sub_cancel]
  obtain ⟨win, hwin⟩ : ∃ win, s1.windows[s.windows.length]? = some win :=
    ⟨_, List.getElem?_eq_getElem (by rw [ho.length]; exact Nat.lt_succ_self _)⟩
  have hid : win.id = s.nextWinId := by
    have := windowIds_getElem? hwin
    rw [ho.ids, List.getElem?_append_right (by simp), length_windowIds, Nat.sub_self] at this
    exact (Option.some.inj this).symm
  dsimp only
  rw [hlen, hwin]
  dsimp only
  split
  · next hdst =>
    have hids : (s1.windows.eraseIdx s.windows.length).map Window.id = s.windowIds := by
      rw [← List.eraseIdx_map, show s1.windows.map Window.id = s1.windowIds from rfl, ho.ids,
        List.eraseIdx_append_of_length_le (by simp)]
      simp
    refine ⟨?_, ?_, ho.next, ho.last⟩
    · show ((s1.windows.eraseIdx s.windows.length).insertIdx _ win).map Window.id = _
      rw [List.map_insertIdx, hids, hid, min_eq_left hdst.le]
    · dsimp only
      rw [ho.active, if_pos ⟨hdst, le_rfl⟩, if_pos hdst]
  · next hdst =>
    refine ⟨?_, ?_, ho.next, ho.last⟩
    · rw [ho.ids, min_eq_right (not_lt.1 hdst), ← length_windowIds, List.insertIdx_length_self]
    · rw [ho.active, if_neg hdst]

/-- Nothing removed. -/
theorem perm_of_keeping (hr : ∀ i, c.removes s i = false)
    (h : s'.windowIds.Perm (s.windowIds ++ c.created s)) :
    s'.windowIds.Perm (survivors (c.removes s) s.windowIds ++ c.created s) := by
  rwa [survivors_of_none hr]

theorem account_moveWindow {target : Option ℕ} (h : s.moveWindow target = .ok s') :
    Account s (.moveWindow target) s' := by
  cases hto : target.any s.another with
  | false =>
    obtain rfl := moveWindow_idle hto h
    exact (Steady.of_eq rfl rfl rfl rfl).account (fun _ => rfl) rfl
  | true =>
    obtain ⟨target, rfl, ht⟩ : ∃ t, target = some t ∧ s.another t = true := by
      simpa [Option.any_eq_true] using hto
    obtain ⟨w, hm⟩ := moveWindow_moves ht h
    have ha : s.windowIds[s.activeIdx]? = some w.id := windowIds_getElem? hm.window
    obtain ⟨hlt, hw⟩ := List.getElem?_eq_some_iff.1 ha
    have hperm : s'.windowIds.Perm s.windowIds := by
      have hp := insertIdx_lt ht
      rw [hm.ids, ← hw]
      refine (List.perm_insertIdx _ _ ?_).trans (List.getElem_cons_eraseIdx_perm hlt)
      rw [List.length_eraseIdx_of_lt hlt, length_windowIds]
      omega
    refine ⟨perm_of_keeping (fun _ => rfl) (hperm.trans (.of_eq (List.append_nil _).symm)), hm.next, fun _ => ?_⟩
    rw [hm.active, ← length_windowIds s', hperm.length_eq, length_windowIds]
    exact Nat.le_sub_one_of_lt (insertIdx_lt ht)

theorem account_swapWindow {target : ℕ} (h : s.swapWindow target = .ok s') :
    Account s (.swapWindow target) s' := by
  cases hto : s.another target with
  | false =>
    obtain rfl := swapWindow_idle hto h
    exact (Steady.of_eq rfl rfl rfl rfl).account (fun _ => rfl) rfl
  | true =>
    obtain ⟨a, b, hs⟩ := swapWindow_swaps hto h
    obtain ⟨hlt, hne⟩ := another_eq_true.1 hto
    have hperm : s'.windowIds.Perm s.windowIds := by
      obtain ⟨ha, hida⟩ := List.getElem?_eq_some_iff.1 (windowIds_getElem? hs.active)
      obtain ⟨hb, hidb⟩ := List.getElem?_eq_some_iff.1 (windowIds_getElem? hs.other)
      rw [hs.ids, ← hida, ← hidb]
      exact List.set_set_perm ha hb
    refine ⟨perm_of_keeping (fun _ => rfl) (hperm.trans (.of_eq (List.append_nil _).symm)), hs.next, ?_⟩
    rw [hs.index, ← length_windowIds s', hperm.length_eq, length_windowIds]
    exact id

theorem account_linkWindow (src dst : Option ℕ) (refused : Bool) (s : Server) :
    Account s (.linkWindow src dst refused) (s.linkWindow src dst refused) := by
  cases hl : s.links src refused with
  | false =>
    rw [linkWindow_idle dst hl]
    exact (Steady.of_eq rfl rfl rfl rfl).account (fun _ => rfl)
      (by simp [WindowCommand.created, WindowCommand.makes, hl])
  | true =>
    have h := linkWindow_links dst hl
    have hcreated : WindowCommand.created s (.linkWindow src dst refused) = [s.nextWinId] := by
      simp [WindowCommand.created, WindowCommand.makes, hl]
    have hperm : (s.linkWindow src dst refused).windowIds.Perm (s.windowIds ++ [s.nextWinId]) := by
      rw [h.ids]
      refine (List.perm_insertIdx _ _ ?_).trans (List.perm_append_singleton ..).symm
      rw [length_windowIds]
      exact min_le_right ..
    refine ⟨perm_of_keeping (fun _ => rfl) (hcreated ▸ hperm), ?_, fun _ => ?_⟩
    · rw [h.next, hcreated]
      rfl
    · have hlen := hperm.length_eq
      rw [length_windowIds, List.length_append, length_windowIds, List.length_singleton] at hlen
      rw [h.active, hlen]
      split <;> omega

end Server

/-- The commands that switch to another window and record the one left. -/
def WindowCommand.switches : WindowCommand → Bool
  | .layout (.selectWindow _) | .layout .nextWindow | .layout .prevWindow | .layout .lastWindow => true
  | _ => false

open Server in
/-- The other commands leave the list of windows. -/
theorem steady_step {s s' : Server} {c : WindowCommand} (he : c.editsWindows = false)
    (hs : c.switches = false) (h : c.step s = .ok s') : Steady s s' := by
  refine (?_ : Keeps s (c.step s)) s' h
  cases c with
  | layout c =>
    cases c with
    | splitWindow => exact keeps_splitWindow _ _ _ _ _ _ s
    | killPane => exact keeps_killPane s
    | killPaneById pid => exact keeps_killPaneById pid s
    | rotateWindow reverse => exact keeps_mapActive (id_rotatePanes reverse)
    | swapPane dir => exact keeps_unzoomThen (id_moveFocus _ dir)
    | selectPane target => exact keeps_selectPane target s
    | lastPane => exact keeps_lastPane s
    | displayPaneSelect digit => exact keeps_displayPaneSelect digit s
    | selectLayout layout => exact keeps_unzoomThen (id_applyLayout _ layout)
    | nextLayout => exact keeps_unzoomThen (id_cycleLayoutBy _ _)
    | prevLayout => exact keeps_unzoomThen (id_cycleLayoutBy _ _)
    | cycleTopLayout => exact keeps_mapActive fun _ => rfl
    | zoomPane => exact keeps_mapActive Window.id_toggleZoom
    | resizePane dir amount => exact keeps_unzoomThen (id_resizeBy dir amount)
    | resizePaneAbsolute axis size => exact keeps_unzoomThen fun _ => id_resizeShare ..
    | resizePanePercent axis pct => exact keeps_unzoomThen fun _ => id_resizeShare ..
    | focusPane pid => exact keeps_focusPane pid s
    | focusPaneByIndex idx checked => exact keeps_focusPaneByIndex idx checked s
    | focusWindowTemp wid => exact keeps_focusWindowTemp wid s
    | focusPaneTemp pid => exact keeps_focusPaneTemp pid s
    | focusPaneByIndexTemp idx => exact keeps_focusPaneByIndexTemp idx s
    | restoreFocus => exact keeps_restoreFocus s
    | clientSize => exact .ok (steady_clientSize ..)
    | mouseDown x y => exact keeps_mouseDown x y s
    | mouseDrag x y => exact keeps_mouseDrag x y s
    | mouseUp => exact .get fun _ _ => .ok (.of_eq rfl rfl rfl rfl)
    | paneMouse paneId => exact keeps_paneMouse paneId s
    | splitSetSizes path sizes => exact keeps_mapActive (id_handleSplitSetSizes path sizes)
    | _ => contradiction
  | focusWindow wid => exact .ok (steady_focusWindow wid s)
  | _ => contradiction

/-- Whether a switch is made. -/
def WindowCommand.departs (s : Server) : WindowCommand → Bool
  | .layout (.selectWindow idx) =>
    s.options.windowBaseIndex ≤ idx ∧ idx - s.options.windowBaseIndex < s.windows.length ∧
      idx - s.options.windowBaseIndex ≠ s.activeIdx
  | .layout .nextWindow | .layout .prevWindow => s.windows.length ≠ 0
  | .layout .lastWindow => s.windows.length > 1 ∧ s.lastWindowIdx < s.windows.length
  | _ => false

open Server in
theorem switched_step {s s' : Server} {c : WindowCommand} (hs : c.switches = true)
    (h : c.step s = .ok s') : if c.departs s then Switched s s' else s' = s := by
  have hcycle : ∀ next, if s.windows.length ≠ 0 then Switched s (s.stepWindow next)
      else s.stepWindow next = s := by
    intro next
    split
    · next hlen =>
      rw [stepWindow, if_neg fun hnil => hlen (List.length_eq_zero_iff.2 hnil)]
      exact ⟨rfl, rfl, rfl, Nat.mod_lt _ (Nat.pos_of_ne_zero hlen)⟩
    · next hlen => rw [stepWindow, if_pos (List.length_eq_zero_iff.1 (not_not.1 hlen))]
  cases c with
  | layout c =>
    cases c with
    | selectWindow idx =>
      obtain rfl := Except.ok.inj h
      simp only [WindowCommand.departs, decide_eq_true_eq, selectWindow]
      split
      · next hto => exact ⟨rfl, rfl, rfl, hto.2.1⟩
      · rfl
    | nextWindow =>
      obtain rfl := Except.ok.inj h
      simpa only [WindowCommand.departs, decide_eq_true_eq] using hcycle _
    | prevWindow =>
      obtain rfl := Except.ok.inj h
      simpa only [WindowCommand.departs, decide_eq_true_eq] using hcycle _
    | lastWindow =>
      obtain rfl := Except.ok.inj h
      simp only [WindowCommand.departs, decide_eq_true_eq, lastWindow]
      split
      · next hto => exact ⟨rfl, rfl, rfl, hto.2⟩
      · rfl
    | _ => contradiction
  | _ => contradiction

/-- The list after an edit that does not reorder windows. -/
def WindowCommand.reorders : WindowCommand → Bool
  | .moveWindow _ | .swapWindow _ | .linkWindow .. => true
  | _ => false

open Server in
theorem listed_step {s s' : Server} {c : WindowCommand} (he : c.editsWindows = true)
    (hr : c.reorders = false) (h : c.step s = .ok s') : Listed s c s' := by
  cases c with
  | layout c =>
    cases c with
    | newWindow defaultShell refused detached warm =>
      obtain rfl := Except.ok.inj h
      exact listed_newWindow ..
    | breakPane => exact listed_breakPane h
    | joinPane target => exact listed_joinPane h
    | movePane target => exact listed_movePane h
    | killWindow => exact listed_killWindow h
    | reapChildren exited =>
      obtain rfl := Except.ok.inj h
      exact listed_reapChildren exited s
    | _ => contradiction
  | unlinkWindow => exact listed_unlinkWindow h
  | _ => contradiction

/-- Only edits of the list make or remove windows. -/
theorem account_of_not_edits {s : Server} {c : WindowCommand} (he : c.editsWindows = false) :
    (∀ i, c.removes s i = false) ∧ c.created s = [] := by
  cases c with
  | layout c => cases c <;> first | contradiction | exact ⟨fun _ => rfl, rfl⟩
  | focusWindow wid => exact ⟨fun _ => rfl, rfl⟩
  | _ => contradiction

open Server in
/-- Every command leaves the windows it does not remove, each once. -/
theorem account_step {s s' : Server} {c : WindowCommand} (h : c.step s = .ok s') : Account s c s' := by
  cases he : c.editsWindows with
  | false =>
    obtain ⟨hr, hc⟩ := account_of_not_edits (s := s) he
    cases hs : c.switches with
    | false => exact (steady_step he hs h).account hr hc
    | true =>
      have hsw := switched_step hs h
      split at hsw
      · exact hsw.account hr hc
      · rw [hsw]
        exact (Steady.of_eq rfl rfl rfl rfl).account hr hc
  | true =>
    cases hr : c.reorders with
    | false => exact (listed_step he hr h).account
    | true =>
      cases c with
      | moveWindow target => exact account_moveWindow h
      | swapWindow target => exact account_swapWindow h
      | linkWindow src dst refused =>
        obtain rfl := Except.ok.inj h
        exact account_linkWindow ..
      | _ => contradiction

/-- Windows are told apart by their ids, which are never used again; the active index is
in range while a window is left. -/
structure Numbered (s : Server) : Prop where
  nodup : s.windowIds.Nodup
  below : ∀ id ∈ s.windowIds, id < s.nextWinId
  inRange : s.activeIdx ≤ s.windows.length - 1

theorem created_eq (s : Server) (c : WindowCommand) : c.created s = [] ∨ c.created s = [s.nextWinId] := by
  rw [WindowCommand.created]
  split
  · exact .inr rfl
  · exact .inl rfl

theorem Numbered.fresh {s : Server} (hs : Numbered s) (c : WindowCommand) :
    ∀ id ∈ c.created s, id ∉ s.windowIds := by
  intro id hid hmem
  have := hs.below id hmem
  rcases created_eq s c with hc | hc
  · simp [hc] at hid
  · obtain rfl : id = s.nextWinId := by simpa [hc] using hid
    omega

theorem Numbered.step {s s' : Server} {c : WindowCommand} (hs : Numbered s) (h : Account s c s') :
    Numbered s' where
  nodup := by
    rw [h.perm.nodup_iff]
    refine (hs.nodup.sublist (survivors_sublist ..)).append ?_ fun id hid hc => ?_
    · rcases created_eq s c with hc | hc <;> simp [hc]
    · exact hs.fresh c id hc ((survivors_sublist ..).subset hid)
  below id hid := by
    have hmem := h.perm.mem_iff.1 hid
    rw [h.next]
    rcases List.mem_append.1 hmem with hold | hnew
    · exact Nat.lt_add_right _ (hs.below id ((survivors_sublist ..).subset hold))
    · rcases created_eq s c with hc | hc
      · simp [hc] at hnew
      · simp only [hc, List.mem_singleton] at hnew ⊢
        simp [hnew]
  inRange := h.inRange hs.inRange

theorem windowSession_next {s0 s : Server} {c : WindowCommand} (h : (windowSession s0).enabled s c) :
    c.step s = .ok ((windowSession s0).next s c) := by
  cases hc : c.step s with
  | error e => simp [windowSession, hc, Except.isOk, Except.toBool] at h
  | ok t => simp [windowSession, hc, Except.toOption]

/-- The windows of a run are numbered. -/
theorem numbered_of_reachable {options : Options} {area : Rect} {paneId winId : ℕ} {s : Server}
    (h : (windowSession (start options area paneId winId)).Reachable s) : Numbered s := by
  refine h.invariant ⟨?_, ?_, le_rfl⟩ fun t c _ ht hc => ht.step (account_step (windowSession_next hc))
  · exact List.nodup_singleton _
  · intro id hid
    obtain rfl : id = winId := by simpa [start, Server.windowIds, windowSession] using hid
    exact Nat.lt_succ_self _

end Winsmux.Layout
