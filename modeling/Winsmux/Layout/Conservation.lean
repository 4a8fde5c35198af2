import Winsmux.Layout.Panes

/-!
# Which panes a command keeps

Every command other than the kills and the reap is accounted for: the panes it leaves and
those it loses are the panes there were and the one it makes. What is lost is lost by a
layout string of another size, or by a graft below a leaf.
-/
namespace Winsmux.Layout
open PathTree Json Transition

theorem idsIn_eq_of_shape {n m : Node} (h : shape n = shape m) : idsIn n = idsIn m :=
  idsIn_eq_of_perm (List.Perm.of_eq (leaves_eq_of_shape h))

theorem throughLeaf_eq_of_shape {n m : Node} (h : shape n = shape m) (path : List ℕ) :
    throughLeaf n path = throughLeaf m path := by
  induction path generalizing n m with
  | nil => cases n <;> cases m <;> rfl
  | cons i path ih =>
    cases n with
    | leaf p =>
      cases m with
      | leaf q => rfl
      | split b ds => simp at h
    | split a cs =>
      cases m with
      | leaf q => simp at h
      | split b ds =>
        rw [shape_split, shape_split] at h
        have hi : cs[i]?.map shape = ds[i]?.map shape := by
          rw [← List.getElem?_map, ← List.getElem?_map, (PathTree.split.inj h).2]
        rw [throughLeaf, throughLeaf]
        cases hc : cs[i]? with
        | none =>
          rw [hc] at hi
          rw [Option.map_eq_none_iff.1 hi.symm]
        | some c =>
          rw [hc] at hi
          obtain ⟨d, hd, hcd⟩ := Option.map_eq_some_iff.1 hi.symm
          rw [hd]
          exact ih hcd.symm

/-- A graft adds the new panes, or loses them below a leaf. -/
theorem idsIn_replaceLeafWithSplit {kind : LayoutKind} {new n m : Node} {path : List ℕ}
    (h : replaceLeafWithSplit kind new n path = .ok m) :
    idsIn m + (if throughLeaf n path then idsIn new else 0) = idsIn new + idsIn n := by
  obtain ⟨ht, rfl⟩ | ⟨u, hu, rfl⟩ := replaceLeafWithSplit_eq_ok h
  · rw [if_pos ht, add_comm]
  · rw [throughLeaf_of_at? hu, if_neg Bool.false_ne_true, add_zero]
    exact Multiset.coe_eq_coe.2 (by simpa [collectPaneIds] using (leaves_graft hu).map Pane.id)

theorem ids_splitPane {kind : LayoutKind} {id : ℕ} {w w' : Window}
    (h : Server.splitPane kind id w = .ok w') :
    w'.ids + (if throughLeaf w.root w.activePath then {id} else 0) = {id} + w.ids := by
  obtain ⟨root, hroot, h⟩ := bind_eq_ok.1 h
  rw [← Except.ok.inj h]
  exact idsIn_replaceLeafWithSplit hroot

theorem ids_splitEdit {kind : LayoutKind} {id : ℕ} {refused detached : Bool} {pct : Option ℕ}
    {w w' : Window} (h : Server.splitEdit kind id refused detached pct w = .ok w') :
    w'.ids + (if refused then 0 else if throughLeaf w.root w.activePath then {id} else 0) =
      (if refused then 0 else {id}) + w.ids := by
  obtain ⟨w1, h1, h⟩ := bind_eq_ok.1 h
  obtain ⟨w2, h2, h⟩ := bind_eq_ok.1 h
  have hw2 : w2.ids = w1.ids := by
    cases pct with
    | none => rw [Except.ok.inj h2]
    | some pct => exact ids_eq_of_shape (setSplitPercent_eq_ok h2).1
  have hw' : w'.ids = w2.ids := by
    rw [← Except.ok.inj h]
    split <;> rfl
  rw [hw', hw2]
  cases refused with
  | true =>
    rw [← Except.ok.inj h1, ids_unzoom]
    exact add_comm ..
  | false =>
    have hsplit := ids_splitPane h1
    rw [ids_unzoom, activePath_unzoom, throughLeaf_eq_of_shape (shape_unzoom w)] at hsplit
    exact hsplit

theorem ids_rotatePanes (reverse : Bool) (w : Window) : (rotatePanes reverse w).ids = w.ids := by
  rw [rotatePanes]
  split
  · next a children hroot =>
    split
    · rw [Window.ids, Window.ids, hroot]
      refine idsIn_eq_of_perm ?_
      rw [leaves_split, leaves_split]
      refine List.Perm.flatMap_right _ ?_
      exact List.perm_append_comm.trans (List.Perm.of_eq (List.take_append_drop ..))
    · rfl
  · rfl

theorem ids_killPaneAtPath {path : List ℕ} {w w' : Window} (h : killPaneAtPath path w = .ok w') :
    w'.ids ≤ w.ids := by
  obtain ⟨root, hroot, h⟩ := bind_eq_ok.1 h
  rw [← Except.ok.inj h]
  exact Multiset.coe_le.2 ((leaves_removeNode hroot).map Pane.id).subperm

/-- Whether a layout is a known name, or leaves a window with fewer than two panes alone. -/
def LayoutNamed (options : Options) (layout : Text) (w : Window) : Prop :=
  countPanes w.root < 2 ∨
    (namedLayout options (toAsciiLowercase layout) (collectLeaves w.root)).isSome

/-- A layout string asks for as many panes as there are. -/
def LayoutFits (options : Options) (layout : Text) (w : Window) : Prop :=
  LayoutNamed options layout w ∨
    ∀ l, parseLayoutString layout = some l → l.countLeaves = countPanes w.root

theorem card_idsIn (n : Node) : Multiset.card (idsIn n) = countPanes n := by
  rw [idsIn, Multiset.coe_card, collectPaneIds, List.length_map, countPanes]

theorem ids_applyLayout_of_named {options : Options} {layout : Text} {w : Window}
    (h : LayoutNamed options layout w) : (applyLayout options layout w).ids = w.ids := by
  have hlen : (collectLeaves w.root).length = countPanes w.root := List.length_map ..
  rw [applyLayout]
  dsimp only
  split
  · next hlt =>
    split
    · next pane rest hp =>
      have hrest : rest = [] := by
        rw [hp, List.length_cons] at hlt
        exact List.eq_nil_of_length_eq_zero (by omega)
      refine idsIn_eq_of_perm (List.Perm.of_eq ?_)
      rw [← flatMap_leaves_collectLeaves w.root, hp, hrest]
      exact (List.flatMap_singleton ..).symm
    · next hp =>
      refine idsIn_eq_of_perm (List.Perm.of_eq ?_)
      rw [← flatMap_leaves_collectLeaves w.root, hp]
      rfl
  · next hge =>
    have hnamed := h.resolve_left (by omega)
    obtain ⟨root, hroot⟩ := Option.isSome_iff_exists.1 hnamed
    refine idsIn_eq_of_perm (List.Perm.of_eq ?_)
    rw [layoutRoot, hroot, ← flatMap_leaves_collectLeaves w.root]
    exact leaves_namedLayout hroot

/-- A layout string keeps the first panes, or none where it asks for more. -/
theorem ids_applyLayout_of_string {options : Options} {layout : Text} {w : Window}
    (h : ¬ LayoutNamed options layout w) :
    (applyLayout options layout w).ids =
      match parseLayoutString layout with
      | none => w.ids
      | some l =>
        if l.countLeaves ≤ countPanes w.root then
          ((((leaves w.root).take l.countLeaves).map Pane.id : List ℕ) : Multiset ℕ)
        else 0 := by
  have hge : ¬ (collectLeaves w.root).length < 2 := by
    rw [collectLeaves, List.length_map]
    exact fun hlt => h (.inl hlt)
  have hnone : namedLayout options (toAsciiLowercase layout) (collectLeaves w.root) = none := by
    rw [← Option.not_isSome_iff_eq_none]
    exact fun hs => h (.inr hs)
  have hids : (applyLayout options layout w).ids =
      idsIn (layoutRoot options layout (collectLeaves w.root)) := by
    rw [applyLayout]
    dsimp only
    rw [if_neg hge]
    rfl
  rw [hids, layoutRoot, hnone]
  have hlen : (collectLeaves w.root).length = countPanes w.root := List.length_map ..
  cases hl : parseLayoutString layout with
  | none =>
    rw [parseTmuxLayoutString, hl]
    refine idsIn_eq_of_perm (List.Perm.of_eq ?_)
    rw [leaves_split, flatMap_leaves_collectLeaves]
  | some l =>
    obtain ⟨hle, root, hroot, hleaves⟩ | ⟨hlt, hroot⟩ := leaves_parseTmuxLayoutString hl
    · rw [hlen] at hle
      simp only [hroot, if_pos hle]
      rw [idsIn, collectPaneIds, hleaves, collectLeaves, ← List.map_take, List.flatMap_map]
      exact congrArg _ (congrArg _ (List.flatMap_singleton' _))
    · rw [hlen] at hlt
      simp only [hroot, if_neg (not_le.2 hlt)]
      rfl

theorem ids_applyLayout_le (options : Options) (layout : Text) (w : Window) :
    (applyLayout options layout w).ids ≤ w.ids := by
  by_cases h : LayoutNamed options layout w
  · rw [ids_applyLayout_of_named h]
  · rw [ids_applyLayout_of_string h]
    split
    · exact le_rfl
    · split
      · exact Multiset.coe_le.2 ((List.take_sublist ..).map Pane.id).subperm
      · exact Multiset.zero_le _

/-- The panes of a window are kept by the layouts that fit, and by no others. -/
theorem ids_applyLayout_eq_iff {options : Options} {layout : Text} {w : Window} :
    (applyLayout options layout w).ids = w.ids ↔ LayoutFits options layout w := by
  by_cases h : LayoutNamed options layout w
  · exact iff_of_true (ids_applyLayout_of_named h) (.inl h)
  · rw [LayoutFits, or_iff_right h, ids_applyLayout_of_string h]
    cases hl : parseLayoutString layout with
    | none => simp
    | some l =>
      have hge : 2 ≤ countPanes w.root := not_lt.1 fun hlt => h (.inl hlt)
      have hcard : Multiset.card w.ids = countPanes w.root := card_idsIn w.root
      simp only [Option.some.injEq, forall_eq']
      by_cases hle : l.countLeaves ≤ countPanes w.root
      · rw [if_pos hle]
        constructor
        · intro he
          have hc := congrArg Multiset.card he
          rw [hcard, Multiset.coe_card, List.length_map, List.length_take, ← countPanes] at hc
          omega
        · intro he
          rw [he, countPanes, List.take_length]
          rfl
      · rw [if_neg hle]
        refine iff_of_false (fun he => ?_) fun he => hle he.le
        rw [← he, Multiset.card_zero] at hcard
        omega

theorem namedLayout_layoutNames {name : Text} (h : name ∈ layoutNames) (options : Options)
    (leaves : List Node) : (namedLayout options (toAsciiLowercase name) leaves).isSome := by
  have hlower : toAsciiLowercase name = name := by
    have hall : ∀ name ∈ layoutNames, toAsciiLowercase name = name := by decide
    exact hall name h
  simp only [layoutNames, List.map_cons, List.map_nil, List.mem_cons, List.not_mem_nil, or_false] at h
  rw [hlower, namedLayout]
  obtain rfl | rfl | rfl | rfl | rfl := h <;> rfl

theorem ids_cycleLayoutBy (step : ℕ) (options : Options) (w : Window) :
    (cycleLayoutBy step options w).ids = w.ids := by
  rw [cycleLayoutBy]
  split
  · rfl
  · have hidx : (w.layoutIndex + step) % layoutNames.length < layoutNames.length :=
      Nat.mod_lt _ (by decide)
    dsimp only
    rw [List.getD_eq_getElem?_getD, List.getElem?_eq_getElem hidx, Option.getD_some]
    exact ids_applyLayout_of_named (.inr (namedLayout_layoutNames (List.getElem_mem hidx) ..))

def idsOpt (n : Option Node) : Multiset ℕ := n.elim 0 idsIn

theorem idsIn_extractNode {n : Node} {path : List ℕ} {rest u : Option Node}
    (h : extractNode n path = (rest, u)) : idsIn n = idsOpt rest + idsOpt u := by
  have hperm := leaves_extractNode n path
  rw [h] at hperm
  have hopt : ∀ m : Option Node, idsOpt m = ((leavesOf m).map Pane.id : List ℕ) := by
    intro m
    cases m <;> rfl
  rw [hopt, hopt, Multiset.coe_add, ← List.map_append]
  exact Multiset.coe_eq_coe.2 (hperm.map Pane.id)

theorem ids_astray (rest : Option Node) (w : Window) : (w.astray rest).ids = idsOpt rest := by
  cases rest <;> rfl

theorem idsOf_taken {windows ws : List Window} {i : ℕ} {v w : Window} {pane : Option Node}
    (hv : windows[i]? = some v) (hw : w.ids = v.ids) (h : Taken windows i w pane ws) :
    idsOf ws + idsOpt pane = idsOf windows := by
  obtain ⟨rest, hs, hset, herase⟩ := Server.idsOf_split hv
  rw [hs, ← hw, Window.ids]
  cases h with
  | some he =>
    rw [hset, idsIn_extractNode he]
    exact add_right_comm ..
  | last he =>
    rw [herase, idsIn_extractNode he, show idsOpt none = 0 from rfl, zero_add]
    exact add_comm ..
  | astray he =>
    rw [hset, idsIn_extractNode he, ids_astray]
    exact add_right_comm ..

theorem ids_graft {u : Node} {t t' : Window} (h : Server.graft u t = .ok t') :
    t'.ids + (if throughLeaf t.root t.activePath then idsIn u else 0) = idsIn u + t.ids := by
  obtain ⟨root, hroot, h⟩ := bind_eq_ok.1 h
  rw [← Except.ok.inj h]
  exact idsIn_replaceLeafWithSplit hroot

/-- What a move loses: the pane, where the target's path goes on below a leaf. -/
theorem idsOf_moved {windows ws : List Window} {i j : ℕ} {v w t : Window} (hij : j ≠ i)
    (hv : windows[i]? = some v) (hw : w.ids = v.ids) (ht : windows[j]? = some t)
    (h : Moved windows i j w t ws) :
    idsOf ws + (if throughLeaf t.root t.activePath then idsOpt (at? w.root w.activePath) else 0) =
      idsOf windows := by
  have hat : ∀ {rest u : Option Node}, extractNode w.root w.activePath = (rest, u) →
      at? w.root w.activePath = u := by
    intro rest u he
    rw [← extractNode_snd, he]
  cases h with
  | @some rest u t' he hg =>
    have htaken := idsOf_taken hv hw (.some he)
    have hj : (windows.set i (w.without rest))[j]? = some t := by rwa [List.getElem?_set_ne hij.symm]
    obtain ⟨others, hs, hset, -⟩ := Server.idsOf_split hj
    have hgraft := ids_graft hg
    rw [hat he, hset, ← htaken, hs, add_right_comm]
    rw [show idsOpt (some u) = idsIn u from rfl, hgraft, add_comm (idsIn u), add_right_comm]
  | @last u t' he hg =>
    have hvu : v.ids = idsIn u := by
      rw [← hw, Window.ids, idsIn_extractNode he]
      exact zero_add _
    have hi : (windows.set j t')[i]? = some v := by rwa [List.getElem?_set_ne hij]
    obtain ⟨others, hs, -, herase⟩ := Server.idsOf_split hi
    obtain ⟨rest, hrest, hset, -⟩ := Server.idsOf_split ht
    have hgraft := ids_graft hg
    rw [hset, hvu] at hs
    rw [hat he, herase, hrest, show idsOpt (some u) = idsIn u from rfl]
    refine add_left_cancel (a := idsIn u) ?_
    rw [← add_assoc, ← hs, add_right_comm, hgraft, add_assoc]
  | astray he =>
    have htaken := idsOf_taken hv hw (.astray he)
    rw [hat he, ← htaken]
    split <;> rfl

/-- Commands that end a pane. -/
def Command.removes : Command → Bool
  | .killPane | .killPaneById _ | .killWindow | .reapChildren _ => true
  | _ => false

/-- The command loses no pane: a layout fits, a graft is not below a leaf. -/
def Conserves (s : Server) : Command → Prop
  | .selectLayout layout => ∀ w ∈ s.windows[s.activeIdx]?, LayoutFits s.options layout w
  | .splitWindow _ _ refused .. =>
    refused = false → ∀ w ∈ s.windows[s.activeIdx]?, throughLeaf w.root w.activePath = false
  | .joinPane targetWin | .movePane targetWin =>
    targetWin ≠ s.activeIdx → ∀ w ∈ s.windows[s.activeIdx]?, ∀ t ∈ s.windows[targetWin]?,
      ∀ u, at? w.root w.activePath = some u → leaves u ≠ [] → throughLeaf t.root t.activePath = false
  | _ => True

namespace Server
variable {s s' : Server} {c : Command} {w w' : Window} {i : ℕ}

/-- The account of an edited window is the account of all windows. -/
theorem paneIds_account (hw : s.windows[i]? = some w) (h : s'.windows = s.windows.set i w')
    {lost made : Multiset ℕ} (hids : w'.ids + lost = made + w.ids) :
    s'.paneIds + lost = made + s.paneIds := by
  obtain ⟨rest, hs, hset, -⟩ := idsOf_split hw
  rw [paneIds, paneIds, h, hset, hs, add_right_comm, hids, add_assoc]

/-- Lost, made and left: nothing is lost where what is left is all. -/
theorem account_iff {left made old lost : Multiset ℕ} (h : left + lost = made + old) :
    left ≤ made + old ∧ (left = made + old ↔ lost = 0) := by
  refine ⟨h ▸ Multiset.le_add_right left lost, ?_⟩
  rw [← h]
  exact left_eq_add

theorem idsIn_eq_zero {n : Node} : idsIn n = 0 ↔ leaves n = [] := by
  rw [idsIn, Multiset.coe_eq_zero, collectPaneIds, List.map_eq_nil_iff]

theorem account_move {windows ws : List Window} {j : ℕ} {v w t : Window} (hij : j ≠ i)
    (hv : windows[i]? = some v) (hshape : shape w.root = shape v.root)
    (hpath : w.activePath = v.activePath) (ht : windows[j]? = some t) (h : Moved windows i j w t ws) :
    idsOf ws ≤ idsOf windows ∧ (idsOf ws = idsOf windows ↔
      ∀ u, at? v.root v.activePath = some u → leaves u ≠ [] → throughLeaf t.root t.activePath = false) := by
  have hmoved := idsOf_moved hij hv (ids_eq_of_shape hshape) ht h
  have hat : idsOpt (at? w.root w.activePath) = idsOpt (at? v.root v.activePath) := by
    have hs := at?_shape w.root w.activePath
    rw [hshape, hpath, at?_shape] at hs
    rw [hpath]
    cases hu : at? v.root v.activePath with
    | none =>
      rw [hu] at hs
      rw [Option.map_eq_none_iff.1 hs.symm]
    | some u =>
      rw [hu] at hs
      obtain ⟨x, hx, hxu⟩ := Option.map_eq_some_iff.1 hs.symm
      rw [hx]
      exact idsIn_eq_of_shape hxu
  have hiff := account_iff (hmoved.trans (zero_add _).symm)
  rw [zero_add] at hiff
  refine ⟨hiff.1, hiff.2.trans ?_⟩
  rw [hat]
  cases hth : throughLeaf t.root t.activePath with
  | false => simp
  | true =>
    rw [if_pos rfl]
    cases at? v.root v.activePath with
    | none => simp [idsOpt]
    | some u => simp [idsOpt, idsIn_eq_zero]

/-- An edit of the active window that loses nothing. -/
theorem account_same (hw : s.windows[i]? = some w) (h : s'.windows = s.windows.set i w')
    (hids : w'.ids = w.ids) (hc : Conserves s c) (hm : madeId s c = 0) :
    s'.paneIds ≤ madeId s c + s.paneIds ∧ (s'.paneIds = madeId s c + s.paneIds ↔ Conserves s c) := by
  rw [hm, zero_add, paneIds_of_set hw h hids]
  exact ⟨le_rfl, iff_of_true rfl hc⟩

theorem account_edits {f : Window → Window} (h : Edits (fun w => .ok (f w)) s s')
    (hf : ∀ w, (f w).ids = w.ids) (hc : Conserves s c) (hm : madeId s c = 0) :
    s'.paneIds ≤ madeId s c + s.paneIds ∧ (s'.paneIds = madeId s c + s.paneIds ↔ Conserves s c) := by
  obtain ⟨w, w', hw, hw', hs⟩ := h.windows_eq
  rw [← Except.ok.inj hw'] at hs
  exact account_same hw hs (hf w) hc hm

theorem account_layout {layout : Text}
    (h : Edits (fun w => .ok (applyLayout s.options layout w.unzoom)) s s') :
    s'.paneIds ≤ s.paneIds ∧ (s'.paneIds = s.paneIds ↔ Conserves s (.selectLayout layout)) := by
  obtain ⟨w, w', hw, hw', hs⟩ := h.windows_eq
  rw [← Except.ok.inj hw'] at hs
  obtain ⟨rest, hrest, hset, -⟩ := idsOf_split hw
  have hids : (applyLayout s.options layout w.unzoom).ids = w.ids ↔ LayoutFits s.options layout w := by
    rw [← ids_unzoom w, ids_applyLayout_eq_iff]
    have hleaves : leaves w.unzoom.root = leaves w.root := leaves_eq_of_shape (shape_unzoom w)
    simp only [LayoutFits, LayoutNamed, countPanes, collectLeaves, hleaves]
  rw [paneIds, paneIds, hs, hset, hrest]
  refine ⟨?_, ?_⟩
  · rw [← ids_unzoom w]
    exact add_le_add_left (ids_applyLayout_le ..) rest
  · rw [add_left_inj, hids]
    simp only [Conserves, hw, Option.mem_def, Option.some.injEq, forall_eq']

theorem account_splitWindow {kind : LayoutKind} {defaultShell refused detached : Bool}
    {size : Option (ℕ × Bool)} {warm : WarmSpawn}
    (h : s.splitWindow kind defaultShell refused detached size warm = .ok s') :
    let c := Command.splitWindow kind defaultShell refused detached size warm
    s'.paneIds ≤ madeId s c + s.paneIds ∧ (s'.paneIds = madeId s c + s.paneIds ↔ Conserves s c) := by
  obtain ⟨pct, -, w, w', hw, hw', hs⟩ := splitWindow_windows h
  obtain ⟨hle, hiff⟩ := account_iff (paneIds_account hw hs (ids_splitEdit hw'))
  refine ⟨hle, hiff.trans ?_⟩
  simp only [Conserves, hw, Option.mem_def, Option.some.injEq, forall_eq']
  cases refused with
  | true => simp
  | false => cases throughLeaf w.root w.activePath <;> simp

theorem account_newWindow (defaultShell refused detached : Bool) (warm : WarmSpawn) (s : Server) :
    (s.newWindow defaultShell refused detached warm).paneIds =
      madeId s (.newWindow defaultShell refused detached warm) + s.paneIds := by
  rw [paneIds, windows_newWindow, madeId]
  split
  · exact (zero_add _).symm
  · simp only [idsOf, List.map_append, List.sum_append, List.map_cons, List.map_nil, List.sum_cons,
      List.sum_nil, add_zero]
    exact add_comm ..

theorem account_breakPane (h : s.breakPane = .ok s') : s'.paneIds = s.paneIds := by
  obtain ⟨w, pane, windows, hw, ht, hs⟩ := breakPane_eq_ok h
  rw [paneIds, paneIds, hs, ← idsOf_taken hw (ids_unzoom w) ht]
  have happend : ∀ ws' : List Window, idsOf (windows ++ ws') = idsOf windows + idsOf ws' := by
    intro ws'
    simp [idsOf]
  rw [happend]
  cases pane with
  | none => rfl
  | some u => exact congrArg _ (add_zero _)

theorem account_joinPane {targetWin : ℕ} (h : s.joinPane targetWin = .ok s') :
    s'.paneIds ≤ s.paneIds ∧ (s'.paneIds = s.paneIds ↔ Conserves s (.joinPane targetWin)) := by
  obtain ⟨w, hw, ⟨hv, hs⟩ | ⟨-, hne, t, ht, hm⟩⟩ := joinPane_eq_ok h
  · rw [paneIds_of_set hw hs (ids_unzoom w)]
    refine ⟨le_rfl, iff_of_true rfl fun hne v _ t ht => ?_⟩
    exact absurd ⟨(List.getElem?_eq_some_iff.1 ht).1, hne⟩ hv
  · obtain ⟨hle, hiff⟩ := account_move hne hw (shape_unzoom w) (activePath_unzoom w) ht hm
    refine ⟨hle, hiff.trans ?_⟩
    simp only [Conserves, hw, ht, Option.mem_def, Option.some.injEq, forall_eq', hne, ne_eq,
      not_false_eq_true, true_implies]

theorem account_movePane {targetWin : ℕ} (h : s.movePane targetWin = .ok s') :
    s'.paneIds ≤ s.paneIds ∧ (s'.paneIds = s.paneIds ↔ Conserves s (.movePane targetWin)) := by
  obtain ⟨hv, rfl⟩ | ⟨-, hne, w, t, hw, ht, hm⟩ := movePane_eq_ok h
  · refine ⟨le_rfl, iff_of_true rfl fun hne v _ t ht => ?_⟩
    exact absurd ⟨(List.getElem?_eq_some_iff.1 ht).1, hne⟩ hv
  · obtain ⟨hle, hiff⟩ := account_move hne hw rfl rfl ht hm
    refine ⟨hle, hiff.trans ?_⟩
    simp only [Conserves, hw, ht, Option.mem_def, Option.some.injEq, forall_eq', hne, ne_eq,
      not_false_eq_true, true_implies]

/-- The account of one command. -/
theorem account_step (hc : c.removes = false) (h : step s c = .ok s') :
    s'.paneIds ≤ madeId s c + s.paneIds ∧ (s'.paneIds = madeId s c + s.paneIds ↔ Conserves s c) := by
  have hfocus : c.movesFocus = true → madeId s c = 0 → Conserves s c →
      s'.paneIds ≤ madeId s c + s.paneIds ∧
        (s'.paneIds = madeId s c + s.paneIds ↔ Conserves s c) := by
    intro hf hm hcons
    rw [hm, zero_add, paneIds_of_refocus (refocus_step hf h) rfl]
    exact ⟨le_rfl, iff_of_true rfl hcons⟩
  have hrelabel : c.relabels = true → madeId s c = 0 → Conserves s c →
      s'.paneIds ≤ madeId s c + s.paneIds ∧
        (s'.paneIds = madeId s c + s.paneIds ↔ Conserves s c) := by
    intro hr hm hcons
    obtain ⟨w, w', hw, hs, hshape, -⟩ := relabel_step hr h
    exact account_same hw hs (ids_eq_of_shape hshape) hcons hm
  cases c with
  | newWindow defaultShell refused detached warm =>
    rw [← Except.ok.inj h, account_newWindow]
    exact ⟨le_rfl, iff_of_true rfl trivial⟩
  | splitWindow => exact account_splitWindow h
  | killPane | killPaneById | killWindow | reapChildren => contradiction
  | breakPane =>
    have hm : madeId s .breakPane = 0 := rfl
    rw [account_breakPane h, hm, zero_add]
    exact ⟨le_rfl, iff_of_true rfl trivial⟩
  | joinPane targetWin =>
    have hm : madeId s (.joinPane targetWin) = 0 := rfl
    rw [hm, zero_add]
    exact account_joinPane h
  | movePane targetWin =>
    have hm : madeId s (.movePane targetWin) = 0 := rfl
    rw [hm, zero_add]
    exact account_movePane h
  | rotateWindow reverse => exact account_edits (mapActive_edits h) (ids_rotatePanes reverse) trivial rfl
  | selectLayout layout =>
    have hm : madeId s (.selectLayout layout) = 0 := rfl
    rw [hm, zero_add]
    exact account_layout (unzoomThen_edits h)
  | nextLayout | prevLayout =>
    exact account_edits (unzoomThen_edits h)
      (fun w => (ids_cycleLayoutBy ..).trans (ids_unzoom w)) trivial rfl
  | swapPane | selectPane | lastPane | displayPaneSelect | focusPane | focusPaneByIndex
  | focusWindowTemp | focusPaneTemp | focusPaneByIndexTemp | restoreFocus | selectWindow
  | nextWindow | prevWindow | lastWindow | clientSize | mouseDown | mouseUp | paneMouse =>
    exact hfocus rfl rfl trivial
  | cycleTopLayout | zoomPane | resizePane | resizePaneAbsolute | resizePanePercent | mouseDrag
  | splitSetSizes => exact hrelabel rfl rfl trivial

theorem sublist_pruneExited (exited : List ℕ) (remainOnExit : Bool) (n : Node) :
    ((leavesOf (pruneExited exited remainOnExit n)).map Pane.id).Sublist ((leaves n).map Pane.id) := by
  induction n using tree_induction with
  | leaf p =>
    rw [pruneExited]
    repeat' split
    all_goals simp [leavesOf]
  | split a children ih =>
    rw [pruneExited, leavesOf_regroup, leaves_split]
    generalize a.sizes = sizes
    induction children generalizing sizes with
    | nil => simp [pruneChildren]
    | cons c cs ihcs =>
      have hc := ih c List.mem_cons_self
      have hcs := ihcs (fun d hd => ih d (List.mem_cons_of_mem c hd)) sizes.tail
      rw [pruneChildren, List.flatMap_cons, List.map_append]
      cases hp : pruneExited exited remainOnExit c with
      | none => exact hcs.trans (List.sublist_append_right ..)
      | some d =>
        rw [hp] at hc
        simp only [List.map_cons, List.flatMap_cons, List.map_append]
        exact hc.append hcs

theorem ids_pruneWindow {exited : List ℕ} {remainOnExit : Bool} {root : Node} {w : Window}
    (h : pruneExited exited remainOnExit w.root = some root) : (pruneWindow root w).ids ≤ w.ids := by
  have hsub := sublist_pruneExited exited remainOnExit w.root
  rw [h] at hsub
  rw [Window.ids, root_pruneWindow]
  exact Multiset.coe_le.2 hsub.subperm

theorem idsOf_set_le {windows : List Window} (hw : windows[i]? = some w) (h : w'.ids ≤ w.ids) :
    idsOf (windows.set i w') ≤ idsOf windows := by
  obtain ⟨rest, hs, hset, -⟩ := idsOf_split hw
  rw [hs, hset]
  exact add_le_add_left h rest

theorem idsOf_eraseIdx_le {windows : List Window} (hw : windows[i]? = some w) :
    idsOf (windows.eraseIdx i) ≤ idsOf windows := by
  obtain ⟨rest, hs, -, herase⟩ := idsOf_split hw
  rw [hs, herase]
  exact Multiset.le_add_left ..

theorem paneIds_reapWindow (exited : List ℕ) (s : Server) (i : ℕ) :
    (s.reapWindow exited i).paneIds ≤ s.paneIds := by
  have h := reaped_reapWindow exited s i
  rw [paneIds, paneIds]
  generalize (s.reapWindow exited i).windows = windows at h
  cases h with
  | same => exact le_rfl
  | pruned hw hr => exact idsOf_set_le hw (ids_pruneWindow hr)
  | gone hw _ => exact idsOf_eraseIdx_le hw

theorem removal_step (hc : c.removes = true) (h : step s c = .ok s') : s'.paneIds ≤ s.paneIds := by
  cases c with
  | killPane =>
    obtain ⟨w, w', hw, hw', hs⟩ := (killPane_edits h).windows_eq
    rw [paneIds, hs]
    exact idsOf_set_le hw ((ids_killPaneAtPath hw').trans (ids_unzoom w).le)
  | killPaneById pid =>
    obtain ⟨w, hw, hs | ⟨path, w', -, hw', hs⟩ | ⟨j, path, t, t', hj, ht, -, ht', hs⟩⟩ :=
      killPaneById_eq_ok h
    · rw [paneIds, hs]
      exact idsOf_set_le hw (ids_unzoom w).le
    · rw [paneIds, hs]
      exact idsOf_set_le hw ((ids_killPaneAtPath hw').trans (ids_unzoom w).le)
    · have hw2 : (s.windows.set j t')[s.activeIdx]? = some w := by rwa [List.getElem?_set_ne hj]
      have hids : (refocus w.unzoom.activePaneId w.unzoom).ids ≤ w.ids := (ids_unzoom w).le
      rw [paneIds, hs]
      exact (idsOf_set_le hw2 hids).trans (idsOf_set_le ht (ids_killPaneAtPath ht'))
  | killWindow =>
    rw [paneIds]
    obtain hs | hs := killWindow_eq_ok h
    · rw [hs]
      exact le_rfl
    · rw [hs]
      by_cases hlt : s.activeIdx < s.windows.length
      · exact idsOf_eraseIdx_le (List.getElem?_eq_getElem hlt)
      · rw [List.eraseIdx_of_length_le (not_lt.1 hlt)]
        exact le_rfl
  | reapChildren exited =>
    rw [← Except.ok.inj h]
    exact reapChildren_invariant (P := fun t => t.paneIds ≤ s.paneIds) le_rfl
      fun t i ht => (paneIds_reapWindow exited t i).trans ht
  | _ => contradiction

/-- A command leaves panes that were there or that it made. -/
theorem paneIds_step (h : step s c = .ok s') : s'.paneIds ≤ madeId s c + s.paneIds := by
  cases hc : c.removes with
  | false => exact (account_step hc h).1
  | true => exact (removal_step hc h).trans (Multiset.le_add_left ..)

/-- The warm pane. -/
def stock (supply : ℕ × Option ℕ) : Multiset ℕ := supply.2.elim 0 fun id => {id}

/-- The ids in use, the warm pane's among them, are distinct and were all given out. -/
structure Fresh (supply : ℕ × Option ℕ) (ids : Multiset ℕ) : Prop where
  nodup : (stock supply + ids).Nodup
  lt : ∀ id ∈ stock supply + ids, id < supply.1

theorem Fresh.mono {supply : ℕ × Option ℕ} {ids ids' : Multiset ℕ} (h : Fresh supply ids)
    (hle : ids' ≤ ids) : Fresh supply ids' := by
  have hadd : stock supply + ids' ≤ stock supply + ids := add_le_add_right hle _
  exact ⟨Multiset.nodup_of_le hadd h.nodup, fun id hid => h.lt id (Multiset.mem_of_le hadd hid)⟩

/-- A new id is not in use. -/
theorem Fresh.next_not_mem {supply : ℕ × Option ℕ} {ids : Multiset ℕ} (h : Fresh supply ids) :
    supply.1 ∉ stock supply + ids := fun hmem => lt_irrefl _ (h.lt _ hmem)

theorem Fresh.takePane {ids : Multiset ℕ} (h : Fresh s.supply ids) (defaultShell : Bool) :
    Fresh (s.takePane defaultShell).2.supply ({(s.takePane defaultShell).1} + ids) := by
  have hnext : Fresh (s.nextPaneId + 1, s.warmPane) ({s.nextPaneId} + ids) := by
    have hmem := h.next_not_mem
    rw [supply] at hmem h
    constructor
    · rw [add_left_comm, Multiset.singleton_add]
      exact Multiset.nodup_cons.2 ⟨hmem, h.nodup⟩
    · intro id hid
      rw [add_left_comm, Multiset.singleton_add, Multiset.mem_cons] at hid
      obtain rfl | hid := hid
      · exact Nat.lt_succ_self _
      · exact Nat.lt_succ_of_lt (h.lt id hid)
  rw [Server.takePane.eq_def]
  split
  · next id hwarm =>
    have hstock : stock s.supply + ids = stock (s.nextPaneId, none) + ({id} + ids) := by
      rw [supply, hwarm]
      exact (zero_add _).symm
    refine ⟨hstock ▸ h.nodup, fun id' hid => h.lt id' ?_⟩
    rw [hstock]
    exact hid
  · exact hnext

theorem Fresh.replenish {ids : Multiset ℕ} (h : Fresh s.supply ids) (warm : WarmSpawn) :
    Fresh (s.replenish warm).supply ids := by
  rw [Server.replenish.eq_def]
  split
  · exact h
  · exact h
  · next hwarm =>
    rw [supply, hwarm] at h
    rw [supply, hwarm]
    exact ⟨h.nodup, fun id hid => Nat.lt_succ_of_lt (h.lt id hid)⟩
  · next hwarm =>
    have hmem := h.next_not_mem
    rw [supply, hwarm] at hmem h
    have hzero : stock (s.nextPaneId, none) + ids = ids := zero_add ids
    rw [hzero] at hmem
    constructor
    · have hnodup := h.nodup
      rw [hzero] at hnodup
      exact Multiset.nodup_cons.2 ⟨hmem, hnodup⟩
    · intro id hid
      obtain rfl | hid := Multiset.mem_cons.1 hid
      · exact Nat.lt_succ_self _
      · exact Nat.lt_succ_of_lt (h.lt id (by rwa [hzero]))

theorem supply_createWindow (defaultShell refused : Bool) (s : Server) :
    (s.createWindow defaultShell refused).supply =
      if refused && !(defaultShell && s.warmPane.isSome) then s.supply
      else (s.takePane defaultShell).2.supply := by
  rw [createWindow]
  split <;> rfl

theorem fresh_step (hs : Fresh s.supply s.paneIds) (h : step s c = .ok s') :
    Fresh s'.supply s'.paneIds := by
  cases hc : c.startsPane with
  | false =>
    have hmade : madeId s c = 0 := by cases c <;> first | rfl | contradiction
    have hle := paneIds_step h
    rw [hmade, zero_add] at hle
    rw [supply_step hc h]
    exact hs.mono hle
  | true =>
    refine Fresh.mono ?_ (paneIds_step h)
    cases c with
    | newWindow defaultShell refused detached warm =>
      have hcreate : Fresh (s.createWindow defaultShell refused).supply
          (madeId s (.newWindow defaultShell refused detached warm) + s.paneIds) := by
        rw [supply_createWindow, madeId]
        split
        · rw [zero_add]
          exact hs
        · exact hs.takePane defaultShell
      rw [← Except.ok.inj h, Server.newWindow]
      cases detached with
      | false => exact hcreate.replenish warm
      | true =>
        exact Fresh.replenish (s := (s.createWindow defaultShell refused).withActive s.activeIdx)
          hcreate warm
    | splitWindow kind defaultShell refused detached size warm =>
      obtain ⟨pct, -, w, w', t, -, -, ht, rfl⟩ := splitWindow_eq_ok h
      have hbase : Fresh (s.splitBase defaultShell refused).supply
          (madeId s (.splitWindow kind defaultShell refused detached size warm) + s.paneIds) := by
        rw [splitBase, madeId]
        split
        · rw [zero_add]
          exact hs
        · exact hs.takePane defaultShell
      rw [← ht.supply] at hbase
      exact hbase.replenish warm
    | clientSize width height respawn warm =>
      have hm : madeId s (.clientSize width height respawn warm) = 0 := rfl
      rw [← Except.ok.inj h, hm, zero_add, Server.clientSize]
      dsimp only
      split
      · have hnone : Fresh (s.nextPaneId, none) s.paneIds := by
          have hstock : stock (s.nextPaneId, none) + s.paneIds ≤ stock s.supply + s.paneIds :=
            add_le_add_left (Multiset.zero_le _) _
          exact ⟨Multiset.nodup_of_le hstock hs.nodup,
            fun id hid => hs.lt id (Multiset.mem_of_le hstock hid)⟩
        exact Fresh.replenish
          (s := { s with lastWindowArea := ⟨0, 0, width, height⟩, warmPane := none }) hnone warm
      · exact hs
    | _ => contradiction

theorem fresh_start (options : Options) (area : Rect) (paneId winId : ℕ) :
    Fresh (start options area paneId winId).supply (start options area paneId winId).paneIds := by
  have hids : (start options area paneId winId).paneIds = {paneId} := by
    simp [start, paneIds, idsOf, Window.ids, idsIn, collectPaneIds]
  rw [hids]
  refine ⟨by simp [stock, supply, start], fun id hid => ?_⟩
  obtain rfl : id = paneId := by simpa [stock, supply, start] using hid
  exact Nat.lt_succ_self _

end Server

theorem Server.madeId_not_mem {s : Server} (hf : Server.Fresh s.supply s.paneIds) {c : Command} {id : ℕ}
    (hid : id ∈ madeId s c) : id ∉ s.paneIds := by
  have htake : ∀ defaultShell : Bool, (s.takePane defaultShell).1 ∉ s.paneIds := by
    intro defaultShell
    have hnodup := (hf.takePane defaultShell).nodup
    rw [add_left_comm, Multiset.singleton_add] at hnodup
    exact fun hmem => (Multiset.nodup_cons.1 hnodup).1 (Multiset.mem_add.2 (.inr hmem))
  rw [madeId.eq_def] at hid
  split at hid
  · split at hid
    · exact absurd hid (Multiset.notMem_zero id)
    · rw [Multiset.mem_singleton.1 hid]
      exact htake _
  · split at hid
    · exact absurd hid (Multiset.notMem_zero id)
    · rw [Multiset.mem_singleton.1 hid]
      exact htake _
  · exact absurd hid (Multiset.notMem_zero id)

/-- A step of the system is a command that does not panic. -/
theorem session_next {s0 s : Server} {c : Command} (h : (session s0).enabled s c) :
    step s c = .ok ((session s0).next s c) := by
  have hok : (step s c).isOk := h
  show step s c = .ok ((step s c).toOption.getD s)
  cases hs : step s c with
  | error e =>
    rw [hs] at hok
    contradiction
  | ok s' => rfl

theorem fresh_of_reachable {options : Options} {area : Rect} {paneId winId : ℕ} {s : Server}
    (hs : (session (start options area paneId winId)).Reachable s) : Server.Fresh s.supply s.paneIds :=
  hs.invariant (Server.fresh_start options area paneId winId)
    fun _ _ _ hf hl => Server.fresh_step hf (session_next hl)

/-- In every run, a command other than a kill and a reap keeps every pane and adds its own
fresh one exactly where it does not graft below a leaf and a layout string has a leaf for
each pane; and a layout keeps each pane once exactly where it fits. -/
theorem conserves_panes_iff {options : Options} {area : Rect} {paneId winId : ℕ} {s : Server}
    (hs : (session (start options area paneId winId)).Reachable s) :
    (∀ c s', c.removes = false → step s c = .ok s' →
      (s'.paneIds = madeId s c + s.paneIds ∧ (∀ id ∈ madeId s c, id ∉ s.paneIds) ↔ Conserves s c)) ∧
    ∀ w ∈ s.windows, ∀ layout,
      ((∀ id ∈ w.ids, (applyLayout s.options layout w).ids.count id = 1) ↔
        LayoutFits s.options layout w) := by
  have hfresh := fresh_of_reachable hs
  refine ⟨fun c s' hc h => ?_, fun w hw layout => ?_⟩
  · rw [← (Server.account_step hc h).2, and_iff_left_iff_imp]
    intro _ id hid
    exact Server.madeId_not_mem hfresh hid
  · have hnodup : w.ids.Nodup := by
      obtain ⟨i, hi⟩ := List.getElem?_of_mem hw
      obtain ⟨rest, hrest, -⟩ := Server.idsOf_split hi
      refine Multiset.nodup_of_le ?_ hfresh.nodup
      exact (Multiset.le_add_right w.ids rest).trans (hrest ▸ Multiset.le_add_left ..)
    rw [← ids_applyLayout_eq_iff]
    constructor
    · intro hcount
      refine le_antisymm (ids_applyLayout_le ..) (Multiset.le_iff_count.2 fun id => ?_)
      by_cases hid : id ∈ w.ids
      · rw [hcount id hid]
        exact Multiset.nodup_iff_count_le_one.1 hnodup id
      · rw [Multiset.count_eq_zero_of_notMem hid]
        exact Nat.zero_le _
    · intro he id hid
      rw [he]
      exact Multiset.count_eq_one_of_mem hnodup hid

/-- Two panes side by side. -/
def halves : List Command := [.splitWindow .horizontal true false false none .refused]

def oneOfThree : Text := utf8 "abcd,80x24,0,0{26x24,0,0,0,26x24,27,0,1,26x24,54,0,2}"

theorem conserves_panes_iff_halves :
    let s := (session terminal).run terminal halves
    (∀ c s', c.removes = false → step s c = .ok s' →
      (s'.paneIds = madeId s c + s.paneIds ∧ (∀ id ∈ madeId s c, id ∉ s.paneIds) ↔ Conserves s c)) ∧
    ∀ w ∈ s.windows, ∀ layout,
      ((∀ id ∈ w.ids, (applyLayout s.options layout w).ids.count id = 1) ↔
        LayoutFits s.options layout w) :=
  conserves_panes_iff (System.Reachable.run (S := session terminal) .init halves (by decide))

/-- A layout string for three panes, given to two: both are gone. -/
theorem layout_loses_panes :
    ¬ ∀ s : Server, (session terminal).Reachable s →
      ∀ c s', c.removes = false → step s c = .ok s' → s'.paneIds = madeId s c + s.paneIds := by
  intro h
  have hv : (session terminal).Valid terminal (halves ++ [.selectLayout oneOfThree]) := by
    decide
  have hs : (session terminal).Reachable ((session terminal).run terminal halves) :=
    System.Reachable.run .init halves (by decide)
  have hids := h _ hs _ _ rfl (session_next (hv.enabled (i := 1) rfl))
  have hcard := congrArg Multiset.card hids
  revert hcard
  decide

end Winsmux.Layout
