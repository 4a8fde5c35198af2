import Winsmux.Layout.ActivePath
import Winsmux.Layout.Prune
import Winsmux.Layout.WindowAccount

/-!
# Reaping the panes whose processes exited

A reap goes through the windows from the last to the first. The windows that are left, in
their order, are those that keep a pane; each has its tree pruned, its recent panes thinned
out and its focus repaired, and a window without a newly exited pane is not touched.
-/
namespace Winsmux.Layout
open PathTree Json

def countDeadPanes (n : Node) : ℕ := (leaves n).countP Pane.dead

namespace Server

/-- One window of a reap, with a note whether panes went or were marked. -/
def reapWindowNoting (exited : List ℕ) (acc : Server × Bool) (i : ℕ) : Server × Bool :=
  match acc.1.windows[i]? with
  | none => acc
  | some w =>
    if hasAnyExited exited w.root then
      match pruneExited exited acc.1.options.remainOnExit w.root with
      | some root =>
        ({ acc.1 with windows := acc.1.windows.set i (pruneWindow root w) },
          acc.2 || countPanes root < countPanes w.root || countDeadPanes root > countDeadPanes w.root)
      | none => (acc.1.removeWindow i, true)
    else acc

/-- The reap with its two results: no window is left, panes went or were marked. -/
def reapChildrenNoting (exited : List ℕ) (s : Server) : Server × Bool × Bool :=
  let (s, anyPruned) := (List.range s.windows.length).reverse.foldl (reapWindowNoting exited) (s, false)
  (s, s.windows.isEmpty, anyPruned)

theorem fst_reapWindowNoting (exited : List ℕ) (acc : Server × Bool) (i : ℕ) :
    (reapWindowNoting exited acc i).1 = acc.1.reapWindow exited i := by
  rw [reapWindowNoting, reapWindow]
  cases acc.1.windows[i]? with
  | none => rfl
  | some w =>
    dsimp only
    split
    · cases pruneExited exited acc.1.options.remainOnExit w.root <;> rfl
    · rfl

/-- The server after the reap is the one of the command. -/
theorem fst_reapChildrenNoting (exited : List ℕ) (s : Server) :
    (s.reapChildrenNoting exited).1 = s.reapChildren exited := by
  have hfold : ∀ (is : List ℕ) (acc : Server × Bool),
      (is.foldl (reapWindowNoting exited) acc).1 = is.foldl (reapWindow exited) acc.1 := by
    intro is
    induction is with
    | nil => exact fun acc => rfl
    | cons i is ih =>
      intro acc
      rw [List.foldl_cons, List.foldl_cons, ih, fst_reapWindowNoting]
  exact hfold _ _

end Server

section prune
variable {exited : List ℕ} {remainOnExit : Bool}

/-- A prune does with each pane what its exit asks for, and leaves them in their order. -/
theorem leavesOf_pruneExited (n : Node) :
    leavesOf (pruneExited exited remainOnExit n) =
      (leaves n).filterMap (afterExit exited remainOnExit) := by
  induction n using tree_induction with
  | leaf p =>
    rw [pruneExited_leaf, leaves_leaf, List.filterMap_cons, List.filterMap_nil]
    cases afterExit exited remainOnExit p <;> rfl
  | split a children ih =>
    rw [pruneExited, leavesOf_regroup, leaves_split]
    generalize a.sizes = sizes
    induction children generalizing sizes with
    | nil => rfl
    | cons c cs ihcs =>
      have hc := ih c List.mem_cons_self
      have hcs := ihcs (fun d hd => ih d (List.mem_cons_of_mem c hd)) sizes.tail
      rw [pruneChildren, List.flatMap_cons, List.filterMap_append, ← hc, ← hcs]
      cases pruneExited exited remainOnExit c with
      | none => rfl
      | some d => rfl

theorem leaves_of_pruneExited {n m : Node} (h : pruneExited exited remainOnExit n = some m) :
    leaves m = (leaves n).filterMap (afterExit exited remainOnExit) := by
  rw [← leavesOf_pruneExited, h]
  rfl

/-- A tree goes just when each of its panes does. -/
theorem pruneExited_eq_none {n : Node} :
    pruneExited exited remainOnExit n = none ↔
      ∀ p ∈ leaves n, afterExit exited remainOnExit p = none := by
  rw [← List.filterMap_eq_nil_iff, ← leavesOf_pruneExited]
  cases h : pruneExited exited remainOnExit n with
  | none => exact iff_of_true rfl rfl
  | some m => exact iff_of_false (by simp) (leavesAt_pruneExited h).1

theorem hasAnyExited_iff {n : Node} :
    hasAnyExited exited n = true ↔ ∃ p ∈ leaves n, p.dead = false ∧ p.id ∈ exited := by
  simp [hasAnyExited]

/-- Where a process exited, panes went or more are dead than before. -/
theorem counts_pruneExited {n m : Node} (h : pruneExited exited remainOnExit n = some m)
    (hany : hasAnyExited exited n = true) :
    countPanes m < countPanes n ∨ countDeadPanes m > countDeadPanes n := by
  obtain ⟨p, hp, hdead, hexit⟩ := hasAnyExited_iff.1 hany
  rw [countPanes, countPanes, countDeadPanes, countDeadPanes, leaves_of_pruneExited h]
  obtain ⟨front, back, hleaves⟩ := List.append_of_mem hp
  rw [hleaves]
  cases remainOnExit with
  | false =>
    have hgone : afterExit exited false p = none := by simp [afterExit, hdead, hexit]
    left
    simp only [List.filterMap_append, List.filterMap_cons, hgone, List.length_append, List.length_cons]
    have hfront := List.length_filterMap_le (afterExit exited false) front
    have hback := List.length_filterMap_le (afterExit exited false) back
    omega
  | true =>
    have hmarked : afterExit exited true p = some { p with dead := true } := by
      simp [afterExit, hdead, hexit]
    have hmore : ∀ ps : List Pane,
        ps.countP Pane.dead ≤ (ps.filterMap (afterExit exited true)).countP Pane.dead := by
      intro ps
      induction ps with
      | nil => simp
      | cons q ps ih =>
        obtain ⟨r, hr, hle⟩ : ∃ r, afterExit exited true q = some r ∧ (q.dead → r.dead) := by
          rw [afterExit]
          split
          · exact ⟨_, rfl, fun _ => rfl⟩
          · exact ⟨q, rfl, id⟩
        rw [List.filterMap_cons_some hr, List.countP_cons, List.countP_cons]
        split
        · next hq => rw [if_pos (hle hq)]; omega
        · split <;> omega
    right
    simp only [List.filterMap_append, List.filterMap_cons, hmarked, List.countP_append, List.countP_cons, hdead]
    have hfront := hmore front
    have hback := hmore back
    simp only [Bool.false_eq_true, if_false, if_true]
    omega

end prune

/-- What becomes of a window. -/
def reaped (exited : List ℕ) (remainOnExit : Bool) (w : Window) : Option Window :=
  if hasAnyExited exited w.root then
    (pruneExited exited remainOnExit w.root).map fun root => Server.pruneWindow root w
  else some w

namespace Server

/-- The windows from the last down to position `i` have been reaped. -/
structure NotedTo (exited : List ℕ) (s : Server) (i : ℕ) (acc : Server × Bool) : Prop where
  windows : acc.1.windows =
    s.windows.take i ++ (s.windows.drop i).filterMap (reaped exited s.options.remainOnExit)
  options : acc.1.options = s.options
  noted : acc.2 = (s.windows.drop i).any fun w => hasAnyExited exited w.root

theorem NotedTo.step {exited : List ℕ} {s : Server} {i : ℕ} {acc : Server × Bool}
    (h : NotedTo exited s (i + 1) acc) (hi : i < s.windows.length) :
    NotedTo exited s i (reapWindowNoting exited acc i) := by
  have hdrop : s.windows.drop i = s.windows[i] :: s.windows.drop (i + 1) := List.drop_eq_getElem_cons hi
  have htake : s.windows.take (i + 1) = s.windows.take i ++ [s.windows[i]] :=
    List.take_succ_eq_append_getElem hi
  have hlen : (s.windows.take i).length = i := List.length_take_of_le hi.le
  have hwin := h.windows
  rw [htake, List.append_assoc, List.singleton_append] at hwin
  have hget : acc.1.windows[i]? = some s.windows[i] := by
    rw [hwin, List.getElem?_append_right hlen.le, hlen, Nat.sub_self]
    rfl
  have hnoted := h.noted
  simp only [reapWindowNoting, hget]
  by_cases hany : hasAnyExited exited s.windows[i].root = true
  · rw [if_pos hany, congrArg Options.remainOnExit h.options]
    cases hroot : pruneExited exited s.options.remainOnExit s.windows[i].root with
    | some root =>
      have hreaped : reaped exited s.options.remainOnExit s.windows[i] =
          some (pruneWindow root s.windows[i]) := by
        rw [reaped, if_pos hany, hroot]
        rfl
      refine ⟨?_, h.options, ?_⟩
      · dsimp only
        rw [hwin, hdrop, List.filterMap_cons_some hreaped, List.set_append_right _ _ hlen.le, hlen, Nat.sub_self,
          List.set_cons_zero]
      · rw [hdrop, List.any_cons, hany, Bool.true_or]
        simpa [or_assoc] using .inr (counts_pruneExited hroot hany)
    | none =>
      have hreaped : reaped exited s.options.remainOnExit s.windows[i] = none := by
        rw [reaped, if_pos hany, hroot]
        rfl
      refine ⟨?_, h.options, ?_⟩
      · rw [removeWindow]
        dsimp only
        rw [hwin, hdrop, List.filterMap_cons_none hreaped, List.eraseIdx_append_of_length_le hlen.le, hlen,
          Nat.sub_self, List.eraseIdx_cons_zero]
      · rw [hdrop, List.any_cons, hany, Bool.true_or]
  · have hreaped : reaped exited s.options.remainOnExit s.windows[i] = some s.windows[i] := by
      rw [reaped, if_neg hany]
    rw [if_neg hany]
    refine ⟨?_, h.options, ?_⟩
    · rw [hwin, hdrop, List.filterMap_cons_some hreaped]
    · rw [hnoted, hdrop, List.any_cons, eq_false_of_ne_true hany, Bool.false_or]

theorem notedTo_zero (exited : List ℕ) (s : Server) :
    NotedTo exited s 0 ((List.range s.windows.length).reverse.foldl (reapWindowNoting exited) (s, false)) := by
  have hrun : ∀ n ≤ s.windows.length, ∀ acc, NotedTo exited s n acc →
      NotedTo exited s 0 ((List.range n).reverse.foldl (reapWindowNoting exited) acc) := by
    intro n
    induction n with
    | zero => exact fun _ acc h => h
    | succ n ih =>
      intro hn acc h
      rw [List.range_succ, List.reverse_append, List.reverse_singleton, List.singleton_append, List.foldl_cons]
      exact ih (by omega) _ (h.step hn)
  exact hrun _ le_rfl _ ⟨by simp, rfl, by simp⟩

/-- The windows after a reap, and its two results. -/
theorem reapChildrenNoting_spec (exited : List ℕ) (s : Server) :
    (s.reapChildrenNoting exited).1.windows =
        s.windows.filterMap (reaped exited s.options.remainOnExit) ∧
      (s.reapChildrenNoting exited).2 =
        ((s.reapChildrenNoting exited).1.windows.isEmpty,
          s.windows.any fun w => hasAnyExited exited w.root) := by
  have h := notedTo_zero exited s
  refine ⟨h.windows, ?_⟩
  rw [reapChildrenNoting]
  exact congrArg (Prod.mk _) h.noted

end Server

/-- The children that are left, each with the size it had. -/
def keptSizes (rs : List (Option Node)) (sizes : List ℕ) : List (Node × ℕ) :=
  (rs.zip sizes).filterMap fun e => e.1.map fun c => (c, e.2)

/-- What remains of a tree when each pane becomes what `f` makes of it: a split goes with
all its children, gives way to its only child left, or keeps its direction and two children
or more, with sizes in proportion to those they had. -/
inductive Remains (f : Pane → Option Pane) : Node → Option Node → Prop
  | leaf (p : Pane) : Remains f (.leaf p) ((f p).map .leaf)
  | gone {a : Split} {children : List Node} {rs : List (Option Node)}
      (hrs : List.Forall₂ (Remains f) children rs) (hkept : keptSizes rs a.sizes = []) :
      Remains f (.split a children) none
  | only {a : Split} {children : List Node} {rs : List (Option Node)} {c : Node} {size : ℕ}
      (hrs : List.Forall₂ (Remains f) children rs) (hkept : keptSizes rs a.sizes = [(c, size)]) :
      Remains f (.split a children) (some c)
  | split {a : Split} {children : List Node} {rs : List (Option Node)} {sizes : List ℕ}
      (hrs : List.Forall₂ (Remains f) children rs) (htwo : 2 ≤ (keptSizes rs a.sizes).length)
      (hsizes : a.sizes.sum < 2 ^ 16 → Redistributed ((keptSizes rs a.sizes).map Prod.snd) sizes) :
      Remains f (.split a children) (some (.split ⟨a.kind, sizes⟩ ((keptSizes rs a.sizes).map Prod.fst)))

theorem sum_keptSizes_le (rs : List (Option Node)) (sizes : List ℕ) :
    ((keptSizes rs sizes).map Prod.snd).sum ≤ sizes.sum := by
  induction rs generalizing sizes with
  | nil => simp [keptSizes]
  | cons r rs ih =>
    cases sizes with
    | nil => simp [keptSizes]
    | cons s sizes =>
      have hrest := ih sizes
      rw [keptSizes] at hrest ⊢
      cases r with
      | none =>
        simp only [List.zip_cons_cons, List.filterMap_cons, Option.map_none, List.sum_cons]
        omega
      | some c =>
        simp only [List.zip_cons_cons, List.filterMap_cons, Option.map_some, List.map_cons, List.sum_cons]
        omega

theorem remains_pruneExited {exited : List ℕ} {remainOnExit : Bool} {n : Node} (hn : Formed n) :
    Remains (afterExit exited remainOnExit) n (pruneExited exited remainOnExit n) := by
  induction n using tree_induction with
  | leaf p =>
    rw [pruneExited_leaf]
    exact .leaf p
  | split a children ih =>
    obtain ⟨⟨-, hlen⟩, hall⟩ := formed_split.1 hn
    have hrs : List.Forall₂ (Remains (afterExit exited remainOnExit)) children
        (children.map (pruneExited exited remainOnExit)) :=
      List.forall₂_map_right_iff.2 (List.forall₂_same.2 fun c hc => ih c hc (hall c hc))
    have hkept : pruneChildren exited remainOnExit children a.sizes =
        keptSizes (children.map (pruneExited exited remainOnExit)) a.sizes := by
      rw [pruneChildren_eq hlen, keptSizes, List.zip_map_left, List.filterMap_map]
      rfl
    rw [pruneExited, hkept]
    rcases hcase : keptSizes (children.map (pruneExited exited remainOnExit)) a.sizes with
      _ | ⟨e, _ | ⟨e', kept⟩⟩
    · exact .gone hrs hcase
    · exact .only hrs hcase
    · have htwo : 2 ≤ (keptSizes (children.map (pruneExited exited remainOnExit)) a.sizes).length := by
        simp [hcase]
      rw [← hcase, regroup_of_two _ htwo]
      refine .split hrs htwo fun hlt => redistributed_rebalance ?_ ((sum_keptSizes_le _ _).trans_lt hlt)
      simp [hcase]

/-- The pane that the active path leads to. -/
def Window.focus (w : Window) : Option ℕ := (activePaneMut w.root w.activePath).map Pane.id

/-- The first pane of the recent ones that is left, else the first pane. -/
def nextFocus (root : Node) (mru : List ℕ) : Option ℕ :=
  (mru.find? (· ∈ collectPaneIds root)).or (collectPaneIds root).head?

theorem focus_of_findPathById {root : Node} {id : ℕ} {path : List ℕ} (h : findPathById root id = some path) :
    (activePaneMut root path).map Pane.id = some id := by
  obtain ⟨p, hp, hid⟩ := findPathById_eq_some h
  rw [activePaneMut_eq_some.2 hp, Option.map_some, hid]

theorem findPathById_isSome_iff {root : Node} {id : ℕ} :
    (findPathById root id).isSome ↔ id ∈ collectPaneIds root := by
  constructor
  · intro h
    obtain ⟨path, hpath⟩ := Option.isSome_iff_exists.1 h
    obtain ⟨p, hp, rfl⟩ := findPathById_eq_some hpath
    exact List.mem_map_of_mem (mem_leaves.2 ⟨path, hp⟩)
  · intro h
    obtain ⟨p, hp, rfl⟩ := List.mem_map.1 h
    obtain ⟨path, hpath⟩ := mem_leaves.1 hp
    exact findPathById_isSome hpath

theorem focus_firstLeafPath (root : Node) :
    (activePaneMut root (firstLeafPath root)).map Pane.id = (collectPaneIds root).head? := by
  cases hl : leavesAt root with
  | nil =>
    have hnone : activePaneMut root (firstLeafPath root) = none := by
      refine Option.eq_none_iff_forall_ne_some.2 fun p hp => ?_
      have hmem := mem_leavesAt.2 (activePaneMut_eq_some.1 hp)
      rw [hl] at hmem
      contradiction
    rw [hnone, collectPaneIds, leaves, hl]
    rfl
  | cons l ls =>
    have hp : at? root l.1 = some (.leaf l.2) := mem_leavesAt.1 (by rw [hl]; exact List.mem_cons_self)
    rw [firstLeafPath, hl, collectPaneIds, leaves, hl]
    exact congrArg (Option.map Pane.id) (activePaneMut_eq_some.2 hp)

theorem focus_findSome? (root : Node) (mru : List ℕ) :
    (activePaneMut root ((mru.findSome? (findPathById root)).getD (firstLeafPath root))).map Pane.id =
      nextFocus root mru := by
  induction mru with
  | nil => exact focus_firstLeafPath root
  | cons id mru ih =>
    rw [List.findSome?_cons]
    cases hfind : findPathById root id with
    | some path =>
      have hmem := findPathById_isSome_iff.1 (Option.isSome_iff_exists.2 ⟨path, hfind⟩)
      rw [nextFocus, List.find?_cons_of_pos (by simpa using hmem)]
      exact focus_of_findPathById hfind
    | none =>
      have hmem : id ∉ collectPaneIds root := by
        rw [← findPathById_isSome_iff, hfind]
        simp
      rw [nextFocus, List.find?_cons_of_neg (by simpa using hmem)]
      exact ih

theorem nextFocus_filter (root : Node) (mru : List ℕ) :
    nextFocus root (mru.filter (· ∈ collectPaneIds root)) = nextFocus root mru := by
  rw [nextFocus, nextFocus, List.find?_filter]
  congr 2
  funext id
  simp

/-- After a prune the focus is on the pane it was on, if that is left. -/
theorem focus_pruneWindow {exited : List ℕ} {remainOnExit : Bool} {w : Window} {root : Node}
    (h : pruneExited exited remainOnExit w.root = some root) (hw : Leads w) (hids : w.ids.Nodup) :
    (Server.pruneWindow root w).focus =
      (w.focus.filter (· ∈ collectPaneIds root)).or (nextFocus root w.paneMru) := by
  have hleads := leads_pruneWindow h hw hids
  obtain ⟨p, hp⟩ := hw
  have hactive : w.activePaneId = some p.id := getActivePaneId_of_leaf hp
  have hfocus : w.focus = some p.id := by rw [Window.focus, activePaneMut_eq_some.2 hp, Option.map_some]
  rw [hfocus]
  generalize hmru : (if countPanes root < countPanes w.root then w.paneMru.filter (· ∈ collectPaneIds root)
    else w.paneMru) = mru
  have hnext : nextFocus root mru = nextFocus root w.paneMru := by
    rw [← hmru]
    split
    · exact nextFocus_filter root w.paneMru
    · rfl
  have hprune : Server.pruneWindow root w =
      Server.repairPath (some p.id) { w with root, paneMru := mru } := by
    rw [Server.pruneWindow, hactive, ← hmru]
  rw [hprune] at hleads ⊢
  rw [Server.repairPath] at hleads ⊢
  split at hleads
  · next hmoved =>
    rw [if_pos hmoved]
    by_cases hmem : p.id ∈ collectPaneIds root
    · obtain ⟨path, hpath⟩ := Option.isSome_iff_exists.1 (findPathById_isSome_iff.2 hmem)
      simp only [Window.focus, Option.bind_some, hpath, Option.some_or, Option.getD_some]
      rw [focus_of_findPathById hpath, Option.filter_some, if_pos (by simpa using hmem), Option.some_or]
    · have hnone : findPathById root p.id = none := by
        rw [← Option.not_isSome_iff_eq_none, findPathById_isSome_iff]
        exact hmem
      simp only [Window.focus, Option.bind_some, hnone, Option.none_or]
      rw [focus_findSome?, hnext, Option.filter_some, if_neg (by simpa using hmem), Option.none_or]
  · next hkept =>
    rw [if_neg hkept]
    obtain ⟨q, hq⟩ := hleads
    have hsame : some q.id = some p.id :=
      (getActivePaneId_of_leaf hq).symm.trans (not_not.1 (not_or.1 hkept).1)
    have hmem : p.id ∈ collectPaneIds root := by
      rw [← Option.some.inj hsame]
      exact List.mem_map_of_mem (mem_leaves.2 ⟨_, hq⟩)
    rw [Window.focus, activePaneMut_eq_some.2 hq, Option.map_some, hsame, Option.filter_some,
      if_pos (by simpa using hmem), Option.some_or]

/-- A window as the layout commands build it: its splits have two children or more and a
size for each, its panes have ids of their own, and its active path leads to a pane. -/
structure Proper (w : Window) : Prop where
  formed : Formed w.root
  ids : w.ids.Nodup
  leads : Leads w

/-- What a reap makes of a window that is left. -/
structure ReapedWindow (exited : List ℕ) (remainOnExit : Bool) (w w' : Window) : Prop where
  id : w'.id = w.id
  untouched : hasAnyExited exited w.root = false → w' = w
  panes : leaves w'.root = (leaves w.root).filterMap (afterExit exited remainOnExit)
  tree : hasAnyExited exited w.root = true → Remains (afterExit exited remainOnExit) w.root (some w'.root)
  marked : remainOnExit = true → hasAnyExited exited w.root = true → w'.root = settle exited true w.root
  focus : w'.focus = (w.focus.filter (· ∈ collectPaneIds w'.root)).or (nextFocus w'.root w.paneMru)

theorem afterExit_eq_none {exited : List ℕ} {remainOnExit : Bool} {p : Pane} :
    afterExit exited remainOnExit p = none ↔
      remainOnExit = false ∧ p.dead = false ∧ p.id ∈ exited := by
  rw [afterExit]
  cases remainOnExit <;> cases p.dead <;> by_cases h : p.id ∈ exited <;> simp [h]

theorem afterExit_of_not_any {exited : List ℕ} {remainOnExit : Bool} {n : Node}
    (h : hasAnyExited exited n = false) :
    (leaves n).filterMap (afterExit exited remainOnExit) = leaves n := by
  refine (List.filterMap_congr fun p hp => ?_).trans List.filterMap_some
  have hnot : ¬ (p.dead = false ∧ p.id ∈ exited) := fun hexit => by
    rw [hasAnyExited_iff.2 ⟨p, hp, hexit⟩] at h
    contradiction
  rw [afterExit, if_neg (by simpa using hnot)]

theorem afterExit_isSome (exited : List ℕ) (p : Pane) : (afterExit exited true p).isSome := by
  rw [Option.isSome_iff_ne_none, Ne, afterExit_eq_none]
  simp

/-- A window goes just when each of its panes does. -/
theorem reaped_eq_none {exited : List ℕ} {remainOnExit : Bool} {w : Window} (hw : Leads w) :
    reaped exited remainOnExit w = none ↔
      remainOnExit = false ∧ ∀ p ∈ leaves w.root, p.dead = false ∧ p.id ∈ exited := by
  obtain ⟨p, hp⟩ := hw
  have hmem : p ∈ leaves w.root := mem_leaves.2 ⟨_, hp⟩
  have hall : (∀ q ∈ leaves w.root, afterExit exited remainOnExit q = none) ↔
      remainOnExit = false ∧ ∀ q ∈ leaves w.root, q.dead = false ∧ q.id ∈ exited := by
    simp only [afterExit_eq_none]
    exact ⟨fun h => ⟨(h p hmem).1, fun q hq => (h q hq).2⟩, fun h q hq => ⟨h.1, h.2 q hq⟩⟩
  rw [← hall, ← pruneExited_eq_none, reaped]
  split
  · exact Option.map_eq_none_iff
  · next hany =>
    refine iff_of_false (by simp) fun hnone => hany (hasAnyExited_iff.2 ⟨p, hmem, ?_⟩)
    exact (hall.1 (pruneExited_eq_none.1 hnone)).2 p hmem

theorem reaped_eq_some {exited : List ℕ} {remainOnExit : Bool} {w w' : Window} (hw : Proper w)
    (h : reaped exited remainOnExit w = some w') : ReapedWindow exited remainOnExit w w' := by
  rw [reaped] at h
  split at h
  · next hany =>
    obtain ⟨root, hroot, rfl⟩ := Option.map_eq_some_iff.1 h
    have hkept : (Server.pruneWindow root w).root = root := Server.root_pruneWindow root w
    exact {
      id := id_pruneWindow root w
      untouched := fun hnot => by rw [hany] at hnot; contradiction
      panes := by rw [hkept, leaves_of_pruneExited hroot]
      tree := fun _ => by
        rw [hkept, ← hroot]
        exact remains_pruneExited hw.formed
      marked := fun hremain _ => by
        subst hremain
        rw [pruneExited_settle hw.formed fun p _ => afterExit_isSome exited p] at hroot
        rw [hkept, Option.some.inj hroot]
      focus := by rw [hkept, focus_pruneWindow hroot hw.leads hw.ids] }
  · next hany =>
    obtain rfl := Option.some.inj h
    obtain ⟨p, hp⟩ := hw.leads
    have hmem : p.id ∈ collectPaneIds w.root := List.mem_map_of_mem (mem_leaves.2 ⟨_, hp⟩)
    exact {
      id := rfl
      untouched := fun _ => rfl
      panes := (afterExit_of_not_any (eq_false_of_ne_true hany)).symm
      tree := fun hyes => absurd hyes hany
      marked := fun _ hyes => absurd hyes hany
      focus := by
        rw [Window.focus, activePaneMut_eq_some.2 hp, Option.map_some, Option.filter_some,
          if_pos (by simpa using hmem), Option.some_or] }

namespace Server

theorem exits_eq (exited : List ℕ) (s : Server) (w : Window) :
    s.exits exited w = (reaped exited s.options.remainOnExit w).isNone := by
  rw [exits, reaped]
  cases hasAnyExited exited w.root <;> simp

/-- What a reap of windows as they should be does: each is pruned, marked or gone, in its
place; the active window stays active if it is left; and the two results tell whether a
window is left and whether a process had exited. -/
theorem reap_children {exited : List ℕ} {s : Server} (hall : ∀ w ∈ s.windows, Proper w)
    (hidx : s.activeIdx < s.windows.length) :
    let remain := s.options.remainOnExit
    let s' := (s.reapChildrenNoting exited).1
    s'.windows = s.windows.filterMap (reaped exited remain) ∧
    (∀ w ∈ s.windows,
      (reaped exited remain w = none ↔
        remain = false ∧ ∀ p ∈ leaves w.root, p.dead = false ∧ p.id ∈ exited) ∧
      ∀ w', reaped exited remain w = some w' → ReapedWindow exited remain w w') ∧
    (∀ sizes ≠ [], rebalance sizes = sizes ↔ u16 sizes.sum = 100) ∧
    (∀ w, s.windows[s.activeIdx]? = some w → (reaped exited remain w).isSome → s'.activeId = some w.id) ∧
    (s'.windows ≠ [] → s'.activeIdx < s'.windows.length) ∧
    ((s.reapChildrenNoting exited).2.1 = true ↔ s'.windows = []) ∧
    ((s.reapChildrenNoting exited).2.2 = true ↔
      ∃ w ∈ s.windows, ∃ p ∈ leaves w.root, p.dead = false ∧ p.id ∈ exited) := by
  dsimp only
  obtain ⟨hwindows, hresults⟩ := reapChildrenNoting_spec exited s
  have hreaped := reapedTo_zero exited s
  rw [← fst_reapChildrenNoting] at hreaped
  refine ⟨hwindows, fun w hw => ⟨reaped_eq_none (hall w hw).leads, fun w' h => reaped_eq_some (hall w hw) h⟩,
    fun sizes hne => rebalance_eq_iff hne, fun w hw hsome => ?_, fun hne => ?_, ?_, ?_⟩
  · have hkept : s.gone exited s.activeIdx = false := by
      rw [gone, hw, Option.any_some, exits_eq, Option.isNone_eq_false_iff]
      exact hsome
    rw [hreaped.active hidx hkept]
    exact windowIds_getElem? hw
  · have hlen := List.length_pos_of_ne_nil hne
    have := hreaped.inRange (by omega)
    omega
  · rw [hresults]
    exact List.isEmpty_iff
  · rw [hresults]
    simp [hasAnyExited_iff]

end Server

/-- Two panes after a resize, to be kept when they exit. -/
def resizedHalves : Server :=
  { terminal with
    windows := [⟨1, .split ⟨.horizontal, [110, 1]⟩ [.leaf ⟨1, false⟩, .leaf ⟨2, false⟩], [0], 0, [1, 2], none⟩]
    options := { terminal.options with remainOnExit := true } }

theorem proper_resizedHalves : ∀ w ∈ resizedHalves.windows, Proper w := by
  intro w hw
  obtain rfl := List.mem_singleton.1 hw
  exact ⟨formed_split.2 ⟨⟨by decide, rfl⟩, fun c hc => by
    obtain rfl | rfl : c = .leaf ⟨1, false⟩ ∨ c = .leaf ⟨2, false⟩ := by simpa using hc
    all_goals trivial⟩, by decide, ⟨1, false⟩, rfl⟩

theorem reap_children_halves :
    (resizedHalves.reapChildrenNoting [2]).2.2 = true ∧
      (resizedHalves.reapChildrenNoting [2]).1.activeId = some 1 := by
  obtain ⟨-, -, -, hactive, -, -, hpruned⟩ :=
    @Server.reap_children [2] _ proper_resizedHalves (by decide)
  exact ⟨hpruned.2 ⟨_, List.mem_cons_self, ⟨2, false⟩, by decide, by decide, by decide⟩, hactive _ rfl rfl⟩

/-- A pane kept after its exit still costs its neighbors their sizes. -/
theorem reap_rescales_kept_panes :
    ¬ ∀ (s : Server) (exited : List ℕ), (∀ w ∈ s.windows, Proper w) → s.activeIdx < s.windows.length →
      s.options.remainOnExit = true →
      (s.reapChildrenNoting exited).1.windows.map Window.root =
        s.windows.map fun w => w.root.map id fun p => (afterExit exited true p).getD p := by
  intro h
  have hroots := h resizedHalves [2] proper_resizedHalves (by decide) rfl
  have hsizes := congrArg (fun roots : List Node => roots.map fun n => (labelAt n []).map Split.sizes) hroots
  have hafter : ((resizedHalves.reapChildrenNoting [2]).1.windows.map Window.root).map
      (fun n => (labelAt n []).map Split.sizes) = [some [99, 1]] := by decide
  have hbefore : (resizedHalves.windows.map fun w => w.root.map id fun p =>
      (afterExit [2] true p).getD p).map (fun n => (labelAt n []).map Split.sizes) = [some [110, 1]] := by
    decide
  have : ([some [99, 1]] : List (Option (List ℕ))) = [some [110, 1]] :=
    hafter.symm.trans (hsizes.trans hbefore)
  contradiction

end Winsmux.Layout
