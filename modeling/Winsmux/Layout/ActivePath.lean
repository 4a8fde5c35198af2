import Winsmux.Layout.Conservation

/-!
# The active path

In every window the active path should lead to a pane, so that what is typed goes where
the readers say. Most commands keep that by setting the path to a pane they found; the
others keep it under a condition on the state before, and `KeepsPath` collects these.
-/
namespace Winsmux.Layout
open PathTree Json Transition

/-- A path to a pane. -/
def LeadsTo (n : Node) (path : List ℕ) : Prop := ∃ p, at? n path = some (.leaf p)

def Leads (w : Window) : Prop := LeadsTo w.root w.activePath

theorem leadsTo_of_shape {n m : Node} (h : shape n = shape m) {path : List ℕ} :
    LeadsTo n path ↔ LeadsTo m path := by
  simp only [LeadsTo, at?_leaf_iff_of_shape h]

theorem leadsTo_iff_mem {n : Node} {path : List ℕ} : LeadsTo n path ↔ path ∈ collectPanePaths n :=
  mem_collectPanePaths.symm

theorem LeadsTo.leaves_ne_nil {n : Node} {path : List ℕ} (h : LeadsTo n path) : leaves n ≠ [] := by
  obtain ⟨p, hp⟩ := h
  exact List.ne_nil_of_mem (mem_leaves.2 ⟨path, hp⟩)

theorem Leads.unzoom {w : Window} (h : Leads w) : Leads w.unzoom := by
  rw [Leads, activePath_unzoom, leadsTo_of_shape (shape_unzoom w)]
  exact h

/-- What is left when a pane goes is not empty. -/
def OutlivesKill (n : Node) : Prop := 1 < countPanes n ∨ full n = true

theorem full_collapse {kind : LayoutKind} {children : List Node} (hne : children ≠ [])
    (hall : ∀ c ∈ children, full c = true) : full (collapse kind children) = true := by
  rw [collapse.eq_def]
  split
  · next c => exact hall c List.mem_cons_self
  · exact full_split.2 ⟨hne, hall⟩

theorem full_removeNode {n m : Node} {path : List ℕ} (h : removeNode n path = .ok m)
    (hn : full n = true) : full m = true := by
  induction path generalizing n m with
  | nil =>
    cases n with
    | leaf p =>
      rw [removeNode_leaf] at h
      rw [← Except.ok.inj h]
      exact hn
    | split a children =>
      rw [← Except.ok.inj h]
      exact hn
  | cons i path ih =>
    cases n with
    | leaf p =>
      rw [removeNode_leaf] at h
      rw [← Except.ok.inj h]
      exact hn
    | split a children =>
      obtain ⟨left, rfl, hne, hleft⟩ := removeNode_eq_ok h
      have hall := (full_split.1 hn).2
      refine full_collapse hne ?_
      obtain ⟨-, rfl⟩ | ⟨-, -, rfl⟩ | ⟨c, d, -, hc, hd, rfl⟩ := hleft
      · exact fun e he => hall e (List.mem_of_mem_eraseIdx he)
      · exact hall
      · intro e he
        obtain he | rfl := List.mem_or_eq_of_mem_set he
        · exact hall e he
        · exact ih hd (hall c (List.mem_of_getElem? hc))

/-- A removed pane is the only one that goes. -/
theorem leaves_removeNode_of_leaf {n m : Node} {i : ℕ} {path : List ℕ} {p : Pane}
    (hp : at? n (i :: path) = some (.leaf p)) (h : removeNode n (i :: path) = .ok m) :
    (leaves n).Perm (p :: leaves m) := by
  induction path generalizing n m i with
  | nil =>
    cases n with
    | leaf q => simp at hp
    | split a children =>
      have hc : children[i]? = some (.leaf p) := by simpa using hp
      obtain ⟨left, rfl, -, ⟨-, rfl⟩ | ⟨hne, -⟩ | ⟨-, -, hne, -⟩⟩ := removeNode_eq_ok h
      · obtain ⟨pre, post, h1, -, h3⟩ := flatMap_leaves_set hc (.leaf p)
        rw [leaves_collapse, leaves_split, h1, h3, leaves_leaf]
        simp
      · exact absurd rfl hne
      · exact absurd rfl hne
  | cons j path ih =>
    cases n with
    | leaf q => simp at hp
    | split a children =>
      obtain ⟨c, hc, hcp⟩ := Option.bind_eq_some_iff.1 (show (children[i]?.bind _) = _ from hp)
      obtain ⟨left, rfl, -, ⟨he, -⟩ | ⟨-, hnone, -⟩ | ⟨c', d, -, hc', hd, rfl⟩⟩ := removeNode_eq_ok h
      · exact absurd he (List.cons_ne_nil j path)
      · rw [hc] at hnone
        contradiction
      · obtain rfl := Option.some.inj (hc.symm.trans hc')
        obtain ⟨pre, post, h1, h2, -⟩ := flatMap_leaves_set hc d
        rw [leaves_collapse, leaves_split, h1, h2]
        have hmid := ((ih hcp hd).append_left pre).append_right post
        refine hmid.trans ?_
        simp

theorem leaves_removeNode_ne_nil {n m : Node} {path : List ℕ} (hp : LeadsTo n path)
    (hn : OutlivesKill n) (h : removeNode n path = .ok m) : leaves m ≠ [] := by
  obtain ⟨p, hp⟩ := hp
  obtain hcount | hfull := hn
  · cases path with
    | nil =>
      obtain rfl : n = .leaf p := by simpa using hp
      rw [removeNode_leaf] at h
      rw [← Except.ok.inj h]
      exact List.cons_ne_nil p []
    | cons i path =>
      have hlen := (leaves_removeNode_of_leaf hp h).length_eq
      rw [List.length_cons, ← countPanes] at hlen
      intro he
      rw [he, List.length_nil] at hlen
      omega
  · exact leaves_ne_nil_of_full (full_removeNode h hfull)

theorem full_extractNode {n rest : Node} {path : List ℕ} (h : (extractNode n path).1 = some rest)
    (hn : full n = true) : full rest = true := by
  induction path generalizing n rest with
  | nil => cases n <;> simp [extractNode] at h
  | cons i path ih =>
    cases n with
    | leaf p =>
      rw [extractNode] at h
      rw [← Option.some.inj h]
      exact hn
    | split a children =>
      have hall := (full_split.1 hn).2
      cases hc : children[i]? with
      | none =>
        simp only [extractNode, hc] at h
        rw [← Option.some.inj h]
        exact hn
      | some c =>
        simp only [extractNode, hc] at h
        cases hr : (extractNode c path).1 with
        | none =>
          simp only [hr] at h
          split at h
          · contradiction
          · next hne =>
            rw [← Option.some.inj h]
            exact full_collapse hne fun e he => hall e (List.mem_of_mem_eraseIdx he)
        | some r =>
          simp only [hr] at h
          split at h
          · contradiction
          · next hne =>
            rw [← Option.some.inj h]
            refine full_collapse hne fun e he => ?_
            obtain he | rfl := List.mem_or_eq_of_mem_set he
            · exact hall e he
            · exact ih hr (hall c (List.mem_of_getElem? hc))

theorem leaves_extractNode_ne_nil {n rest u : Node} {path : List ℕ} (hp : LeadsTo n path)
    (hn : OutlivesKill n) (h : extractNode n path = (some rest, some u)) : leaves rest ≠ [] := by
  obtain ⟨p, hp⟩ := hp
  obtain hcount | hfull := hn
  · have hlen := (leaves_extractNode n path).length_eq
    have hu := extractNode_snd n path
    rw [h, hp] at hu
    rw [h, Option.some.inj hu, List.length_append, ← countPanes] at hlen
    intro he
    simp only [leavesOf, Option.elim, he, List.length_nil, leaves_leaf, List.length_singleton] at hlen
    omega
  · exact leaves_ne_nil_of_full (full_extractNode (by rw [h]) hfull)

theorem mem_pruneChildren {exited : List ℕ} {remainOnExit : Bool} {cs : List Node} {sizes : List ℕ}
    {e : Node × ℕ} (h : e ∈ pruneChildren exited remainOnExit cs sizes) :
    ∃ (i : ℕ) (c : Node), cs[i]? = some c ∧ pruneExited exited remainOnExit c = some e.1 := by
  induction cs generalizing sizes with
  | nil => simp [pruneChildren] at h
  | cons c cs ih =>
    have hrest : e ∈ pruneChildren exited remainOnExit cs sizes.tail →
        ∃ (i : ℕ) (d : Node), (c :: cs)[i]? = some d ∧ pruneExited exited remainOnExit d = some e.1 := by
      intro he
      obtain ⟨i, d, hd, hp⟩ := ih he
      exact ⟨i + 1, d, by simpa using hd, hp⟩
    rw [pruneChildren] at h
    split at h
    · next d hd =>
      obtain rfl | he := List.mem_cons.1 h
      · exact ⟨0, c, rfl, hd⟩
      · exact hrest he
    · exact hrest h

theorem regroup_eq_some {kind : LayoutKind} {kept : List (Node × ℕ)} {m : Node}
    (h : regroup kind kept = some m) :
    (∃ e, kept = [e] ∧ m = e.1) ∨
      2 ≤ kept.length ∧ ∃ sizes, m = .split ⟨kind, sizes⟩ (kept.map Prod.fst) := by
  rw [regroup.eq_def] at h
  split at h
  · contradiction
  · next e => exact .inl ⟨e, rfl, (Option.some.inj h).symm⟩
  · next hnil hone =>
    refine .inr ⟨?_, _, (Option.some.inj h).symm⟩
    cases kept with
    | nil => exact absurd rfl hnil
    | cons e rest =>
      cases rest with
      | nil => exact absurd rfl (hone e)
      | cons d rest => simp

/-- A pane that a prune leaves was there, no higher up. -/
theorem leavesAt_pruneExited {exited : List ℕ} {remainOnExit : Bool} {n m : Node}
    (h : pruneExited exited remainOnExit n = some m) :
    leaves m ≠ [] ∧ ∀ q p, at? m q = some (.leaf p) →
      ∃ q' p', at? n q' = some (.leaf p') ∧ p'.id = p.id ∧ q.length ≤ q'.length := by
  induction n using tree_induction generalizing m with
  | leaf p =>
    have hid : ∃ p' : Pane, m = .leaf p' ∧ p'.id = p.id := by
      rw [pruneExited] at h
      split at h
      · exact ⟨p, (Option.some.inj h).symm, rfl⟩
      · split at h
        · split at h
          · exact ⟨_, (Option.some.inj h).symm, rfl⟩
          · contradiction
        · exact ⟨p, (Option.some.inj h).symm, rfl⟩
    obtain ⟨p', rfl, hid⟩ := hid
    refine ⟨List.cons_ne_nil p' [], fun q r hq => ?_⟩
    cases q with
    | nil =>
      obtain rfl : p' = r := by simpa using hq
      exact ⟨[], p, at?_nil _, hid.symm, le_rfl⟩
    | cons i q => simp at hq
  | split a children ih =>
    have hkept : ∀ e ∈ pruneChildren exited remainOnExit children a.sizes,
        leaves e.1 ≠ [] ∧ ∀ q p, at? e.1 q = some (.leaf p) →
          ∃ q' p', at? (.split a children) q' = some (.leaf p') ∧ p'.id = p.id ∧
            q.length + 1 ≤ q'.length := by
      intro e he
      obtain ⟨i, c, hc, hp⟩ := mem_pruneChildren he
      obtain ⟨hne, horigin⟩ := ih c (List.mem_of_getElem? hc) hp
      refine ⟨hne, fun q p hq => ?_⟩
      obtain ⟨q', p', hq', hid, hlen⟩ := horigin q p hq
      refine ⟨i :: q', p', ?_, hid, ?_⟩
      · rw [at?_split_cons, hc]
        exact hq'
      · rw [List.length_cons]
        omega
    rw [pruneExited] at h
    obtain ⟨e, he, rfl⟩ | ⟨htwo, sizes, rfl⟩ := regroup_eq_some h
    · obtain ⟨hne, horigin⟩ := hkept e (by rw [he]; exact List.mem_cons_self)
      refine ⟨hne, fun q p hq => ?_⟩
      obtain ⟨q', p', hq', hid, hlen⟩ := horigin q p hq
      exact ⟨q', p', hq', hid, by omega⟩
    · generalize pruneChildren exited remainOnExit children a.sizes = kept at hkept htwo
      constructor
      · obtain ⟨e, rest, rfl⟩ := List.exists_cons_of_length_pos (show 0 < kept.length by omega)
        rw [leaves_split, List.map_cons, List.flatMap_cons]
        exact fun he => (hkept e List.mem_cons_self).1 (List.append_eq_nil_iff.1 he).1
      · intro q p hq
        cases q with
        | nil => simp at hq
        | cons j q =>
          obtain ⟨d, hd, hq⟩ := Option.bind_eq_some_iff.1 hq
          rw [List.getElem?_map] at hd
          obtain ⟨e, he, rfl⟩ := Option.map_eq_some_iff.1 hd
          exact (hkept e (List.mem_of_getElem? he)).2 q p hq

/-- The pane a read takes lies below the path. -/
theorem firstPaneId_eq_some {n : Node} {id : ℕ} (h : firstPaneId n = some id) :
    ∃ q p, at? n q = some (.leaf p) ∧ p.id = id := by
  induction n using tree_induction with
  | leaf p => exact ⟨[], p, at?_nil _, Option.some.inj h⟩
  | split a children ih =>
    cases children with
    | nil => contradiction
    | cons c cs =>
      obtain ⟨q, p, hq, hid⟩ := ih c List.mem_cons_self h
      exact ⟨0 :: q, p, hq, hid⟩

theorem getActivePaneId_of_split {n : Node} {path : List ℕ} {a : Split} {children : List Node} {id : ℕ}
    (hat : at? n path = some (.split a children)) (h : getActivePaneId n path = some id) :
    ∃ q p, at? n q = some (.leaf p) ∧ p.id = id ∧ path.length < q.length := by
  induction path generalizing n with
  | nil =>
    obtain rfl : n = .split a children := by simpa using hat
    cases children with
    | nil => contradiction
    | cons c cs =>
      obtain ⟨q, p, hq, hid⟩ := firstPaneId_eq_some (show firstPaneId c = some id from h)
      exact ⟨0 :: q, p, hq, hid, by simp⟩
  | cons i path ih =>
    cases n with
    | leaf p => simp at hat
    | split b cs =>
      obtain ⟨c, hc, hat⟩ := Option.bind_eq_some_iff.1 hat
      rw [getActivePaneId, hc] at h
      obtain ⟨q, p, hq, hid, hlen⟩ := ih hat h
      refine ⟨i :: q, p, ?_, hid, by simpa using hlen⟩
      rw [at?_split_cons, hc]
      exact hq

theorem leadsTo_repaired {found : Option (List ℕ)} {n : Node} (hn : leaves n ≠ [])
    (hfound : ∀ path ∈ found, LeadsTo n path) : LeadsTo n (found.getD (firstLeafPath n)) := by
  cases found with
  | none => exact firstLeafPath_leaf hn
  | some path => exact hfound path rfl

theorem leadsTo_findPathById {n : Node} {id : ℕ} {path : List ℕ} (h : findPathById n id = some path) :
    LeadsTo n path := by
  obtain ⟨p, hp, -⟩ := findPathById_eq_some h
  exact ⟨p, hp⟩

/-- A repaired path is right, where the path that is kept is. -/
theorem leads_repairPath {activeId : Option ℕ} {w : Window} (hn : leaves w.root ≠ [])
    (hkeep : w.activePaneId = activeId → ∀ u, at? w.root w.activePath = some u → Leads w) :
    Leads (Server.repairPath activeId w) := by
  rw [Server.repairPath]
  split
  · refine leadsTo_repaired hn fun path hpath => ?_
    obtain hpath | ⟨-, hpath⟩ := Option.or_eq_some_iff.1 hpath
    · obtain ⟨id, -, hid⟩ := Option.bind_eq_some_iff.1 hpath
      exact leadsTo_findPathById hid
    · obtain ⟨id, -, hid⟩ := List.exists_of_findSome?_eq_some hpath
      exact leadsTo_findPathById hid
  · next h =>
    obtain ⟨hsame, hexists⟩ := not_or.1 h
    have hexists : at? w.root w.activePath ≠ none := by simpa [pathExists] using hexists
    obtain ⟨u, hu⟩ := Option.ne_none_iff_exists'.1 hexists
    exact hkeep (not_not.1 hsame) u hu

/-- After a prune the path is right: where it was kept, it leads to the pane it led to. -/
theorem leads_pruneWindow {exited : List ℕ} {remainOnExit : Bool} {w : Window} {root : Node}
    (h : pruneExited exited remainOnExit w.root = some root) (hw : Leads w) (hids : w.ids.Nodup) :
    Leads (Server.pruneWindow root w) := by
  obtain ⟨hne, horigin⟩ := leavesAt_pruneExited h
  obtain ⟨p, hp⟩ := hw
  have hactive : w.activePaneId = some p.id := getActivePaneId_of_leaf hp
  refine leads_repairPath hne fun hsame u hu => ?_
  have hsame : getActivePaneId root w.activePath = some p.id := hsame.trans hactive
  cases u with
  | leaf q => exact ⟨q, hu⟩
  | split a children =>
    obtain ⟨q, r, hq, hid, hlen⟩ := getActivePaneId_of_split hu hsame
    obtain ⟨q', r', hq', hid', hlen'⟩ := horigin q r hq
    have hpath : q' = w.activePath :=
      path_unique (Multiset.coe_nodup.1 hids) hq' hp (hid'.trans hid)
    rw [hpath] at hlen'
    have hlen : w.activePath.length < q.length := hlen
    omega

theorem leadsTo_moveFocus {area : Rect} {dir : FocusDir} {w : Window} (hw : Leads w) :
    LeadsTo w.root (moveFocus area dir w).activePath := by
  simp only [moveFocus]
  split
  · exact hw
  · split
    · exact hw
    · split
      · exact hw
      · next l hl =>
        refine leadsTo_iff_mem.2 ?_
        rw [← map_fst_computeRects w.root area]
        exact List.mem_map_of_mem (List.mem_of_getElem? hl)

theorem leadsTo_rect {n : Node} {area : Rect} {l : List ℕ × Rect} (h : l ∈ computeRects n area) :
    LeadsTo n l.1 := by
  refine leadsTo_iff_mem.2 ?_
  rw [← map_fst_computeRects n area]
  exact List.mem_map_of_mem h

theorem leadsTo_cyclePane {step : ℕ → ℕ → ℕ} {w : Window} (hw : Leads w) :
    LeadsTo w.root ((cyclePane step w).getD w.activePath) := by
  cases h : cyclePane step w with
  | none => exact hw
  | some path =>
    rw [cyclePane] at h
    split at h
    · exact leadsTo_iff_mem.2 (List.mem_of_getElem? h)
    · contradiction

theorem leadsTo_nthPanePath {idx : ℕ} {w : Window} (hw : Leads w) :
    LeadsTo w.root ((Server.nthPanePath idx w).getD w.activePath) := by
  cases h : Server.nthPanePath idx w with
  | none => exact hw
  | some path => exact leadsTo_iff_mem.2 (List.mem_of_getElem? h)

theorem leadsTo_displayPath {s : Server} {digit : ℕ} {w : Window} (hw : Leads w) :
    LeadsTo w.root (displayPath s digit w) := by
  rw [displayPath]
  generalize hl : List.find? _ _ = label
  cases label with
  | none => exact hw
  | some l =>
    have hmem := List.mem_of_find?_eq_some hl
    rw [Option.elim_some]
    exact leadsTo_rect (List.mem_of_mem_take (List.fst_mem_of_mem_zipIdx hmem))

theorem leadsTo_clickPath {s : Server} {x y : ℕ} {w : Window} (hw : Leads w) :
    LeadsTo w.root (clickPath s x y w) := by
  rw [clickPath]
  generalize hl : List.getLast? _ = last
  cases last with
  | none => exact hw
  | some l => exact leadsTo_rect (List.mem_filter.1 (List.mem_of_getLast? hl)).1

theorem leadsTo_paneMousePath {s : Server} {paneId : ℕ} {w : Window} (hw : Leads w) :
    LeadsTo w.root (paneMousePath s paneId w) := by
  rw [paneMousePath]
  generalize hl : List.find? _ _ = path
  cases path with
  | none => exact hw
  | some path =>
    obtain ⟨l, hmem, rfl⟩ := List.mem_map.1 (List.mem_of_find?_eq_some hl)
    exact leadsTo_rect hmem

/-- All but the two ways back to the last pane land on a pane. -/
theorem leadsTo_landing {s : Server} {c : Command} {i : ℕ} {path : List ℕ} {w : Window}
    (h : landing s c = some (i, path)) (hw : s.windows[i]? = some w) (hleads : Leads w)
    (hlast : c = .selectPane .last → s.lastPanePath = [] ∨ LeadsTo w.root s.lastPanePath)
    (hback : c = .lastPane → LeadsTo w.root (s.lastPanePathIn w)) : LeadsTo w.root path := by
  have hin : ∀ {f : Window → List ℕ},
      s.windows[s.activeIdx]?.map (fun w => (s.activeIdx, f w)) = some (i, path) →
      LeadsTo w.root (f w) → LeadsTo w.root path := by
    intro f hf hl
    obtain ⟨v, hv, he⟩ := Option.map_eq_some_iff.1 hf
    obtain ⟨rfl, rfl⟩ := Prod.mk.inj he
    obtain rfl : v = w := Option.some.inj (hv.symm.trans hw)
    exact hl
  have hdir : ∀ dir, LeadsTo w.root (directionPath s.lastWindowArea dir w) := by
    intro dir
    rw [← leadsTo_of_shape (shape_unzoom w)]
    exact leadsTo_moveFocus hleads.unzoom
  have hfind : ∀ {pid : ℕ}, s.findPane pid = some (i, path) → LeadsTo w.root path := by
    intro pid hf
    obtain ⟨v, hv, hpath⟩ := Server.findPane_eq_some hf
    obtain rfl : v = w := Option.some.inj (hv.symm.trans hw)
    exact leadsTo_findPathById hpath
  cases c with
  | swapPane dir => exact hin h (hdir dir)
  | selectPane target =>
    cases target with
    | dir dir => exact hin h (hdir dir)
    | last =>
      refine hin h ?_
      split
      · exact hleads
      · next hne => exact (hlast rfl).resolve_left hne
    | next => exact hin h (leadsTo_cyclePane hleads)
    | prev => exact hin h (leadsTo_cyclePane hleads)
  | lastPane => exact hin h (hback rfl)
  | displayPaneSelect digit => exact hin h (leadsTo_displayPath hleads)
  | focusPane pid => exact hfind h
  | focusPaneByIndex idx checked => exact hin h (leadsTo_nthPanePath hleads)
  | focusPaneTemp pid => exact hfind h
  | focusPaneByIndexTemp idx => exact hin h (leadsTo_nthPanePath hleads)
  | restoreFocus =>
    obtain ⟨⟨idx, paneId⟩, -, hr⟩ := Option.bind_eq_some_iff.1 h
    obtain ⟨v, hv, he⟩ := Option.map_eq_some_iff.1 hr
    obtain ⟨rfl, rfl⟩ := Prod.mk.inj he
    obtain rfl : v = w := Option.some.inj (hv.symm.trans hw)
    cases hf : findPathById v.root paneId with
    | none => exact hleads
    | some path => exact leadsTo_findPathById hf
  | mouseDown x y => exact hin h (leadsTo_clickPath hleads)
  | paneMouse paneId => exact hin h (leadsTo_paneMousePath hleads)
  | _ => contradiction

/-- The pane that a rotation brings to the first index of the active path stands where the
rest of the path goes. -/
def RotatesToPane (reverse : Bool) (w : Window) : Prop :=
  ∀ a children, w.root = .split a children → 2 ≤ children.length →
    ∃ i rest c, w.activePath = i :: rest ∧
      children[(i + if reverse then 1 else children.length - 1) % children.length]? = some c ∧
      LeadsTo c rest

/-- A layout over the panes of a window leaves a pane; over one pane, that is the root. -/
def LayoutFills (options : Options) (layout : Text) (w : Window) : Prop :=
  LeadsTo w.root [] ∨
    2 ≤ countPanes w.root ∧
      (LayoutNamed options layout w ∨
        ∀ l, parseLayoutString layout = some l → 1 ≤ l.countLeaves ∧ l.countLeaves ≤ countPanes w.root)

/-- The state before a command after which every active path leads to a pane. -/
def KeepsPath (s : Server) : Command → Prop
  | .splitWindow _ _ refused detached .. => ¬ (refused = true ∧ detached = true)
  | .killPane | .breakPane => ∀ w ∈ s.windows[s.activeIdx]?, OutlivesKill w.root
  | .killPaneById pid => ∀ w ∈ s.windows, pid ∈ w.ids → OutlivesKill w.root
  | .joinPane targetWin | .movePane targetWin =>
    ¬ (targetWin < s.windows.length ∧ targetWin ≠ s.activeIdx)
  | .rotateWindow reverse => ∀ w ∈ s.windows[s.activeIdx]?, RotatesToPane reverse w
  | .selectPane .last =>
    ∀ w ∈ s.windows[s.activeIdx]?, s.lastPanePath = [] ∨ LeadsTo w.root s.lastPanePath
  | .lastPane => ∀ w ∈ s.windows[s.activeIdx]?, LeadsTo w.root (s.lastPanePathIn w)
  | .selectLayout layout => ∀ w ∈ s.windows[s.activeIdx]?, LayoutFills s.options layout w
  | .nextLayout | .prevLayout =>
    ∀ w ∈ s.windows[s.activeIdx]?, LeadsTo w.root [] ∨ 2 ≤ countPanes w.root
  | _ => True

theorem leads_splitPane {kind : LayoutKind} {id : ℕ} {w w' : Window} (hw : Leads w)
    (h : Server.splitPane kind id w = .ok w') :
    w'.activePath = w.activePath ++ [1] ∧ Leads w' ∧ LeadsTo w'.root (w.activePath ++ [0]) := by
  obtain ⟨root, hroot, h⟩ := bind_eq_ok.1 h
  rw [← Except.ok.inj h]
  obtain ⟨p, hp⟩ := hw
  obtain ⟨ht, -⟩ | ⟨u, hu, rfl⟩ := replaceLeafWithSplit_eq_ok hroot
  · rw [throughLeaf_of_at? hp] at ht
    contradiction
  · obtain rfl : u = .leaf p := Option.some.inj (hu.symm.trans hp)
    exact ⟨rfl, ⟨⟨id, false⟩, by rw [at?_modifyAt hu]; rfl⟩, ⟨p, by rw [at?_modifyAt hu]; rfl⟩⟩

theorem leads_splitEdit {kind : LayoutKind} {id : ℕ} {refused detached : Bool} {pct : Option ℕ}
    {w w' : Window} (hw : Leads w) (hok : ¬ (refused = true ∧ detached = true))
    (h : Server.splitEdit kind id refused detached pct w = .ok w') : Leads w' := by
  obtain ⟨w1, h1, h⟩ := bind_eq_ok.1 h
  obtain ⟨w2, h2, h⟩ := bind_eq_ok.1 h
  have hshape : shape w2.root = shape w1.root ∧ w2.activePath = w1.activePath := by
    cases pct with
    | none =>
      rw [Except.ok.inj h2]
      exact ⟨rfl, rfl⟩
    | some pct => exact setSplitPercent_eq_ok h2
  rw [← Except.ok.inj h]
  cases refused with
  | true =>
    cases detached with
    | true => exact absurd ⟨rfl, rfl⟩ hok
    | false =>
      rw [← Except.ok.inj h1] at hshape
      show LeadsTo w2.root w2.activePath
      rw [hshape.2, leadsTo_of_shape hshape.1]
      exact hw.unzoom
  | false =>
    obtain ⟨hpath, hone, hzero⟩ := leads_splitPane hw.unzoom h1
    cases detached with
    | true =>
      show LeadsTo w2.root (w.activePath ++ [0])
      rw [leadsTo_of_shape hshape.1, ← activePath_unzoom w]
      exact hzero
    | false =>
      show LeadsTo w2.root w2.activePath
      rw [hshape.2, leadsTo_of_shape hshape.1]
      exact hone

theorem leads_killPaneAtPath {path : List ℕ} {w w' : Window} (hp : LeadsTo w.root path)
    (hn : OutlivesKill w.root) (h : killPaneAtPath path w = .ok w') : Leads w' := by
  obtain ⟨root, hroot, h⟩ := bind_eq_ok.1 h
  rw [← Except.ok.inj h]
  refine leadsTo_repaired (leaves_removeNode_ne_nil hp hn hroot) fun q hq => ?_
  obtain ⟨id, -, hid⟩ := List.exists_of_findSome?_eq_some hq
  exact leadsTo_findPathById hid

theorem OutlivesKill.unzoom {w : Window} (h : OutlivesKill w.root) : OutlivesKill w.unzoom.root := by
  have hshape := shape_unzoom w
  rw [OutlivesKill, countPanes, leaves_eq_of_shape hshape, ← full_shape, hshape, full_shape]
  exact h

theorem leads_rotatePanes {reverse : Bool} {w : Window} (hw : Leads w) (hok : RotatesToPane reverse w) :
    Leads (rotatePanes reverse w) := by
  rw [rotatePanes]
  split
  · next a children hroot =>
    split
    · next htwo =>
      obtain ⟨i, rest, c, hpath, hc, p, hp⟩ := hok a children hroot htwo
      obtain ⟨q, hq⟩ := hw
      rw [hroot, hpath, at?_split_cons] at hq
      obtain ⟨d, hd, -⟩ := Option.bind_eq_some_iff.1 hq
      have hi := (List.getElem?_eq_some_iff.1 hd).1
      have hk : (if reverse then 1 else children.length - 1) ≤ children.length := by
        split <;> omega
      refine ⟨p, ?_⟩
      dsimp only
      rw [hpath, at?_split_cons, ← List.rotate_eq_drop_append_take hk, List.getElem?_rotate hi, hc]
      exact hp
    · exact hw
  · exact hw

theorem leads_applyLayout {options : Options} {layout : Text} {w : Window} (hw : Leads w)
    (hok : LayoutFills options layout w) : Leads (applyLayout options layout w) := by
  obtain ⟨p, hp⟩ | ⟨htwo, hfits⟩ := hok
  · have hp : w.root = .leaf p := by simpa using hp
    have hpanes : collectLeaves w.root = [.leaf p] := by rw [hp]; rfl
    rw [Leads, hp] at hw
    rw [applyLayout, hpanes]
    exact hw
  · have hlen : (collectLeaves w.root).length = countPanes w.root := List.length_map ..
    have hids : (applyLayout options layout w).ids ≠ 0 := by
      have hcard := card_idsIn w.root
      by_cases hnamed : LayoutNamed options layout w
      · rw [ids_applyLayout_of_named hnamed]
        intro he
        rw [← Window.ids, he, Multiset.card_zero] at hcard
        omega
      · rw [ids_applyLayout_of_string hnamed]
        cases hl : parseLayoutString layout with
        | none =>
          intro he
          have he : w.ids = 0 := he
          rw [← Window.ids, he, Multiset.card_zero] at hcard
          omega
        | some l =>
          obtain ⟨hpos, hle⟩ := hfits.resolve_left hnamed l hl
          simp only [if_pos hle]
          intro he
          have hzero := congrArg Multiset.card he
          rw [Multiset.coe_card, List.length_map, List.length_take, ← countPanes,
            Multiset.card_zero] at hzero
          omega
    rw [applyLayout] at hids ⊢
    dsimp only at hids ⊢
    rw [if_neg (by omega)] at hids ⊢
    exact firstLeafPath_leaf fun he => hids (Server.idsIn_eq_zero.2 he)

theorem leads_cycleLayoutBy {step : ℕ} {options : Options} {w : Window} (hw : Leads w)
    (hok : LeadsTo w.root [] ∨ 2 ≤ countPanes w.root) :
    Leads (cycleLayoutBy step options w) := by
  rw [cycleLayoutBy]
  split
  · exact hw
  · next a children hroot =>
    have hidx : (w.layoutIndex + step) % layoutNames.length < layoutNames.length :=
      Nat.mod_lt _ (by decide)
    obtain ⟨p, hp⟩ | htwo := hok
    · rw [hroot, at?_nil] at hp
      cases hp
    · refine leads_applyLayout hw (.inr ⟨htwo, .inl (.inr ?_)⟩)
      rw [List.getD_eq_getElem?_getD, List.getElem?_eq_getElem hidx, Option.getD_some]
      exact namedLayout_layoutNames (List.getElem_mem hidx) ..

theorem leads_ownWindow {wid : ℕ} {u : Node} {mru : List ℕ} (h : LeadsTo u []) :
    Leads (ownWindow wid u mru) := h

/-- Windows that were there, but for one edited. -/
theorem forall_set {α : Type*} {P : α → Prop} {l : List α} {i : ℕ} {a : α} (hl : ∀ b ∈ l, P b)
    (ha : P a) : ∀ b ∈ l.set i a, P b := by
  intro b hb
  obtain hb | rfl := List.mem_or_eq_of_mem_set hb
  · exact hl b hb
  · exact ha

theorem forall_eraseIdx {α : Type*} {P : α → Prop} {l : List α} {i : ℕ} (hl : ∀ b ∈ l, P b) :
    ∀ b ∈ l.eraseIdx i, P b := fun b hb => hl b (List.mem_of_mem_eraseIdx hb)

/-- The windows after a pane was taken lead to panes, and so does the pane. -/
theorem leads_taken {windows ws : List Window} {i : ℕ} {w : Window} {pane : Option Node}
    (hall : ∀ w ∈ windows, Leads w) (hw : Leads w) (hn : OutlivesKill w.root)
    (h : Taken windows i w pane ws) :
    (∀ w ∈ ws, Leads w) ∧ ∀ u ∈ pane, LeadsTo u [] := by
  obtain ⟨p, hp⟩ := hw
  have hu : ∀ {rest u : Option Node}, extractNode w.root w.activePath = (rest, u) → u = some (.leaf p) := by
    intro rest u he
    rw [← hp, ← extractNode_snd, he]
  cases h with
  | some he =>
    refine ⟨forall_set hall (firstLeafPath_leaf (leaves_extractNode_ne_nil ⟨p, hp⟩ hn he)), ?_⟩
    intro u hmem
    rw [hu he] at hmem
    exact ⟨p, by rw [← Option.some.inj hmem]; rfl⟩
  | last he =>
    refine ⟨forall_eraseIdx hall, ?_⟩
    intro u hmem
    rw [hu he] at hmem
    exact ⟨p, by rw [← Option.some.inj hmem]; rfl⟩
  | astray he => exact absurd (hu he) (Option.some_ne_none _).symm

namespace Server
variable {s s' : Server} {c : Command}

theorem leads_refocus {windows : List Window} (hall : ∀ w ∈ s.windows, Leads w) (hok : KeepsPath s c)
    (h : Refocus s c windows) : ∀ w ∈ windows, Leads w := by
  have hland : ∀ {i : ℕ} {path : List ℕ} {w : Window}, landing s c = some (i, path) →
      s.windows[i]? = some w → LeadsTo w.root path := by
    intro i path w hl hw
    refine leadsTo_landing hl hw (hall w (List.mem_of_getElem? hw)) (fun hc => ?_) fun hc => ?_
    · subst hc
      obtain ⟨v, hv, he⟩ := Option.map_eq_some_iff.1 hl
      obtain ⟨rfl, -⟩ := Prod.mk.inj he
      exact hok w hw
    · subst hc
      obtain ⟨v, hv, he⟩ := Option.map_eq_some_iff.1 hl
      obtain ⟨rfl, -⟩ := Prod.mk.inj he
      exact hok w hw
  cases h with
  | same => exact hall
  | kept mru hl hw _ =>
    have hleads := hland hl hw
    exact forall_set hall hleads
  | @ended i path w mru hl hw _ =>
    have hleads := hland hl hw
    exact forall_set hall (Leads.unzoom (w := w.focused path mru) hleads)
  | @rezoomed _ w _ hw _ =>
    refine forall_set hall ?_
    rw [Leads, activePath_toggleZoom, leadsTo_of_shape (shape_toggleZoom w.unzoom)]
    exact (hall w (List.mem_of_getElem? hw)).unzoom

theorem leads_edits {f : Window → Window} (hall : ∀ w ∈ s.windows, Leads w)
    (h : Edits (fun w => .ok (f w)) s s')
    (hf : ∀ w, s.windows[s.activeIdx]? = some w → Leads w → Leads (f w)) :
    ∀ w ∈ s'.windows, Leads w := by
  obtain ⟨w, w', hw, hw', hs⟩ := h.windows_eq
  rw [hs, ← Except.ok.inj hw']
  exact forall_set hall (hf w hw (hall w (List.mem_of_getElem? hw)))

theorem leads_killPaneById {pid : ℕ} (hall : ∀ w ∈ s.windows, Leads w)
    (hok : KeepsPath s (.killPaneById pid)) (h : s.killPaneById pid = .ok s') :
    ∀ w ∈ s'.windows, Leads w := by
  have hmem : ∀ {t : Window} {path : List ℕ}, findPathById t.root pid = some path → pid ∈ t.ids := by
    intro t path hf
    obtain ⟨p, hp, hid⟩ := findPathById_eq_some hf
    exact Multiset.mem_coe.2 (List.mem_map.2 ⟨p, mem_leaves.2 ⟨path, hp⟩, hid⟩)
  obtain ⟨w, hw, hs | ⟨path, w', hf, hw', hs⟩ | ⟨j, path, t, t', -, ht, hf, ht', hs⟩⟩ :=
    killPaneById_eq_ok h
  · rw [hs]
    exact forall_set hall (hall w (List.mem_of_getElem? hw)).unzoom
  · have hpid : pid ∈ w.ids := ids_unzoom w ▸ hmem hf
    have hn := (hok w (List.mem_of_getElem? hw) hpid).unzoom
    rw [hs]
    exact forall_set hall (leads_killPaneAtPath (leadsTo_findPathById hf) hn hw')
  · have hn := hok t (List.mem_of_getElem? ht) (hmem hf)
    have hleads : Leads (refocus w.unzoom.activePaneId w.unzoom) := by
      have hw1 := (hall w (List.mem_of_getElem? hw)).unzoom
      refine leadsTo_repaired hw1.leaves_ne_nil fun q hq => ?_
      obtain ⟨id, -, hid⟩ := Option.bind_eq_some_iff.1 hq
      exact leadsTo_findPathById hid
    rw [hs]
    exact forall_set (forall_set hall (leads_killPaneAtPath (leadsTo_findPathById hf) hn ht')) hleads

theorem leads_reap (exited : List ℕ) (hall : ∀ w ∈ s.windows, Leads w) (hfresh : Fresh s.supply s.paneIds) :
    ∀ w ∈ (s.reapChildren exited).windows, Leads w := by
  have hinv : Fresh (s.reapChildren exited).supply (s.reapChildren exited).paneIds ∧
      ∀ w ∈ (s.reapChildren exited).windows, Leads w := by
    refine reapChildren_invariant
      (P := fun t => Fresh t.supply t.paneIds ∧ ∀ w ∈ t.windows, Leads w) ⟨hfresh, hall⟩ ?_
    intro t i ⟨hf, hall⟩
    refine ⟨?_, ?_⟩
    · rw [supply_reapWindow]
      exact hf.mono (paneIds_reapWindow exited t i)
    · have h := reaped_reapWindow exited t i
      generalize (t.reapWindow exited i).windows = windows at h
      cases h with
      | same => exact hall
      | @pruned w root hw hr =>
        have hnodup : w.ids.Nodup := by
          obtain ⟨rest, hrest, -⟩ := idsOf_split hw
          refine Multiset.nodup_of_le ?_ hf.nodup
          exact (Multiset.le_add_right w.ids rest).trans (hrest ▸ Multiset.le_add_left ..)
        exact forall_set hall (leads_pruneWindow hr (hall w (List.mem_of_getElem? hw)) hnodup)
      | gone => exact forall_eraseIdx hall
  exact hinv.2

theorem leads_step (hall : ∀ w ∈ s.windows, Leads w) (hfresh : Fresh s.supply s.paneIds)
    (hok : KeepsPath s c) (h : step s c = .ok s') : ∀ w ∈ s'.windows, Leads w := by
  have hrelabel : c.relabels = true → ∀ w ∈ s'.windows, Leads w := by
    intro hr
    obtain ⟨w, w', hw, hs, hshape, hpath⟩ := relabel_step hr h
    rw [hs]
    refine forall_set hall ?_
    rw [Leads, hpath, leadsTo_of_shape hshape]
    exact hall w (List.mem_of_getElem? hw)
  cases c with
  | newWindow defaultShell refused detached warm =>
    rw [← Except.ok.inj h, windows_newWindow]
    split
    · exact hall
    · intro w hw
      obtain hw | hw := List.mem_append.1 hw
      · exact hall w hw
      · rw [List.mem_singleton.1 hw]
        exact leads_ownWindow ⟨_, rfl⟩
  | splitWindow =>
    obtain ⟨pct, -, w, w', hw, hw', hs⟩ := splitWindow_windows h
    rw [hs]
    exact forall_set hall (leads_splitEdit (hall w (List.mem_of_getElem? hw)) hok hw')
  | killPane =>
    obtain ⟨w, w', hw, hw', hs⟩ := (killPane_edits h).windows_eq
    have hleads := (hall w (List.mem_of_getElem? hw)).unzoom
    rw [Leads, activePath_unzoom] at hleads
    rw [hs]
    exact forall_set hall (leads_killPaneAtPath hleads (hok w hw).unzoom hw')
  | killPaneById pid => exact leads_killPaneById hall hok h
  | breakPane =>
    obtain ⟨w, pane, windows, hw, ht, hs⟩ := breakPane_eq_ok h
    obtain ⟨hws, hpane⟩ :=
      leads_taken hall (hall w (List.mem_of_getElem? hw)).unzoom (hok w hw).unzoom ht
    rw [hs]
    intro v hv
    obtain hv | hv := List.mem_append.1 hv
    · exact hws v hv
    · obtain ⟨u, hu, rfl⟩ := Option.map_eq_some_iff.1 (Option.mem_toList.1 hv)
      exact leads_ownWindow (hpane u hu)
  | joinPane targetWin =>
    obtain ⟨w, hw, ⟨-, hs⟩ | ⟨hlt, hne, -⟩⟩ := joinPane_eq_ok h
    · rw [hs]
      exact forall_set hall (hall w (List.mem_of_getElem? hw)).unzoom
    · exact absurd ⟨hlt, hne⟩ hok
  | movePane targetWin =>
    obtain ⟨-, rfl⟩ | ⟨hlt, hne, -⟩ := movePane_eq_ok h
    · exact hall
    · exact absurd ⟨hlt, hne⟩ hok
  | rotateWindow reverse =>
    exact leads_edits hall (mapActive_edits h) fun w hw hl => leads_rotatePanes hl (hok w hw)
  | selectLayout layout =>
    refine leads_edits hall (unzoomThen_edits h) fun w hw hl => leads_applyLayout hl.unzoom ?_
    have hleaves := leaves_eq_of_shape (shape_unzoom w)
    rw [LayoutFills, LayoutNamed, leadsTo_of_shape (shape_unzoom w), countPanes, collectLeaves, hleaves]
    exact hok w hw
  | nextLayout | prevLayout =>
    refine leads_edits hall (unzoomThen_edits h) fun w hw hl => leads_cycleLayoutBy hl.unzoom ?_
    rw [leadsTo_of_shape (shape_unzoom w), countPanes, leaves_eq_of_shape (shape_unzoom w)]
    exact hok w hw
  | killWindow =>
    obtain hs | hs := killWindow_eq_ok h
    · rw [hs]
      exact hall
    · rw [hs]
      exact forall_eraseIdx hall
  | reapChildren exited =>
    rw [← Except.ok.inj h]
    exact leads_reap exited hall hfresh
  | swapPane | selectPane | lastPane | displayPaneSelect | focusPane | focusPaneByIndex
  | focusWindowTemp | focusPaneTemp | focusPaneByIndexTemp | restoreFocus | selectWindow
  | nextWindow | prevWindow | lastWindow | clientSize | mouseDown | mouseUp | paneMouse =>
    exact leads_refocus hall hok (refocus_step rfl h)
  | cycleTopLayout | zoomPane | resizePane | resizePaneAbsolute | resizePanePercent | mouseDrag
  | splitSetSizes => exact hrelabel rfl

end Server
/-- In every run whose commands meet the condition, what is written goes to the pane at the
end of the active path, which is the one that is read. -/
theorem active_paths_lead {options : Options} {area : Rect} {paneId winId : ℕ} {s : Server}
    (hs : ((session (start options area paneId winId)).restrict KeepsPath).Reachable s) :
    ∀ w ∈ s.windows, ∃ p, at? w.root w.activePath = some (.leaf p) ∧
      activePaneMut w.root w.activePath = some p ∧
      getActivePaneId w.root w.activePath = some p.id := by
  have hinit : ∀ w ∈ (start options area paneId winId).windows, Leads w := by
    intro w hw
    rw [List.mem_singleton.1 hw]
    exact ⟨_, rfl⟩
  have hinv : Server.Fresh s.supply s.paneIds ∧ ∀ w ∈ s.windows, Leads w := by
    refine hs.invariant (P := fun s => Server.Fresh s.supply s.paneIds ∧ ∀ w ∈ s.windows, Leads w)
      ⟨Server.fresh_start options area paneId winId, hinit⟩ ?_
    intro s c _ ⟨hf, hall⟩ ⟨hl, hok⟩
    have hstep := session_next hl
    exact ⟨Server.fresh_step hf hstep, Server.leads_step hall hf hok hstep⟩
  intro w hw
  obtain ⟨p, hp⟩ := hinv.2 w hw
  exact ⟨p, hp, activePaneMut_eq_some.2 hp, getActivePaneId_of_leaf hp⟩

theorem active_paths_lead_halves :
    ((session terminal).run terminal halves).windows ≠ [] ∧
      ∀ w ∈ ((session terminal).run terminal halves).windows,
        ∃ p, at? w.root w.activePath = some (.leaf p) ∧
          activePaneMut w.root w.activePath = some p ∧
          getActivePaneId w.root w.activePath = some p.id :=
  ⟨by decide,
    active_paths_lead (System.Reachable.run (S := (session terminal).restrict KeepsPath) .init halves
      ⟨⟨show (session terminal).enabled terminal _ by decide, by simp [KeepsPath]⟩, trivial⟩)⟩

/-- A pane joined into another window leaves that window's path at the new split: reads see
the first of its panes, writes see none. -/
theorem join_leaves_split :
    ¬ ∀ s : Server, (session terminal).Reachable s → ∀ w ∈ s.windows, ∃ p,
      activePaneMut w.root w.activePath = some p ∧
        getActivePaneId w.root w.activePath = some p.id := by
  intro h
  have hv : (session terminal).Valid terminal [.newWindow true false false .refused, .joinPane 0] := by
    decide
  have hw : ((session terminal).run terminal
      [.newWindow true false false .refused, .joinPane 0]).windows.head?.map
        (fun w => activePaneMut w.root w.activePath) = some none := by decide
  obtain ⟨w, hhead, hnone⟩ := Option.map_eq_some_iff.1 hw
  obtain ⟨p, hp, -⟩ := h _ (System.Reachable.run .init _ hv) w (List.mem_of_head? hhead)
  rw [hnone] at hp
  contradiction

end Winsmux.Layout
