import Winsmux.Layout.ActivePath

/-!
# The sizes of a split

Sizes and children are two lists that every edit changes side by side. A split is well
sized with two children or more, one size for each and not all of them zero; then no
computation over the sizes divides by zero or reads beyond them.
-/
namespace Winsmux.Layout
open PathTree Json Transition

structure Sized (a : Split) (k : ℕ) : Prop where
  two : 2 ≤ k
  length : a.sizes.length = k
  nonzero : ∃ x ∈ a.sizes, x ≠ 0

def WellSized (n : Node) : Prop := AllSplits Sized n

theorem wellSized_split {a : Split} {children : List Node} :
    WellSized (.split a children) ↔ Sized a children.length ∧ ∀ c ∈ children, WellSized c :=
  allSplits_split

@[simp] theorem wellSized_leaf (p : Pane) : WellSized (.leaf p) := trivial

theorem sum_eq_zero_of_not {l : List ℕ} (h : ¬ ∃ x ∈ l, x ≠ 0) : l.sum = 0 := by
  rw [List.sum_eq_zero_iff]
  intro x hx
  by_contra hne
  exact h ⟨x, hx, hne⟩

theorem equalSizes_nonzero {n : ℕ} (h : n ≠ 0) : ∃ x ∈ equalSizes n, x ≠ 0 := by
  obtain ⟨k, rfl⟩ := Nat.exists_eq_succ_of_ne_zero h
  refine ⟨_, List.mem_append_right _ (List.mem_singleton_self _), ?_⟩
  by_cases hq : 100 / (k + 1) = 0
  · rw [Nat.succ_eq_add_one, hq]
    omega
  · exact Nat.ne_of_gt (Nat.add_pos_left (Nat.pos_of_ne_zero hq) _)

theorem sized_equalSizes (kind : LayoutKind) {n : ℕ} (h : 2 ≤ n) : Sized ⟨kind, equalSizes n⟩ n :=
  ⟨h, length_equalSizes n, equalSizes_nonzero (by omega)⟩

theorem sized_pair (kind : LayoutKind) {l r : ℕ} (h : l ≠ 0 ∨ r ≠ 0) : Sized ⟨kind, [l, r]⟩ 2 where
  two := le_rfl
  length := rfl
  nonzero := by
    obtain hl | hr := h
    · exact ⟨l, List.mem_cons_self, hl⟩
    · exact ⟨r, by simp, hr⟩

theorem wellSized_collapse (kind : LayoutKind) {children : List Node} (hne : children ≠ [])
    (hall : ∀ c ∈ children, WellSized c) : WellSized (collapse kind children) := by
  rw [collapse.eq_def]
  split
  · next c => exact hall c List.mem_cons_self
  · next hone =>
    refine wellSized_split.2 ⟨sized_equalSizes kind ?_, hall⟩
    cases children with
    | nil => exact absurd rfl hne
    | cons c cs =>
      cases cs with
      | nil => exact absurd rfl (hone c)
      | cons d ds => simp

theorem wellSized_replaceLeafWithSplit {kind : LayoutKind} {new n m : Node} {path : List ℕ}
    (hn : WellSized n) (hnew : WellSized new) (h : replaceLeafWithSplit kind new n path = .ok m) :
    WellSized m := by
  obtain ⟨-, rfl⟩ | ⟨u, -, rfl⟩ := replaceLeafWithSplit_eq_ok h
  · exact hn
  · refine AllSplits.modifyAt hn fun u _ hu => wellSized_split.2 ⟨sized_pair kind (.inl (by decide)), ?_⟩
    intro c hc
    obtain rfl | rfl : c = u ∨ c = new := by simpa using hc
    · exact hu
    · exact hnew

theorem wellSized_removeNode {n m : Node} {path : List ℕ} (hn : WellSized n)
    (h : removeNode n path = .ok m) : WellSized m := by
  induction path generalizing n m with
  | nil =>
    cases n with
    | leaf p =>
      rw [removeNode_leaf] at h
      rw [← Except.ok.inj h]
      exact hn
    | split a children =>
      rw [← Except.ok.inj h]
      exact hn
  | cons i path ih =>
    cases n with
    | leaf p =>
      rw [removeNode_leaf] at h
      rw [← Except.ok.inj h]
      exact hn
    | split a children =>
      obtain ⟨left, rfl, hne, hleft⟩ := removeNode_eq_ok h
      have hall := (wellSized_split.1 hn).2
      refine wellSized_collapse a.kind hne ?_
      obtain ⟨-, rfl⟩ | ⟨-, -, rfl⟩ | ⟨c, d, -, hc, hd, rfl⟩ := hleft
      · exact forall_eraseIdx hall
      · exact hall
      · exact forall_set hall (ih (hall c (List.mem_of_getElem? hc)) hd)

theorem wellSized_extractNode {n : Node} {path : List ℕ} (hn : WellSized n) :
    (∀ rest ∈ (extractNode n path).1, WellSized rest) ∧ ∀ u ∈ (extractNode n path).2, WellSized u := by
  refine ⟨?_, fun u hu => AllSplits.at? hn (extractNode_snd n path ▸ hu)⟩
  induction path generalizing n with
  | nil => cases n <;> simp [extractNode]
  | cons i path ih =>
    cases n with
    | leaf p => simp [extractNode]
    | split a children =>
      have hall := (wellSized_split.1 hn).2
      intro rest hrest
      cases hc : children[i]? with
      | none =>
        simp only [extractNode, hc, Option.mem_def] at hrest
        rw [← Option.some.inj hrest]
        exact hn
      | some c =>
        simp only [extractNode, hc, Option.mem_def] at hrest
        have hkeep : ∀ left : List Node, (∀ d ∈ left, WellSized d) →
            (if left = [] then none else some (collapse a.kind left)) = some rest → WellSized rest := by
          intro left hleft he
          split at he
          · contradiction
          · next hne =>
            rw [← Option.some.inj he]
            exact wellSized_collapse a.kind hne hleft
        cases hr : (extractNode c path).1 with
        | none =>
          rw [hr] at hrest
          exact hkeep _ (forall_eraseIdx hall) hrest
        | some r =>
          rw [hr] at hrest
          exact hkeep _ (forall_set hall (ih (hall c (List.mem_of_getElem? hc)) r hr)) hrest

theorem u16_lt (n : ℕ) : u16 n < 2 ^ 16 := Nat.mod_lt _ (by decide)

theorem u16_of_lt {n : ℕ} (h : n < 2 ^ 16) : u16 n = n := Nat.mod_eq_of_lt h

/-- Scaling keeps the number of sizes and leaves one that is not zero. -/
theorem scaleSizes_spec {sizes : List ℕ} {total : ℕ} (hne : sizes ≠ []) :
    (scaleSizes sizes total).length = sizes.length ∧ ∃ x ∈ scaleSizes sizes total, x ≠ 0 := by
  obtain ⟨init, last, rfl⟩ := (List.eq_nil_or_concat' sizes).resolve_left hne
  have hscale : scaleSizes (init ++ [last]) total = (init.map fun s => u16 (s * 100 / total)) ++
      [u16 (u16 (last * 100 / total) + (100 - u16 ((init ++ [last]).map fun s => u16 (s * 100 / total)).sum))] := by
    simp [scaleSizes]
  rw [hscale]
  refine ⟨by simp, ?_⟩
  by_cases h : ∃ x ∈ init.map fun s => u16 (s * 100 / total), x ≠ 0
  · obtain ⟨x, hx, hne⟩ := h
    exact ⟨x, List.mem_append_left _ hx, hne⟩
  · -- then the sum is the last size, and the remainder fills it up to 100
    refine ⟨_, List.mem_append_right _ (List.mem_singleton_self _), ?_⟩
    rw [List.map_append, List.sum_append, sum_eq_zero_of_not h, zero_add, List.map_singleton, List.sum_singleton]
    have hlast := u16_lt (last * 100 / total)
    generalize u16 (last * 100 / total) = v at hlast
    rw [u16_of_lt hlast, u16_of_lt (by omega)]
    omega

theorem nonzero_of_u16_sum {sizes : List ℕ} (h : u16 sizes.sum ≠ 0) : ∃ x ∈ sizes, x ≠ 0 := by
  by_contra hno
  exact h (by rw [sum_eq_zero_of_not hno]; rfl)

theorem sized_regroup (kind : LayoutKind) {kept : List (Node × ℕ)} {m : Node}
    (hall : ∀ e ∈ kept, WellSized e.1) (h : regroup kind kept = some m) : WellSized m := by
  rw [regroup.eq_def] at h
  split at h
  · contradiction
  · next e =>
    rw [← Option.some.inj h]
    exact hall e List.mem_cons_self
  · next hnil hone =>
    have htwo : 2 ≤ kept.length := by
      cases kept with
      | nil => exact absurd rfl hnil
      | cons e rest =>
        cases rest with
        | nil => exact absurd rfl (hone e)
        | cons d rest => simp
    have hne : kept.map Prod.snd ≠ [] := by
      rw [ne_eq, List.map_eq_nil_iff]
      exact hnil
    rw [← Option.some.inj h]
    refine wellSized_split.2 ⟨?_, fun c hc => ?_⟩
    · rw [List.length_map]
      split
      · exact sized_equalSizes kind htwo
      · next htotal =>
        split
        · exact ⟨htwo, List.length_map .., nonzero_of_u16_sum htotal⟩
        · obtain ⟨hlen, hnonzero⟩ := scaleSizes_spec hne
          exact ⟨htwo, hlen.trans (List.length_map ..), hnonzero⟩
    · obtain ⟨e, he, rfl⟩ := List.mem_map.1 hc
      exact hall e he

theorem wellSized_pruneExited {exited : List ℕ} {remainOnExit : Bool} {n m : Node} (hn : WellSized n)
    (h : pruneExited exited remainOnExit n = some m) : WellSized m := by
  induction n using tree_induction generalizing m with
  | leaf p =>
    rw [pruneExited] at h
    repeat' split at h
    all_goals first
      | contradiction
      | (rw [← Option.some.inj h]; exact wellSized_leaf _)
  | split a children ih =>
    rw [pruneExited] at h
    refine sized_regroup a.kind (fun e he => ?_) h
    obtain ⟨i, c, hc, hp⟩ := mem_pruneChildren he
    have hmem := List.mem_of_getElem? hc
    exact ih c hmem ((wellSized_split.1 hn).2 c hmem) hp

/-- The saved sizes fit the splits that their paths now lead to. -/
def RestoresFit (w : Window) : Prop :=
  ∀ saved, w.zoomSaved = some saved → ∀ e ∈ saved, ∀ k ∈ arity w.root e.1, e.2.length = k

/-- Sizes once saved are not all zero. -/
def SavedNonzero (w : Window) : Prop :=
  ∀ saved, w.zoomSaved = some saved → ∀ e ∈ saved, ∃ x ∈ e.2, x ≠ 0

/-- The active path stays among the children of the splits it passes. -/
def PathInRange (w : Window) : Prop :=
  ∀ depth < w.activePath.length, ∀ k ∈ arity w.root (w.activePath.take depth),
    w.activePath.getD depth 0 < k

theorem wellSized_restoreSizes {saved : List (List ℕ × List ℕ)} {root : Node} (h : WellSized root)
    (hnonzero : ∀ e ∈ saved, ∃ x ∈ e.2, x ≠ 0) (hfit : ∀ e ∈ saved, ∀ k ∈ arity root e.1, e.2.length = k) :
    WellSized (restoreSizes saved root) := by
  induction saved generalizing root with
  | nil => exact h
  | cons e saved ih =>
    obtain ⟨hne, hnonzero⟩ := List.forall_mem_cons.1 hnonzero
    obtain ⟨hlen, hfit⟩ := List.forall_mem_cons.1 hfit
    refine ih (AllSplits.relabelAt h fun a k hk ha => ⟨ha.two, hlen k hk, hne⟩) hnonzero ?_
    intro e' he' k hk
    rw [arity_eq_of_shape (shape_relabelAt ..)] at hk
    exact hfit e' he' k hk

theorem wellSized_unzoom {w : Window} (h : WellSized w.root) (hsaved : SavedNonzero w)
    (hfit : RestoresFit w) : WellSized w.unzoom.root ∧ SavedNonzero w.unzoom := by
  cases hz : w.zoomSaved with
  | none =>
    simp only [Window.unzoom, hz]
    exact ⟨h, hsaved⟩
  | some saved =>
    simp only [Window.unzoom, hz]
    exact ⟨wellSized_restoreSizes h (hsaved saved hz) (hfit saved hz), fun _ he => by contradiction⟩

theorem zoomedSizes_spec {idx : ℕ} {sizes : List ℕ} (h : idx < sizes.length) :
    (zoomedSizes idx sizes).length = sizes.length ∧ ∃ x ∈ zoomedSizes idx sizes, x ≠ 0 := by
  refine ⟨List.length_mapIdx .., 100, ?_, by decide⟩
  have hget : (zoomedSizes idx sizes)[idx]? = some 100 := by
    rw [zoomedSizes, List.getElem?_mapIdx, List.getElem?_eq_getElem h]
    simp
  exact List.mem_of_getElem? hget

theorem wellSized_zoomIn {w : Window} (h : WellSized w.root) (hin : PathInRange w) :
    WellSized (zoomIn w.activePath w.root).1 ∧
      ∀ e ∈ (zoomIn w.activePath w.root).2, ∃ x ∈ e.2, x ≠ 0 := by
  have hfold : ∀ (depths : List ℕ) (acc : Node × List (List ℕ × List ℕ)),
      (∀ depth ∈ depths, depth < w.activePath.length) → shape acc.1 = shape w.root →
      WellSized acc.1 → (∀ e ∈ acc.2, ∃ x ∈ e.2, x ≠ 0) →
      WellSized (depths.foldl (zoomLevel w.activePath) acc).1 ∧
        ∀ e ∈ (depths.foldl (zoomLevel w.activePath) acc).2, ∃ x ∈ e.2, x ≠ 0 := by
    intro depths
    induction depths with
    | nil => exact fun acc _ _ hw hs => ⟨hw, hs⟩
    | cons depth depths ih =>
      intro acc hlt hshape hw hs
      obtain ⟨hd, hlt⟩ := List.forall_mem_cons.1 hlt
      refine ih _ hlt ((shape_zoomLevel ..).trans hshape) ?_ ?_
      · rw [zoomLevel]
        split
        · next a children hat =>
          refine AllSplits.relabelAt hw fun b k hk hb => ?_
          rw [arity_eq_of_shape hshape] at hk
          have hidx := hin depth hd k hk
          obtain ⟨hlen, hne⟩ := zoomedSizes_spec (hb.length ▸ hidx)
          exact ⟨hb.two, hlen.trans hb.length, hne⟩
        · exact hw
      · rw [zoomLevel]
        split
        · next a children hat =>
          intro e he
          obtain he | he := List.mem_append.1 he
          · exact hs e he
          · rw [List.mem_singleton.1 he]
            exact (wellSized_split.1 (AllSplits.at? hw hat)).1.nonzero
        · exact hs
  exact hfold _ (w.root, []) (fun depth hd => List.mem_range.1 hd) rfl h (by simp)

theorem wellSized_cycleTopLayout {w : Window} (h : WellSized w.root)
    (hok : ∀ k ∈ arity w.root w.activePath.dropLast, k = 2) : WellSized (cycleTopLayout w).root := by
  refine AllSplits.relabelAt h fun a k hk _ => ?_
  rw [hok k hk]
  exact sized_pair _ (.inl (by decide))

/-- A changed share is at least one cell, and the number of shares stays. -/
theorem shiftShare_spec {new : ℕ → ℕ} (hnew : ∀ old, new old ≠ 0) (idx : ℕ) {sizes : List ℕ}
    (h : ∃ x ∈ sizes, x ≠ 0) :
    (shiftShare new idx sizes).length = sizes.length ∧ ∃ x ∈ shiftShare new idx sizes, x ≠ 0 := by
  rw [shiftShare]
  split
  · exact ⟨rfl, h⟩
  · next old hold =>
    have hlt := (List.getElem?_eq_some_iff.1 hold).1
    have hmem : ∀ l : List ℕ, l[idx]? = some (new old) → ∃ x ∈ l, x ≠ 0 :=
      fun l hl => ⟨new old, List.mem_of_getElem? hl, hnew old⟩
    have hset : (sizes.set idx (new old))[idx]? = some (new old) := List.getElem?_set_self hlt
    dsimp only
    split
    · refine ⟨by simp, hmem _ ?_⟩
      rw [List.getElem?_modify_ne _ _ (by omega : idx + 1 ≠ idx), hset]
    · split
      · refine ⟨by simp, hmem _ ?_⟩
        rw [List.getElem?_modify_ne _ _ (by omega : idx - 1 ≠ idx), hset]
      · exact ⟨by simp, hmem _ hset⟩

theorem wellSized_resizeShare {kind : LayoutKind} {new : ℕ → ℕ} (hnew : ∀ old, new old ≠ 0) {w : Window}
    (h : WellSized w.root) : WellSized (resizeShare kind new w).root := by
  simp only [resizeShare]
  split
  · exact h
  · refine AllSplits.relabelAt h fun a k _ ha => ?_
    obtain ⟨hlen, hne⟩ := shiftShare_spec hnew _ ha.nonzero
    exact ⟨ha.two, hlen.trans ha.length, hne⟩

theorem atLeastOne_ne_zero (z : ℤ) : atLeastOne z ≠ 0 := by
  rw [atLeastOne]
  omega

/-- In a well sized tree the first two shares of a split can be set. -/
theorem wellSized_setSplitPercent {path : List ℕ} {pct : ℕ} (hpct : 1 ≤ pct) {w : Window}
    (h : WellSized w.root) :
    ∃ w', setSplitPercent path pct w = .ok w' ∧ WellSized w'.root ∧ w'.zoomSaved = w.zoomSaved := by
  rw [setSplitPercent]
  split
  · next a children hat =>
    have ha := (wellSized_split.1 (AllSplits.at? h hat)).1
    have htwo := ha.two
    have hlen := ha.length
    rw [if_neg (by omega)]
    refine ⟨_, rfl, AllSplits.relabelAt h fun b k _ hb => ?_, rfl⟩
    have hlt : 1 < b.sizes.length := hb.length ▸ hb.two
    refine ⟨hb.two, by simpa [Split.withSizes] using hb.length, pct, ?_, by omega⟩
    exact List.mem_of_getElem? (List.getElem?_set_self (by simpa using hlt))
  · exact ⟨w, rfl, h, rfl⟩

/-- The border that is dragged is one of the split it was taken from. -/
def DragInRange (s : Server) (w : Window) : Prop :=
  ∀ d ∈ s.drag, ∀ k ∈ arity w.root d.splitPath, d.index + 1 < k

theorem dragShares_ne_zero {d : DragState} {x y l r : ℕ} {shares : ℕ × ℕ}
    (h : dragShares d x y l r = .ok shares) : shares.1 ≠ 0 := by
  rw [dragShares] at h
  dsimp only at h
  split at h
  · cases h
  · rw [← Except.ok.inj h]
    omega

/-- In a well sized tree a border of a split can be dragged. -/
theorem wellSized_adjustSplitSizes {d : DragState} {x y : ℕ} {w : Window} (h : WellSized w.root)
    (hrange : ∀ k ∈ arity w.root d.splitPath, d.index + 1 < k) :
    (∃ w', adjustSplitSizes d x y w = .ok w' ∧ WellSized w'.root ∧ w'.zoomSaved = w.zoomSaved) ∨
      adjustSplitSizes d x y w = .error .clampRange := by
  rw [adjustSplitSizes]
  split
  · next a children hat =>
    have ha := (wellSized_split.1 (AllSplits.at? h hat)).1
    have hlt : d.index + 1 < a.sizes.length := ha.length ▸ hrange _ (arity_of_at? hat)
    rw [List.getElem?_eq_getElem hlt, List.getElem?_eq_getElem (by omega : d.index < a.sizes.length)]
    dsimp only
    cases hshares : dragShares d x y a.sizes[d.index] a.sizes[d.index + 1] with
    | error e =>
      rw [dragShares] at hshares
      dsimp only at hshares
      split at hshares
      · rw [← Except.error.inj hshares]
        exact .inr rfl
      · cases hshares
    | ok shares =>
      refine .inl ⟨_, rfl, AllSplits.relabelAt h fun b k hk hb => ?_, rfl⟩
      have hlt : d.index + 1 < b.sizes.length := hb.length ▸ hrange k hk
      have hget : ((b.sizes.set d.index shares.1).set (d.index + 1) shares.2)[d.index]? = some shares.1 := by
        rw [List.getElem?_set_ne (by omega), List.getElem?_set_self (by omega)]
      refine ⟨hb.two, by simpa [Split.withSizes] using hb.length, shares.1, ?_, dragShares_ne_zero hshares⟩
      exact List.mem_of_getElem? hget
  · exact .inl ⟨w, rfl, h, rfl⟩

theorem wellSized_handleSplitSetSizes {path sizes : List ℕ} {w : Window} (h : WellSized w.root)
    (hok : ∀ k ∈ arity w.root path, sizes.length = k → ∃ x ∈ sizes, x ≠ 0) :
    WellSized (handleSplitSetSizes path sizes w).root := by
  rw [handleSplitSetSizes]
  split
  · split
    · next a children hat hlen =>
      refine AllSplits.relabelAt h fun b k hk hb => ?_
      have hk' : children.length = k := Option.some.inj ((arity_of_at? hat).symm.trans hk)
      have hsizes : sizes.length = k := hlen.1.trans hk'
      exact ⟨hb.two, hsizes, hok k hk hsizes⟩
    · exact h
  · exact h

theorem wellSized_buildTiled (fuel : ℕ) {panes : List Node} (hne : panes ≠ [])
    (hfuel : panes.length ≤ fuel) (hall : ∀ n ∈ panes, WellSized n) :
    WellSized (buildTiled fuel panes) := by
  induction fuel generalizing panes with
  | zero => exact absurd (List.eq_nil_of_length_eq_zero (by omega)) hne
  | succ fuel ih =>
    rw [buildTiled.eq_def]
    simp only
    split
    · next pane => exact hall pane List.mem_cons_self
    · next hone =>
      have htwo : 2 ≤ panes.length := by
        cases panes with
        | nil => exact absurd rfl hne
        | cons pane rest =>
          cases rest with
          | nil => exact absurd rfl (hone pane)
          | cons other rest => simp
      split
      · next hle =>
        have hlen : panes.length = 2 := by omega
        refine wellSized_split.2 ⟨?_, hall⟩
        rw [hlen]
        exact sized_pair _ (.inl (by decide))
      · next hle =>
        refine wellSized_split.2 ⟨sized_pair _ (.inl (by decide)), fun c hc => ?_⟩
        obtain rfl | rfl : c = buildTiled fuel (panes.take (panes.length / 2)) ∨
            c = buildTiled fuel (panes.drop (panes.length / 2)) := by simpa using hc
        · refine ih (List.ne_nil_of_length_pos ?_) ?_ fun n hn => hall n (List.mem_of_mem_take hn)
          · rw [List.length_take]
            omega
          · rw [List.length_take]
            omega
        · refine ih (List.ne_nil_of_length_pos ?_) ?_ fun n hn => hall n (List.mem_of_mem_drop hn)
          · rw [List.length_drop]
            omega
          · rw [List.length_drop]
            omega

theorem wellSized_buildMain (outer inner : LayoutKind) {pct : ℕ} (hpct : pct ≠ 0) {panes : List Node}
    (htwo : 2 ≤ panes.length) (hall : ∀ n ∈ panes, WellSized n) :
    WellSized (buildMain outer inner pct panes) := by
  cases panes with
  | nil => contradiction
  | cons mainPane rest =>
    obtain ⟨hmain, hrest⟩ := List.forall_mem_cons.1 hall
    refine wellSized_split.2 ⟨sized_pair outer (.inl hpct), fun c hc => ?_⟩
    obtain rfl | rfl := (List.mem_pair.1 hc)
    · exact hmain
    · split
      · next other => exact hrest other List.mem_cons_self
      · next hone =>
        refine wellSized_split.2 ⟨sized_equalSizes inner ?_, hrest⟩
        cases rest with
        | nil => simp at htwo
        | cons other rest =>
          cases rest with
          | nil => exact absurd rfl (hone other)
          | cons third rest => simp

theorem mainPct_ne_zero (option : ℕ) : mainPct option ≠ 0 := by
  rw [mainPct]
  split <;> omega

theorem wellSized_namedLayout {options : Options} {name : Text} {panes : List Node} {root : Node}
    (htwo : 2 ≤ panes.length) (hall : ∀ n ∈ panes, WellSized n)
    (h : namedLayout options name panes = some root) : WellSized root := by
  have hequal : ∀ kind, WellSized (.split ⟨kind, equalSizes panes.length⟩ panes) :=
    fun kind => wellSized_split.2 ⟨sized_equalSizes kind htwo, hall⟩
  have hne : panes ≠ [] := List.ne_nil_of_length_pos (by omega)
  rw [namedLayout] at h
  repeat' split at h
  · exact Option.some.inj h ▸ hequal .horizontal
  · exact Option.some.inj h ▸ hequal .vertical
  · exact Option.some.inj h ▸ wellSized_buildMain _ _ (mainPct_ne_zero _) htwo hall
  · exact Option.some.inj h ▸ wellSized_buildMain _ _ (mainPct_ne_zero _) htwo hall
  · exact Option.some.inj h ▸ wellSized_buildTiled _ hne le_rfl hall
  · contradiction

/-- The cells that a group of a layout string gives its members. -/
def layoutTotal (kind : LayoutKind) (children : List LayoutNode) : ℕ :=
  (children.map fun c => match kind with | .horizontal => c.dims.width | .vertical => c.dims.height).sum

/-- A group with two members or more, that has cells to give or few enough members. -/
def GroupSized (kind : LayoutKind) (children : List LayoutNode) : Prop :=
  2 ≤ children.length ∧ (children.length ≤ 100 ∨ layoutTotal kind children ≠ 0)

theorem layoutSizes_eq (kind : LayoutKind) (children : List LayoutNode) :
    ∃ dims : List ℕ, dims.length = children.length ∧ dims.sum = layoutTotal kind children ∧
      layoutSizes kind children =
        if dims.sum = 0 then List.replicate children.length (100 / max children.length 1)
        else
          let sizes := dims.map fun dim => dim * 100 / dims.sum
          sizes.dropLast ++ (sizes.getLast?.map (· + (100 - sizes.sum))).toList :=
  ⟨_, List.length_map .., rfl, rfl⟩

theorem sized_layoutSizes {kind : LayoutKind} {children : List LayoutNode} (h : GroupSized kind children) :
    Sized ⟨kind, layoutSizes kind children⟩ children.length := by
  obtain ⟨htwo, hfew⟩ := h
  obtain ⟨dims, hlen, htotal, hsizes⟩ := layoutSizes_eq kind children
  have hne : dims ≠ [] := List.ne_nil_of_length_pos (by omega)
  rw [hsizes]
  split
  · next hzero =>
    have hle := hfew.resolve_right (not_not.2 (htotal.symm.trans hzero))
    have hmax : max children.length 1 = children.length := by omega
    refine ⟨htwo, List.length_replicate, 100 / max children.length 1, ?_, ?_⟩
    · exact List.mem_replicate.2 ⟨by omega, rfl⟩
    · rw [hmax]
      exact Nat.ne_of_gt (Nat.div_pos hle (by omega))
  · obtain ⟨init, last, rfl⟩ := (List.eq_nil_or_concat' dims).resolve_left hne
    generalize (init ++ [last]).sum = total
    simp only [List.map_append, List.map_cons, List.map_nil, List.dropLast_concat,
      List.getLast?_concat, Option.map_some, Option.toList_some, List.sum_append, List.sum_singleton]
    refine ⟨htwo, by simpa using hlen, ?_⟩
    by_cases hinit : ∃ x ∈ init.map fun dim => dim * 100 / total, x ≠ 0
    · obtain ⟨x, hx, hxne⟩ := hinit
      exact ⟨x, List.mem_append_left _ hx, hxne⟩
    · -- the last size takes what the others leave of 100
      refine ⟨_, List.mem_append_right _ (List.mem_singleton_self _), ?_⟩
      rw [sum_eq_zero_of_not hinit]
      omega

theorem wellSized_layoutNodeToNode {layout : LayoutNode} {panes rest : List Node} {root : Node}
    (hgroups : ∀ q a cs, at? layout q = some (.split a cs) → GroupSized a.kind cs)
    (hall : ∀ n ∈ panes, WellSized n) (h : layoutNodeToNode layout panes = (some root, rest)) :
    WellSized root ∧ ∀ n ∈ rest, WellSized n := by
  induction layout using tree_induction generalizing panes rest root with
  | leaf l =>
    cases panes with
    | nil =>
      obtain ⟨h, -⟩ := Prod.mk.inj h
      contradiction
    | cons pane panes =>
      obtain ⟨hroot, rfl⟩ := Prod.mk.inj h
      obtain ⟨hpane, hpanes⟩ := List.forall_mem_cons.1 hall
      exact ⟨Option.some.inj hroot ▸ hpane, hpanes⟩
  | split a children ih =>
    have hchildren : ∀ (cs : List LayoutNode) (panes rest : List Node) (nodes : List Node),
        (∀ c ∈ cs, c ∈ children) → (∀ n ∈ panes, WellSized n) →
        layoutChildrenToNodes cs panes = (some nodes, rest) →
        nodes.length = cs.length ∧ (∀ n ∈ nodes, WellSized n) ∧ ∀ n ∈ rest, WellSized n := by
      intro cs
      induction cs with
      | nil =>
        intro panes rest nodes _ hall he
        obtain ⟨hnodes, rfl⟩ := Prod.mk.inj he
        rw [← Option.some.inj hnodes]
        exact ⟨rfl, by simp, hall⟩
      | cons c cs ihcs =>
        intro panes rest nodes hmem hall he
        obtain ⟨hc, hcs⟩ := List.forall_mem_cons.1 hmem
        obtain ⟨i, hi⟩ := List.getElem?_of_mem hc
        rw [layoutChildrenToNodes] at he
        split at he
        · obtain ⟨he, -⟩ := Prod.mk.inj he
          contradiction
        · next node panes' hnode =>
          obtain ⟨hsized, hpanes'⟩ := ih c hc
            (fun q b ds hq => hgroups (i :: q) b ds (by rw [at?_split_cons, hi]; exact hq)) hall hnode
          split at he
          · obtain ⟨he, -⟩ := Prod.mk.inj he
            contradiction
          · next nodes' panes'' hnodes =>
            obtain ⟨hlen, hnodes', hrest⟩ := ihcs panes' panes'' nodes' hcs hpanes' hnodes
            obtain ⟨hsome, rfl⟩ := Prod.mk.inj he
            rw [← Option.some.inj hsome]
            exact ⟨by simp [hlen], List.forall_mem_cons.2 ⟨hsized, hnodes'⟩, hrest⟩
    rw [layoutNodeToNode] at h
    split at h
    · obtain ⟨h, -⟩ := Prod.mk.inj h
      contradiction
    · next nodes panes' hnodes =>
      obtain ⟨hlen, hsized, hrest⟩ := hchildren children panes panes' nodes (fun _ hc => hc) hall hnodes
      obtain ⟨hroot, rfl⟩ := Prod.mk.inj h
      rw [← Option.some.inj hroot]
      refine ⟨wellSized_split.2 ⟨?_, hsized⟩, hrest⟩
      rw [hlen]
      exact sized_layoutSizes (hgroups [] a children (at?_nil _))

theorem leaves_ne_nil_of_wellSized {n : Node} (h : WellSized n) : leaves n ≠ [] := by
  refine leaves_ne_nil_of_full ?_
  induction n using tree_induction with
  | leaf p => rfl
  | split a children ih =>
    obtain ⟨ha, hall⟩ := wellSized_split.1 h
    have htwo := ha.two
    exact full_split.2 ⟨List.ne_nil_of_length_pos (by omega), fun c hc => ih c hc (hall c hc)⟩

/-- A layout string that does not ask for more panes than there are, in sized groups. -/
def LayoutSized (options : Options) (layout : Text) (w : Window) : Prop :=
  LayoutNamed options layout w ∨
    ∀ l, parseLayoutString layout = some l → l.countLeaves ≤ countPanes w.root ∧
      ∀ q a cs, at? l q = some (.split a cs) → GroupSized a.kind cs

theorem wellSized_applyLayout {options : Options} {layout : Text} {w : Window} (h : WellSized w.root)
    (hok : LayoutSized options layout w) : WellSized (applyLayout options layout w).root := by
  have hpanes : ∀ n ∈ collectLeaves w.root, WellSized n := by
    intro n hn
    obtain ⟨p, -, rfl⟩ := List.mem_map.1 hn
    exact wellSized_leaf p
  have hlen : (collectLeaves w.root).length = countPanes w.root := List.length_map ..
  rw [applyLayout]
  dsimp only
  split
  · split
    · next pane rest hp => exact hpanes pane (by rw [hp]; exact List.mem_cons_self)
    · next hp =>
      have hnil : leaves w.root = [] := List.map_eq_nil_iff.1 hp
      exact absurd hnil (leaves_ne_nil_of_wellSized h)
  · next hge =>
    have htwo : 2 ≤ (collectLeaves w.root).length := not_lt.1 hge
    show WellSized (layoutRoot options layout (collectLeaves w.root))
    rw [layoutRoot]
    split
    · next root hroot => exact wellSized_namedLayout htwo hpanes hroot
    · next hnone =>
      have hfits := hok.resolve_left fun hnamed => by
        obtain hlt | hsome := hnamed
        · omega
        · rw [hnone] at hsome
          contradiction
      cases hl : parseLayoutString layout with
      | none =>
        rw [parseTmuxLayoutString, hl]
        exact wellSized_split.2 ⟨sized_equalSizes _ htwo, hpanes⟩
      | some l =>
        obtain ⟨hle, hgroups⟩ := hfits l hl
        obtain ⟨-, root, hroot, -⟩ | ⟨hlt, -⟩ := leaves_parseTmuxLayoutString hl
        · rw [hroot]
          rw [parseTmuxLayoutString, hl] at hroot
          exact (wellSized_layoutNodeToNode hgroups hpanes hroot).1
        · omega

end Winsmux.Layout
