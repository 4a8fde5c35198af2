import Winsmux.Layout.Effect

/-!
# Shares moved between neighbors

A border drag and a resize change two neighboring shares of one split. The drag keeps
both at 5 or more and their sum as it was, where the two have room for that; a resize
takes what the pane gains from its neighbor, which stops at 1.
-/
namespace Winsmux.Layout
open PathTree Json Transition

theorem sum_set_add {sizes : List ℕ} {i old : ℕ} (h : sizes[i]? = some old) (new : ℕ) :
    (sizes.set i new).sum + old = sizes.sum + new := by
  induction sizes generalizing i with
  | nil => simp at h
  | cons s sizes ih =>
    cases i with
    | zero =>
      obtain rfl : s = old := by simpa using h
      simp only [List.set_cons_zero, List.sum_cons]
      omega
    | succ i =>
      have hrest := ih (i := i) (by simpa using h)
      simp only [List.set_cons_succ, List.sum_cons]
      omega

/-- The shares at `i` and `i + 1` exchanged for two of the same sum, none of them zero. -/
def PairMoved (i : ℕ) (sizes sizes' : List ℕ) : Prop :=
  ∃ l r l' r', sizes[i]? = some l ∧ sizes[i + 1]? = some r ∧
    sizes' = (sizes.set i l').set (i + 1) r' ∧ l' + r' = l + r ∧ 1 ≤ l' ∧ 1 ≤ r'

/-- The drag goes through: the floor of 5 can be taken off the pair, the two shares at the
border keep their sum and are not zero, and nothing else changes. -/
def DragKeeps (d : DragState) (x y : ℕ) (w : Window) : Prop :=
  ∃ w', adjustSplitSizes d x y w = .ok w' ∧ shape w'.root = shape w.root ∧
    (∀ path, path ≠ d.splitPath → labelAt w'.root path = labelAt w.root path) ∧
    ∀ a, labelAt w.root d.splitPath = some a →
      5 ≤ u16 (a.sizes.getD d.index 0 + a.sizes.getD (d.index + 1) 0) ∧
      ∃ sizes, labelAt w'.root d.splitPath = some (a.withSizes sizes) ∧ PairMoved d.index a.sizes sizes

/-- The split that stands at the path of the drag has the two shares, and they come to 10
at least and to what 16 bits hold at most. -/
def RoomToDrag (d : DragState) (w : Window) : Prop :=
  ∀ a, labelAt w.root d.splitPath = some a →
    ∃ l r, a.sizes[d.index]? = some l ∧ a.sizes[d.index + 1]? = some r ∧ 10 ≤ l + r ∧ l + r < 2 ^ 16

theorem dragShares_of_room {d : DragState} {x y l r : ℕ} (h10 : 10 ≤ l + r) (h16 : l + r < 2 ^ 16) :
    ∃ l' r', dragShares d x y l r = .ok (l', r') ∧ l' + r' = l + r ∧ 5 ≤ l' ∧ 5 ≤ r' := by
  have htotal : u16 (l + r) = l + r := Nat.mod_eq_of_lt h16
  have hupper : u16 (l + r + 2 ^ 16 - 5) = l + r - 5 := by
    rw [u16]
    omega
  rw [dragShares]
  simp only [htotal, hupper]
  rw [if_neg (by omega)]
  refine ⟨_, _, rfl, ?_⟩
  rw [u16]
  omega

theorem adjustSplitSizes_none {d : DragState} {x y : ℕ} {w : Window}
    (h : labelAt w.root d.splitPath = none) : adjustSplitSizes d x y w = .ok w := by
  rw [adjustSplitSizes]
  split
  · next a children hat => rw [labelAt_eq_some.2 ⟨_, hat⟩] at h; contradiction
  · rfl

theorem adjustSplitSizes_some {d : DragState} {x y : ℕ} {w w' : Window} {a : Split}
    (ha : labelAt w.root d.splitPath = some a) :
    adjustSplitSizes d x y w = .ok w' ↔
      ∃ l r left right, a.sizes[d.index]? = some l ∧ a.sizes[d.index + 1]? = some r ∧
        dragShares d x y l r = .ok (left, right) ∧
        w' = { w with
          root := relabelAt (fun a => a.withSizes ((a.sizes.set d.index left).set (d.index + 1) right))
            d.splitPath w.root } := by
  obtain ⟨children, hat⟩ := labelAt_eq_some.1 ha
  simp only [adjustSplitSizes, hat]
  cases hl : a.sizes[d.index]? with
  | none => simp
  | some l =>
    cases hr : a.sizes[d.index + 1]? with
    | none => simp
    | some r =>
      cases hd : dragShares d x y l r with
      | error e => simp [hd]
      | ok shares => simp [hd, Prod.ext_iff, eq_comm]

theorem room_of_dragShares {d : DragState} {x y l r left right : ℕ}
    (h : dragShares d x y l r = .ok (left, right)) (hfloor : 5 ≤ u16 (l + r))
    (hsum : left + right = l + r) : 10 ≤ l + r ∧ l + r < 2 ^ 16 := by
  have hupper : u16 (u16 (l + r) + 2 ^ 16 - 5) = u16 (l + r) - 5 := by
    rw [u16, u16] at *
    omega
  rw [dragShares] at h
  simp only [hupper] at h
  split at h
  · cases h
  · generalize asSigned 32 (d.leftInitial + _) = z at h
    simp only [Except.ok.injEq, Prod.mk.injEq] at h
    simp only [u16] at *
    omega

theorem set_pair_inj {sizes : List ℕ} {i l r l' r' : ℕ} (hi : i + 1 < sizes.length)
    (h : (sizes.set i l).set (i + 1) r = (sizes.set i l').set (i + 1) r') : l = l' ∧ r = r' := by
  have hleft := congrArg (·[i]?) h
  have hright := congrArg (·[i + 1]?) h
  simp only [List.getElem?_set_self (show i + 1 < (sizes.set i _).length by simpa using hi),
    Option.some_inj] at hright
  simp only [List.getElem?_set_ne (Nat.succ_ne_self i), List.getElem?_set_self (Nat.lt_of_succ_lt hi),
    Option.some_inj] at hleft
  exact ⟨hleft, hright⟩

/-- A drag goes through just where the pair at its border has room. -/
theorem dragKeeps_iff {d : DragState} {x y : ℕ} {w : Window} :
    DragKeeps d x y w ↔ RoomToDrag d w := by
  constructor
  · rintro ⟨w', hw', -, -, hat⟩ a ha
    obtain ⟨hfloor, sizes, hlabel, l, r, l', r', hl, hr, rfl, hsum, -, -⟩ := hat a ha
    refine ⟨l, r, hl, hr, ?_⟩
    obtain ⟨l₁, r₁, left, right, hl₁, hr₁, hshares, rfl⟩ := (adjustSplitSizes_some ha).1 hw'
    obtain rfl := Option.some.inj (hl.symm.trans hl₁)
    obtain rfl := Option.some.inj (hr.symm.trans hr₁)
    rw [labelAt_relabelAt, if_pos rfl, ha, Option.map_some, Option.some_inj] at hlabel
    obtain ⟨rfl, rfl⟩ := set_pair_inj (List.getElem?_eq_some_iff.1 hr).1 (congrArg Split.sizes hlabel)
    rw [List.getD_eq_getElem?_getD, List.getD_eq_getElem?_getD, hl, hr] at hfloor
    exact room_of_dragShares hshares hfloor hsum
  · intro hroom
    cases ha : labelAt w.root d.splitPath with
    | none =>
      exact ⟨w, adjustSplitSizes_none ha, rfl, fun _ _ => rfl, by simp [ha]⟩
    | some a =>
      obtain ⟨l, r, hl, hr, h10, h16⟩ := hroom a ha
      obtain ⟨l', r', hshares, hsum, hl', hr'⟩ := dragShares_of_room (d := d) (x := x) (y := y) h10 h16
      refine ⟨_, (adjustSplitSizes_some ha).2 ⟨l, r, l', r', hl, hr, hshares, rfl⟩,
        shape_relabelAt .., fun path hne => ?_, fun b hb => ?_⟩
      · rw [labelAt_relabelAt, if_neg hne]
      · obtain rfl := Option.some.inj (ha.symm.trans hb)
        refine ⟨?_, _, by rw [labelAt_relabelAt, if_pos rfl, ha]; rfl,
          l, r, l', r', hl, hr, rfl, hsum, by omega, by omega⟩
        rw [List.getD_eq_getElem?_getD, List.getD_eq_getElem?_getD, hl, hr, Option.getD_some,
          Option.getD_some, u16]
        omega

/-- The share that gives what share `idx` of `n` gains: the next one, else the one before. -/
def neighborAt (idx n : ℕ) : Option ℕ :=
  if idx + 1 < n then some (idx + 1) else if idx > 0 then some (idx - 1) else none

theorem neighborAt_eq_some {idx n j : ℕ} (hidx : idx < n) (h : neighborAt idx n = some j) :
    j < n ∧ j ≠ idx := by
  rw [neighborAt] at h
  split at h
  · obtain rfl := Option.some.inj h
    omega
  · split at h
    · obtain rfl := Option.some.inj h
      omega
    · contradiction

/-- The neighbor's share after a share went from `old` to `new`. -/
def absorb (new old s : ℕ) : ℕ :=
  atLeastOne (asSigned 16 (asSigned 16 s - asSigned 16 (asSigned 16 new - asSigned 16 old)))

theorem shiftShare_of_some {new : ℕ → ℕ} {idx old : ℕ} {sizes : List ℕ} (h : sizes[idx]? = some old) :
    shiftShare new idx sizes =
      match neighborAt idx sizes.length with
      | none => sizes.set idx (new old)
      | some j => (sizes.set idx (new old)).modify j (absorb (new old) old) := by
  simp only [shiftShare, h, List.length_set, neighborAt]
  split
  · rfl
  · split <;> rfl

/-- What is taken from the neighbor is what the share gained, if that leaves the neighbor 1
at least and no more than a signed number of 16 bits holds. -/
theorem absorb_exact_iff {new old s : ℕ} :
    new + absorb new old s = old + s ↔ new < old + s ∧ old + s ≤ new + 32767 := by
  simp only [absorb, atLeastOne, asSigned]
  omega

/-- The new share leaves the neighbor 1 at least; with no neighbor it is the old one. -/
def LeavesNeighbor (new : ℕ → ℕ) (idx : ℕ) (sizes : List ℕ) : Prop :=
  ∀ old, sizes[idx]? = some old →
    match neighborAt idx sizes.length with
    | none => new old = old
    | some j => new old < old + sizes.getD j 0 ∧ old + sizes.getD j 0 ≤ new old + 32767

theorem sum_shiftShare_iff {new : ℕ → ℕ} {idx : ℕ} {sizes : List ℕ} :
    (shiftShare new idx sizes).sum = sizes.sum ↔ LeavesNeighbor new idx sizes := by
  cases hold : sizes[idx]? with
  | none => simp [shiftShare, LeavesNeighbor, hold]
  | some old =>
    have hset := sum_set_add hold (new old)
    rw [shiftShare_of_some hold]
    simp only [LeavesNeighbor, hold, Option.some_inj, forall_eq']
    cases hj : neighborAt idx sizes.length with
    | none =>
      dsimp only
      omega
    | some j =>
      obtain ⟨hlt, hne⟩ := neighborAt_eq_some (List.getElem?_eq_some_iff.1 hold).1 hj
      have hget : (sizes.set idx (new old))[j]? = some sizes[j] := by
        rw [List.getElem?_set_ne hne.symm, List.getElem?_eq_getElem hlt]
      have hmodify : (sizes.set idx (new old)).modify j (absorb (new old) old) =
          (sizes.set idx (new old)).set j (absorb (new old) old sizes[j]) := by
        rw [List.modify_eq_set, hget]
        rfl
      have habsorb := sum_set_add hget (absorb (new old) old sizes[j])
      dsimp only
      rw [hmodify, List.getD_eq_getElem?_getD, List.getElem?_eq_getElem hlt, Option.getD_some, ← absorb_exact_iff]
      omega

/-- The innermost split of a direction around the active pane, and the pane's share in it. -/
def resizedShare (kind : LayoutKind) (w : Window) : Option (List ℕ × ℕ) :=
  ((List.range w.activePath.length).reverse.find? fun depth =>
    (labelAt w.root (w.activePath.take depth)).any (·.kind = kind)).map fun depth =>
      (w.activePath.take depth, w.activePath.getD depth 0)

/-- The test of `resizeShare` for the split at a depth. -/
theorem kind_at_depth (kind : LayoutKind) (w : Window) (depth : ℕ) :
    (match at? w.root (w.activePath.take depth) with
      | some (.split a _) => decide (a.kind = kind)
      | _ => false) =
    (labelAt w.root (w.activePath.take depth)).any fun a => decide (a.kind = kind) := by
  rw [labelAt]
  split <;> simp_all

theorem resizeShare_eq (kind : LayoutKind) (new : ℕ → ℕ) (w : Window) :
    resizeShare kind new w =
      match resizedShare kind w with
      | none => w
      | some (path, idx) =>
        { w with root := relabelAt (fun a => a.withSizes (shiftShare new idx a.sizes)) path w.root } := by
  rw [resizeShare, resizedShare, ← funext (kind_at_depth kind w)]
  cases (List.range w.activePath.length).reverse.find? _ with
  | none => rfl
  | some depth => rfl

/-- Every split has shares of the sum they had. -/
def ResizeKeeps (edit : Window → Window) (w : Window) : Prop :=
  ∀ path a b, labelAt w.root path = some a → labelAt (edit w).root path = some b →
    b.sizes.sum = a.sizes.sum

/-- In the split that a resize changes, the new share leaves the neighbor 1 at least. -/
def LeavesRoom (kind : LayoutKind) (new : ℕ → ℕ) (w : Window) : Prop :=
  ∀ path idx, resizedShare kind w = some (path, idx) → ∀ a, labelAt w.root path = some a →
    LeavesNeighbor new idx a.sizes

theorem resizeKeeps_iff {kind : LayoutKind} {new : ℕ → ℕ} {w : Window} :
    ResizeKeeps (resizeShare kind new) w ↔ LeavesRoom kind new w := by
  simp only [ResizeKeeps, LeavesRoom, resizeShare_eq]
  cases hshare : resizedShare kind w with
  | none =>
    refine iff_of_true (fun path a b ha hb => ?_) (by simp)
    rw [Option.some.inj (ha.symm.trans hb)]
  | some share =>
    obtain ⟨path, idx⟩ := share
    simp only [Option.some.injEq, Prod.mk.injEq, and_imp, labelAt_relabelAt]
    constructor
    · rintro hkeeps _ _ rfl rfl a ha
      rw [← sum_shiftShare_iff]
      exact hkeeps path a _ ha (by rw [if_pos rfl, ha]; rfl)
    · intro hroom q a b ha hb
      split at hb
      · next hq =>
        subst hq
        rw [ha, Option.map_some, Option.some_inj] at hb
        rw [← hb]
        exact sum_shiftShare_iff.2 (hroom _ _ rfl rfl a ha)
      · rw [Option.some.inj (ha.symm.trans hb)]

/-- The pane's share after a keyboard resize. -/
def resizedBy (amount : ℤ) (old : ℕ) : ℕ := atLeastOne (asSigned 16 (asSigned 16 old + amount))

/-- Whatever was done to the window since the drag began, a drag to any cell goes through
just where the pair at its border has room; and a resize keeps the sum of every split just
where the pane's new share leaves its neighbor something. -/
theorem shares_move_iff (w : Window) :
    (∀ d x y, DragKeeps d x y w ↔ RoomToDrag d w) ∧
    (∀ amount, ResizeKeeps (resizePaneVertical amount) w ↔ LeavesRoom .vertical (resizedBy amount) w) ∧
    (∀ amount, ResizeKeeps (resizePaneHorizontal amount) w ↔
      LeavesRoom .horizontal (resizedBy amount) w) ∧
    (∀ target, ResizeKeeps (resizePaneAbsolute .x target) w ↔
      LeavesRoom .horizontal (fun _ => max target 1) w) ∧
    ∀ target, ResizeKeeps (resizePaneAbsolute .y target) w ↔
      LeavesRoom .vertical (fun _ => max target 1) w :=
  ⟨fun _ _ _ => dragKeeps_iff, fun _ => resizeKeeps_iff, fun _ => resizeKeeps_iff,
    fun _ => resizeKeeps_iff, fun _ => resizeKeeps_iff⟩

example : shiftShare (resizedBy 60) 0 [50, 50] = [110, 1] := by decide

/-- Three panes in a row, a drag started at the first border, then the last pane zoomed. -/
def zoomedInDrag : List Command :=
  [.splitWindow .horizontal true false false none .refused,
    .splitWindow .horizontal true false false none .refused, .selectLayout (utf8 "even-horizontal"),
    .mouseDown 26 3, .focusPane 3, .zoomPane]

/-- The zoom leaves the pair at the border nothing, and the drag takes 5 off it. -/
theorem drag_underflows_after_zoom :
    ¬ ∀ s : Server, (session terminal).Reachable s → ∀ w, s.active = .ok w → ∀ d, s.drag = some d →
      ∀ x y, DragKeeps d x y w := by
  intro h
  have hs : (session terminal).Reachable ((session terminal).run terminal zoomedInDrag) :=
    System.Reachable.run .init _ (by decide)
  have hdrag : ((session terminal).run terminal zoomedInDrag).drag =
      some ⟨[], .horizontal, 0, 25, 3, 33, 80⟩ := by decide
  have hsizes : ((session terminal).run terminal zoomedInDrag).active.toOption.bind
      (fun w => (labelAt w.root []).map Split.sizes) = some [0, 0, 100] := by decide
  generalize (session terminal).run terminal zoomedInDrag = s at hs hdrag hsizes
  obtain ⟨w, hw, hroot⟩ := Option.bind_eq_some_iff.1 hsizes
  obtain ⟨a, ha, hzero⟩ := Option.map_eq_some_iff.1 hroot
  have hactive : s.active = .ok w := by
    cases he : s.active with
    | error e =>
      rw [he] at hw
      contradiction
    | ok v =>
      rw [he] at hw
      rw [Option.some.inj hw]
  have hkeeps := h s hs w hactive _ hdrag 26 3
  obtain ⟨l, r, hl, hr, h10, -⟩ := dragKeeps_iff.1 hkeeps a ha
  rw [hzero] at hl hr
  obtain rfl : 0 = l := Option.some.inj hl
  obtain rfl : 0 = r := Option.some.inj hr
  contradiction

end Winsmux.Layout
