import Winsmux.Layout.FocusChoice
import Winsmux.Layout.Neighbors

/-!
# There and back

A move to a pane that stands next to the active one, or at the opposite edge of the window where the
active one stands at an edge, is undone by the move in the other direction. A pane of two cells across
always has such a neighbor.
-/
namespace Winsmux.Layout
open PathTree
open Row (AtEnd Next Meets)

namespace FocusDir

/-- Whether a move goes along the rows. -/
def axis : FocusDir → Bool
  | .left | .right => true
  | .up | .down => false

def forward : FocusDir → Bool
  | .left | .up => false
  | .right | .down => true

def opposite : FocusDir → FocusDir
  | .left => .right
  | .right => .left
  | .up => .down
  | .down => .up

@[simp] theorem axis_opposite (dir : FocusDir) : dir.opposite.axis = dir.axis := by cases dir <;> rfl

@[simp] theorem forward_opposite (dir : FocusDir) : dir.opposite.forward = !dir.forward := by
  cases dir <;> rfl

end FocusDir

variable {n : Node} {area ra r : Rect} {dir : FocusDir} {path : List ℕ} {rank : List ℕ → ℕ}
  {l m : List ℕ × Rect}

theorem primaryGap_eq (dir : FocusDir) (ra r : Rect) : primaryGap dir ra r =
    if dir.forward then
      if (r.span dir.axis).1 < (ra.span dir.axis).1 + (ra.span dir.axis).2 then none
      else some (((r.span dir.axis).1 : ℤ) - ((ra.span dir.axis).1 + (ra.span dir.axis).2))
    else
      if (r.span dir.axis).1 + (r.span dir.axis).2 > (ra.span dir.axis).1 then none
      else some (((ra.span dir.axis).1 : ℤ) - ((r.span dir.axis).1 + (r.span dir.axis).2)) := by
  cases dir <;> rfl

theorem edgeScore_eq (dir : FocusDir) (ra r : Rect) : edgeScore dir ra r =
    some (if dir.forward then ((r.span dir.axis).1 : ℤ)
      else -((r.span dir.axis).1 + (r.span dir.axis).2)) := by
  cases dir <;> rfl

theorem perpOverlap_iff : perpOverlap dir r ra = true ↔ Facing (!dir.axis) ra r := by
  cases dir <;> simp only [perpOverlap, rangesOverlap, Bool.and_eq_true, decide_eq_true_eq, Facing,
    Rect.span, FocusDir.axis, Bool.not_true, Bool.not_false, if_true, Bool.false_eq_true, if_false] <;>
    exact and_comm

theorem Facing.symm {axis : Bool} (h : Facing axis ra r) : Facing axis r ra := ⟨h.2, h.1⟩

theorem primaryGap_of_next (h : Next dir.forward (ra.span dir.axis) (r.span dir.axis)) :
    primaryGap dir ra r = some 1 := by
  rw [primaryGap_eq]
  cases hf : dir.forward <;> rw [hf] at h <;>
    simp only [Next, if_true, Bool.false_eq_true, if_false] at h ⊢
  · rw [if_neg (by omega)]
    congr 1
    omega
  · rw [if_neg (by omega)]
    congr 1
    omega

/-- Panes that face each other have a cell between them. -/
theorem gap_of_facing {g : ℤ} (hapart : Apart ra r) (hfacing : Facing (!dir.axis) ra r)
    (hgap : primaryGap dir ra r = some g) :
    1 ≤ g ∧ (g = 1 → Next dir.forward (ra.span dir.axis) (r.span dir.axis)) := by
  obtain ⟨axis, hapart⟩ := hapart
  obtain ⟨hlo, hhi⟩ := hfacing
  have haxis : axis = dir.axis := by
    by_contra hne
    obtain rfl : axis = !dir.axis := by cases axis <;> cases h : dir.axis <;> simp_all
    omega
  subst haxis
  rw [primaryGap_eq] at hgap
  cases hf : dir.forward <;> rw [hf] at hgap <;>
    simp only [Next, if_true, Bool.false_eq_true, if_false] at hgap ⊢ <;> split at hgap <;>
    cases hgap <;> omega

/-- No pane lies beyond the edge of the window. -/
theorem primaryGap_of_atEnd (hinside : r.Inside area) (hpos : 0 < (r.span dir.axis).2)
    (hend : AtEnd dir.forward (ra.span dir.axis) (area.span dir.axis)) : primaryGap dir ra r = none := by
  have hinside := hinside.span dir.axis
  rw [primaryGap_eq]
  cases hf : dir.forward <;> rw [hf] at hend <;>
    simp only [AtEnd, if_true, Bool.false_eq_true, if_false] at hend ⊢
  · rw [if_pos (by omega)]
  · rw [if_pos (by omega)]

/-- No pane is nearer to the edge where a move wraps than one at that edge, and those as near are at
the edge as well. -/
theorem edgeScore_of_atEnd {s : Rect} (hinside : r.Inside area) {a b : ℤ}
    (ha : edgeScore dir ra s = some a) (hb : edgeScore dir ra r = some b)
    (hend : AtEnd (!dir.forward) (s.span dir.axis) (area.span dir.axis)) :
    a ≤ b ∧ (b ≤ a → AtEnd (!dir.forward) (r.span dir.axis) (area.span dir.axis)) := by
  have hinside := hinside.span dir.axis
  rw [edgeScore_eq] at ha hb
  cases ha
  cases hb
  cases hf : dir.forward <;> rw [hf] at hend <;>
    simp only [AtEnd, Bool.not_true, Bool.not_false, if_true, Bool.false_eq_true, if_false] at hend ⊢ <;>
    omega

/-- Beside a pane that goes from edge to edge nothing faces it. -/
theorem not_apart_of_atEnd (hinside : r.Inside area) (hpos : 0 < (r.span dir.axis).2)
    (hfacing : Facing (!dir.axis) ra r)
    (hend : AtEnd dir.forward (ra.span dir.axis) (area.span dir.axis))
    (hend' : AtEnd (!dir.forward) (ra.span dir.axis) (area.span dir.axis)) : ¬Apart ra r := by
  rintro ⟨axis, hapart⟩
  obtain ⟨hlo, hhi⟩ := hfacing
  have hinside := hinside.span dir.axis
  by_cases haxis : axis = dir.axis
  · subst haxis
    cases hf : dir.forward <;> rw [hf] at hend hend' <;> simp only [AtEnd, Bool.not_true, Bool.not_false,
      if_true, Bool.false_eq_true, if_false] at hend hend' <;> omega
  · obtain rfl : axis = !dir.axis := by cases axis <;> cases h : dir.axis <;> simp_all
    omega

/-- A pane that overlaps is no nearer than the best. -/
theorem IsBest.score_le {score : FocusDir → Rect → Rect → Option ℤ} {rects : List (List ℕ × Rect)}
    (h : IsBest score rects dir ra path rank l) (hm : m ∈ rects) (hmp : m.1 ≠ path) {t : ℤ}
    (ht : score dir ra m.2 = some t) (hoverlap : perpOverlap dir m.2 ra = true) :
    perpOverlap dir l.2 ra = true ∧ ∃ s, score dir ra l.2 = some s ∧ s ≤ t := by
  obtain ⟨hl, hlp, a, ha, hall⟩ := h
  obtain ⟨s, hs, rfl⟩ := Option.map_eq_some_iff.1 ha
  by_cases heq : m = l
  · subst heq
    exact ⟨hoverlap, s, hs, by rw [Option.some.inj (hs.symm.trans ht)]⟩
  have hnot : ¬(Standing.mk t (perpDist dir m.2 ra) true (rank m.1)).Before
      ⟨s, perpDist dir l.2 ra, perpOverlap dir l.2 ra, rank l.1⟩ := by
    rcases hall m hm hmp heq _ (by rw [standing, ht, hoverlap]; rfl) with hbefore | ⟨hnot, -⟩
    · exact hbefore.asymm
    · exact hnot
  rw [Standing.Before] at hnot
  have hoverlap' : perpOverlap dir l.2 ra = true := by
    by_contra hno
    exact hnot (.inl ⟨rfl, Bool.not_eq_true _ ▸ hno⟩)
  refine ⟨hoverlap', s, hs, ?_⟩
  by_contra hlt
  exact hnot (.inr ⟨hoverlap'.symm, .inl (not_le.1 hlt)⟩)

/-- Two panes that face each other, with one cell between them or at the two edges of the window. -/
def NextTo (dir : FocusDir) (area ra r : Rect) : Prop :=
  Facing (!dir.axis) ra r ∧
    (Next dir.forward (ra.span dir.axis) (r.span dir.axis) ∨
      AtEnd dir.forward (ra.span dir.axis) (area.span dir.axis) ∧
        AtEnd (!dir.forward) (r.span dir.axis) (area.span dir.axis))

section
variable (hm : Measured n) (hv : Visible n area) (hactive : (path, ra) ∈ computeRects n area)
include hm hv hactive

theorem apart_active (hl : l ∈ computeRects n area) (hlp : l.1 ≠ path) : Apart ra l.2 :=
  apart hm (room_of_visible hm hv).1 hactive hl hlp.symm

/-- A pane of two cells across sees the next one, if it is not at the edge. -/
theorem exists_ahead (hthick : 2 ≤ (ra.span !dir.axis).2)
    (hend : ¬AtEnd dir.forward (ra.span dir.axis) (area.span dir.axis)) :
    ∃ m ∈ computeRects n area, m.1 ≠ path ∧ Facing (!dir.axis) ra m.2 ∧
      primaryGap dir ra m.2 = some 1 := by
  obtain ⟨m, hmem, hnext, hfacing⟩ := exists_neighbor hm hv hactive hthick hend
  refine ⟨m, hmem, ?_, hfacing, primaryGap_of_next hnext⟩
  rintro rfl
  have heq : m.2 = ra := by
    have h := rectAt_of_mem hmem
    rw [rectAt_of_mem hactive] at h
    exact (Option.some.inj h).symm
  rw [heq] at hnext
  cases hf : dir.forward <;> rw [hf] at hnext <;>
    simp only [Next, if_true, Bool.false_eq_true, if_false] at hnext <;> omega

/-- The target of a move from a pane of two cells across stands next to it. -/
theorem nextTo_of_thick (h : IsTarget (computeRects n area) dir ra path rank l)
    (hthick : 2 ≤ (ra.span !dir.axis).2) : NextTo dir area ra l.2 := by
  obtain ⟨hroom, -⟩ := room_of_visible hm hv
  rcases h with hbest | ⟨hnone, hbest, hoverlap⟩
  · have hl := hbest.1
    have hlp := hbest.2.1
    obtain ⟨a, ha, -⟩ := hbest.2.2
    have hend : ¬AtEnd dir.forward (ra.span dir.axis) (area.span dir.axis) := by
      intro hend
      rw [standing, primaryGap_of_atEnd (inside_of_mem hm hroom hl) (hv.span hl _) hend] at ha
      cases ha
    obtain ⟨m, hmem, hmp, hfacing, hone⟩ := exists_ahead hm hv hactive hthick hend
    obtain ⟨hoverlap, g, hgap, hle⟩ := hbest.score_le hmem hmp hone (perpOverlap_iff.2 hfacing)
    have hfacing := perpOverlap_iff.1 hoverlap
    obtain ⟨hge, hnext⟩ := gap_of_facing (apart_active hm hv hactive hl hlp) hfacing hgap
    exact ⟨hfacing, .inl (hnext (le_antisymm hle hge))⟩
  · have hfacing := perpOverlap_iff.1 hoverlap
    have hend : AtEnd dir.forward (ra.span dir.axis) (area.span dir.axis) := by
      by_contra hend
      obtain ⟨m, hmem, hmp, -, hone⟩ := exists_ahead hm hv hactive hthick hend
      rw [hnone m hmem hmp] at hone
      cases hone
    have hmeets : Meets (ra.span !dir.axis).1 ((ra.span !dir.axis).1 + (ra.span !dir.axis).2)
        (area.span !dir.axis) := by
      have hinside := (inside_of_mem hm hroom hactive).span !dir.axis
      unfold Meets
      dsimp only at hinside
      omega
    obtain ⟨m, hmem, hmend, hmfacing⟩ := exists_at_edge hm hv dir.axis (!dir.forward) hmeets
    have hl := hbest.1
    refine ⟨hfacing, .inr ⟨hend, ?_⟩⟩
    by_cases hmp : m.1 = path
    · -- the active pane goes from edge to edge, and nothing else faces it
      have heq : m.2 = ra := by
        have hrect := rectAt_of_mem hmem
        rw [hmp, rectAt_of_mem hactive] at hrect
        exact (Option.some.inj hrect).symm
      rw [heq] at hmend
      exact absurd (apart_active hm hv hactive hl hbest.2.1)
        (not_apart_of_atEnd (inside_of_mem hm hroom hl) (hv.span hl _) hfacing hend hmend)
    · obtain ⟨t, ht⟩ : ∃ t, edgeScore dir ra m.2 = some t := ⟨_, edgeScore_eq dir ra m.2⟩
      obtain ⟨-, s, hs, hle⟩ := hbest.score_le hmem hmp ht (perpOverlap_iff.2 hmfacing)
      exact (edgeScore_of_atEnd (inside_of_mem hm hroom hl) ht hs hmend).2 hle

/-- From a pane next to it, the active pane is the target of the move back, if all others had the
focus longer ago. -/
theorem isTarget_back (hl : l ∈ computeRects n area) (hlp : l.1 ≠ path) (hnext : NextTo dir area ra l.2)
    {rank' : List ℕ → ℕ}
    (hrank : ∀ m ∈ computeRects n area, m.1 ≠ l.1 → m.1 ≠ path → rank' path < rank' m.1) :
    IsTarget (computeRects n area) dir.opposite l.2 l.1 rank' (path, ra) := by
  obtain ⟨hroom, -⟩ := room_of_visible hm hv
  obtain ⟨hfacing, hstand⟩ := hnext
  have hback : Facing (!dir.opposite.axis) l.2 ra := by
    rw [FocusDir.axis_opposite]
    exact hfacing.symm
  have hne {m : List ℕ × Rect} (hmem : m ∈ computeRects n area) (h : m ≠ (path, ra)) : m.1 ≠ path := by
    rintro rfl
    have hrect := rectAt_of_mem hmem
    rw [rectAt_of_mem hactive] at hrect
    exact h (Prod.ext rfl (Option.some.inj hrect).symm)
  have hlapart {m : List ℕ × Rect} (hmem : m ∈ computeRects n area) (h : m.1 ≠ l.1) : Apart l.2 m.2 :=
    apart hm hroom hl hmem h.symm
  rcases hstand with hstand | ⟨hend, hlend⟩
  · left
    have hgap : primaryGap dir.opposite l.2 ra = some 1 := by
      refine primaryGap_of_next ?_
      rw [FocusDir.axis_opposite, FocusDir.forward_opposite]
      cases hf : dir.forward <;> rw [hf] at hstand <;> exact hstand
    refine ⟨hactive, hlp.symm, _, by rw [standing, hgap, perpOverlap_iff.2 hback]; rfl, ?_⟩
    intro m hmem hml hmne b hb
    obtain ⟨g, hg, rfl⟩ := Option.map_eq_some_iff.1 hb
    left
    cases hoverlap : perpOverlap dir.opposite m.2 l.2 with
    | false => exact .inl ⟨rfl, rfl⟩
    | true =>
      have hge := (gap_of_facing (hlapart hmem hml) (perpOverlap_iff.1 hoverlap) hg).1
      refine .inr ⟨rfl, ?_⟩
      rcases hge.lt_or_eq with hlt | heq
      · exact .inl hlt
      · exact .inr ⟨heq, .inr ⟨.inl rfl, hrank m hmem hml (hne hmem hmne)⟩⟩
  · right
    have hlend' : AtEnd dir.opposite.forward (l.2.span dir.opposite.axis)
        (area.span dir.opposite.axis) := by
      rw [FocusDir.axis_opposite, FocusDir.forward_opposite]
      exact hlend
    have hend' : AtEnd (!dir.opposite.forward) (ra.span dir.opposite.axis)
        (area.span dir.opposite.axis) := by
      rw [FocusDir.axis_opposite, FocusDir.forward_opposite, Bool.not_not]
      exact hend
    refine ⟨fun m hmem _ =>
      primaryGap_of_atEnd (inside_of_mem hm hroom hmem) (hv.span hmem _) hlend', ?_,
      perpOverlap_iff.2 hback⟩
    obtain ⟨s, hs⟩ : ∃ s, edgeScore dir.opposite l.2 ra = some s := ⟨_, edgeScore_eq _ _ _⟩
    refine ⟨hactive, hlp.symm, _, by rw [standing, hs, perpOverlap_iff.2 hback]; rfl, ?_⟩
    intro m hmem hml hmne b hb
    obtain ⟨t, ht, rfl⟩ := Option.map_eq_some_iff.1 hb
    left
    cases hoverlap : perpOverlap dir.opposite m.2 l.2 with
    | false => exact .inl ⟨rfl, rfl⟩
    | true =>
      refine .inr ⟨rfl, ?_⟩
      rcases (edgeScore_of_atEnd (inside_of_mem hm hroom hmem) hs ht hend').1.lt_or_eq with hlt | heq
      · exact .inl hlt
      · exact .inr ⟨heq, .inr ⟨.inl rfl, hrank m hmem hml (hne hmem hmne)⟩⟩

end

/-- The pane that had the focus before comes second. -/
theorem mruRank_touchMru {a b c : ℕ} (mru : List ℕ) (hab : a ≠ b) (hca : c ≠ a) (hcb : c ≠ b) :
    mruRank (touchMru (a :: mru) b) a < mruRank (touchMru (a :: mru) b) c := by
  have hlist : touchMru (a :: mru) b = b :: a :: mru.erase b := by
    rw [touchMru, List.erase_cons_tail (by simpa using hab)]
  have hrank : mruRank (b :: a :: mru.erase b) a = 1 := by
    simp [mruRank, hab.symm]
  rw [hlist, hrank, mruRank]
  split
  · rw [List.idxOf_cons_ne _ hcb.symm, List.idxOf_cons_ne _ hca.symm]
    omega
  · decide

/-- Panes at different paths have different ids. -/
theorem paneIdAt_ne (hids : (collectPaneIds n).Nodup) (hl : l ∈ computeRects n area)
    (hl' : m ∈ computeRects n area) (hne : l.1 ≠ m.1) : paneIdAt n l.1 ≠ paneIdAt n m.1 := by
  have hleaf {l : List ℕ × Rect} (hl : l ∈ computeRects n area) :
      ∃ p, (l.1, p) ∈ leavesAt n ∧ paneIdAt n l.1 = p.id := by
    have hpath : l.1 ∈ collectPanePaths n := map_fst_computeRects n area ▸ List.mem_map_of_mem hl
    obtain ⟨⟨path, p⟩, hp, hpath⟩ := List.mem_map.1 hpath
    obtain rfl : path = l.1 := hpath
    exact ⟨p, hp, by rw [paneIdAt, getActivePaneId_of_leaf (mem_leavesAt.1 hp)]; rfl⟩
  obtain ⟨p, hp, hpid⟩ := hleaf hl
  obtain ⟨q, hq, hqid⟩ := hleaf hl'
  rw [hpid, hqid]
  intro hid
  rw [collectPaneIds, leaves, List.map_map] at hids
  exact hne (Prod.mk.inj (List.inj_on_of_nodup_map hids hp hq hid)).1

theorem nodup_rects (n : Node) (area : Rect) : ((computeRects n area).map Prod.fst).Nodup := by
  rw [map_fst_computeRects]
  exact nodup_paths n

theorem moveFocus_back {w : Window} (hm : Measured w.root) (hv : Visible w.root area)
    (hids : (collectPaneIds w.root).Nodup) (hactive : (w.activePath, ra) ∈ computeRects w.root area)
    (hmru : w.paneMru.head? = some (paneIdAt w.root w.activePath))
    (h : target (computeRects w.root area) (paneIdAt w.root) w.paneMru w.activePath dir = some l)
    (hnext : NextTo dir area ra l.2) :
    (moveFocus area dir.opposite (moveFocus area dir w)).activePath = w.activePath := by
  have htarget := (target_eq_some_iff (nodup_rects _ _) hactive).1 h
  have hl : l ∈ computeRects w.root area := htarget.elim (·.1) (·.2.1.1)
  have hlp : l.1 ≠ w.activePath := htarget.elim (·.2.1) (·.2.1.2.1)
  obtain ⟨mru, hmru⟩ := List.head?_eq_some_iff.1 hmru
  have hback : target (computeRects w.root area) (paneIdAt w.root)
      (touchMru w.paneMru (paneIdAt w.root l.1)) l.1 dir.opposite = some (w.activePath, ra) := by
    rw [target_eq_some_iff (nodup_rects _ _) hl]
    refine isTarget_back hm hv hactive hl hlp hnext fun m hmem hml hmp => ?_
    rw [hmru]
    exact mruRank_touchMru mru (paneIdAt_ne hids hactive hl hlp.symm) (paneIdAt_ne hids hmem hactive hmp)
      (paneIdAt_ne hids hmem hl hml)
  have hmove : moveFocus area dir w = w.focused l.1 (touchMru w.paneMru (paneIdAt w.root l.1)) := by
    rw [moveFocus_eq_target, h]
  rw [hmove, moveFocus_eq_target]
  simp only [Window.focused, hback]

/-- The pane a move in a direction goes to is the best of those in the direction or, where there is
none, the best at the opposite edge if it overlaps; where ranks differ it does not depend on the order
of the panes. From a pane of two cells across the move goes to one next to it, and a move to a pane
next to the active one is undone by the move back. -/
theorem moveFocus_spec {w : Window} (hm : Measured w.root) (hv : Visible w.root area)
    (hids : (collectPaneIds w.root).Nodup) (hactive : (w.activePath, ra) ∈ computeRects w.root area)
    (dir : FocusDir) :
    let rects := computeRects w.root area
    let rank := fun path => mruRank w.paneMru (paneIdAt w.root path)
    let goal := target rects (paneIdAt w.root) w.paneMru w.activePath dir
    (moveFocus area dir w =
      match goal with
      | none => w
      | some l => w.focused l.1 (touchMru w.paneMru (paneIdAt w.root l.1))) ∧
    (∀ l, goal = some l ↔ IsTarget rects dir ra w.activePath rank l) ∧
    (∀ rects', rects'.Perm rects → (∀ l ∈ rects, ∀ m ∈ rects, l ≠ m → rank l.1 ≠ rank m.1) →
      target rects' (paneIdAt w.root) w.paneMru w.activePath dir = goal) ∧
    (∀ l, goal = some l → 2 ≤ (ra.span !dir.axis).2 → NextTo dir area ra l.2) ∧
    (w.paneMru.head? = some (paneIdAt w.root w.activePath) → ∀ l, goal = some l →
      NextTo dir area ra l.2 →
        (moveFocus area dir.opposite (moveFocus area dir w)).activePath = w.activePath) := by
  dsimp only
  refine ⟨moveFocus_eq_target area dir w, fun l => target_eq_some_iff (nodup_rects _ _) hactive, ?_,
    fun l hl hthick => ?_, fun hmru l hl hnext => moveFocus_back hm hv hids hactive hmru hl hnext⟩
  · exact fun rects' hperm hrank => target_perm hperm (nodup_rects _ _) hactive _ _ dir hrank
  · exact nextTo_of_thick hm hv hactive ((target_eq_some_iff (nodup_rects _ _) hactive).1 hl) hthick

/-- Two stacked panes beside a pane that is two cells high: a move to the right and back. -/
theorem moveFocus_spec_two :
    let w : Window := ⟨1, .split ⟨.horizontal, [50, 50]⟩
      [.leaf ⟨1, false⟩, .split ⟨.vertical, [50, 50]⟩ [.leaf ⟨2, false⟩, .leaf ⟨3, false⟩]], [0], 0,
      [1, 2, 3], none⟩
    (moveFocus ⟨0, 0, 9, 5⟩ .left (moveFocus ⟨0, 0, 9, 5⟩ .right w)).activePath = [0] := by
  intro w
  have hspec := @moveFocus_spec ⟨0, 0, 9, 5⟩ ⟨0, 0, 4, 5⟩ w ?_ ?_ ?_ ?_ .right
  · obtain ⟨-, -, -, hnext, hback⟩ := hspec
    have hgoal : target (computeRects w.root ⟨0, 0, 9, 5⟩) (paneIdAt w.root) w.paneMru w.activePath
        .right = some ([1, 0], ⟨5, 0, 4, 2⟩) := by decide
    exact hback rfl _ hgoal (hnext _ hgoal (by decide))
  · simp [w, Measured, allSplits_split]
  · unfold Visible
    decide
  · decide
  · decide

/-- A pane of one cell beside a separator: no pane overlaps it, the move to the right goes to the pane
above the separator, and the move back goes elsewhere. -/
theorem moveFocus_one_cell :
    let w : Window := ⟨1, .split ⟨.horizontal, [50, 50]⟩
      [.split ⟨.vertical, [34, 34, 32]⟩ [.leaf ⟨1, false⟩, .leaf ⟨2, false⟩, .leaf ⟨3, false⟩],
        .split ⟨.vertical, [50, 50]⟩ [.leaf ⟨4, false⟩, .leaf ⟨5, false⟩]], [0, 1], 0, [2, 1, 3, 4, 5],
      none⟩
    let area : Rect := ⟨0, 0, 9, 5⟩
    (∀ l ∈ computeRects w.root area, 0 < l.2.width ∧ 0 < l.2.height) ∧
      ([0, 1], ⟨0, 2, 4, 1⟩) ∈ computeRects w.root area ∧
      (∀ l ∈ computeRects w.root area, l.1 ≠ [0, 1] → perpOverlap .right l.2 ⟨0, 2, 4, 1⟩ = false) ∧
      (moveFocus area .right w).activePath = [1, 0] ∧
      (moveFocus area .left (moveFocus area .right w)).activePath ≠ [0, 1] := by
  decide

end Winsmux.Layout
