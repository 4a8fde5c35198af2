import Winsmux.Layout.Effect

/-!
# The pane a move in a direction goes to

The candidates are compared by whether they overlap, then by how far they are, then by how recently
they had the focus; of equals the first stays. What is chosen is said here without the order in which
the panes are looked at.
-/
namespace Winsmux.Layout
open PathTree

/-- What candidates are compared by. -/
structure Standing where
  score : ℤ
  dist : ℕ
  overlap : Bool
  rank : ℕ

/-- An overlapping pane goes before one that does not overlap, then the one with the smaller score.
At the same score, overlapping panes are compared by recency, others first by their centers. -/
def Standing.Before (a b : Standing) : Prop :=
  a.overlap = true ∧ b.overlap = false ∨
    a.overlap = b.overlap ∧
      (a.score < b.score ∨
        a.score = b.score ∧
          (a.overlap = false ∧ a.dist < b.dist ∨
            (a.overlap = true ∨ a.dist = b.dist) ∧ a.rank < b.rank))

def Candidate.standing (c : Candidate) : Standing := ⟨c.score, c.dist, c.overlap, c.rank⟩

theorem dominated_iff (best new : Candidate) :
    dominated best new = true ↔ ¬new.standing.Before best.standing := by
  obtain ⟨i, s, d, o, r⟩ := best
  obtain ⟨j, t, e, p, q⟩ := new
  cases o <;> cases p <;> simp only [dominated, Candidate.standing, Standing.Before] <;> grind

namespace Standing
variable {a b c : Standing}

theorem Before.asymm (h : a.Before b) : ¬b.Before a := by
  unfold Before at h ⊢
  grind

theorem Before.of_not_before (h : a.Before b) (h' : ¬c.Before b) : a.Before c := by
  unfold Before at h h' ⊢
  grind

/-- Panes of different ranks are not equals. -/
theorem before_or_before (h : a.rank ≠ b.rank) : a.Before b ∨ b.Before a := by
  unfold Before
  grind

end Standing

/-- Of equals the first stays. -/
def Candidate.Leads (c d : Candidate) : Prop :=
  c.standing.Before d.standing ∨ ¬d.standing.Before c.standing ∧ c.index < d.index

theorem Candidate.Leads.not_before {c d : Candidate} (h : c.Leads d) : ¬d.standing.Before c.standing := by
  rcases h with h | h
  · exact h.asymm
  · exact h.1

theorem foldl_choose_eq_none {l : List Candidate} : l.foldl choose none = none ↔ l = [] := by
  refine ⟨fun h => ?_, fun h => by rw [h]; rfl⟩
  induction l using List.reverseRecOn with
  | nil => rfl
  | append_singleton l d =>
    rw [List.foldl_append, List.foldl_cons, List.foldl_nil] at h
    unfold choose at h
    split at h
    · cases h
    · split at h <;> cases h

/-- The fold over candidates in order ends with the one that leads all others. -/
theorem foldl_choose_eq_some {l : List Candidate} (hl : l.Pairwise fun c d => c.index < d.index)
    {c : Candidate} (h : l.foldl choose none = some c) : c ∈ l ∧ ∀ d ∈ l, d = c ∨ c.Leads d := by
  induction l using List.reverseRecOn generalizing c with
  | nil => cases h
  | append_singleton l d ih =>
    obtain ⟨hl, -, hd⟩ := List.pairwise_append.1 hl
    rw [List.foldl_append, List.foldl_cons, List.foldl_nil] at h
    match hbest : l.foldl choose none with
    | none =>
      rw [hbest] at h
      obtain rfl : d = c := Option.some.inj h
      rw [foldl_choose_eq_none.1 hbest]
      simp
    | some best =>
      obtain ⟨hmem, hleads⟩ := ih hl hbest
      rw [hbest, choose] at h
      split at h
      · next hdom =>
        obtain rfl : best = c := Option.some.inj h
        refine ⟨List.mem_append_left _ hmem, fun e he => ?_⟩
        rcases List.mem_append.1 he with he | he
        · exact hleads e he
        · obtain rfl := List.mem_singleton.1 he
          exact .inr (.inr ⟨(dominated_iff _ _).1 hdom, hd best hmem e List.mem_cons_self⟩)
      · next hdom =>
        obtain rfl : d = c := Option.some.inj h
        have hbefore : d.standing.Before best.standing := by
          rw [dominated_iff] at hdom
          exact not_not.1 hdom
        refine ⟨List.mem_append_right _ List.mem_cons_self, fun e he => ?_⟩
        rcases List.mem_append.1 he with he | he
        · right
          left
          rcases hleads e he with rfl | hlead
          · exact hbefore
          · exact hbefore.of_not_before hlead.not_before
        · exact .inl (List.mem_singleton.1 he)

def paneIdAt (n : Node) (path : List ℕ) : ℕ := (getActivePaneId n path).getD usizeMax

/-- What a pane is compared by, if the score admits it. -/
def standing (score : FocusDir → Rect → Rect → Option ℤ) (dir : FocusDir) (arect : Rect)
    (rank : List ℕ → ℕ) (l : List ℕ × Rect) : Option Standing :=
  (score dir arect l.2).map fun s => ⟨s, perpDist dir l.2 arect, perpOverlap dir l.2 arect, rank l.1⟩

section
variable {score : FocusDir → Rect → Rect → Option ℤ} {rects : List (List ℕ × Rect)} {dir : FocusDir}
  {arect : Rect} {path : List ℕ} {rank : List ℕ → ℕ} {l m : List ℕ × Rect}

/-- The pane that leads all others that the score admits. -/
def IsBest (score : FocusDir → Rect → Rect → Option ℤ) (rects : List (List ℕ × Rect)) (dir : FocusDir)
    (arect : Rect) (path : List ℕ) (rank : List ℕ → ℕ) (l : List ℕ × Rect) : Prop :=
  l ∈ rects ∧ l.1 ≠ path ∧ ∃ a, standing score dir arect rank l = some a ∧
    ∀ m ∈ rects, m.1 ≠ path → m ≠ l → ∀ b, standing score dir arect rank m = some b →
      a.Before b ∨ ¬b.Before a ∧ rects.idxOf l < rects.idxOf m

theorem IsBest.unique (hl : IsBest score rects dir arect path rank l)
    (hm : IsBest score rects dir arect path rank m) : l = m := by
  obtain ⟨hl, hlp, a, ha, hall⟩ := hl
  obtain ⟨hm, hmp, b, hb, hall'⟩ := hm
  by_contra hne
  have hlm := hall m hm hmp (Ne.symm hne) b hb
  have hml := hall' l hl hlp hne a ha
  rcases hlm with hlm | ⟨hnot, hlt⟩
  · rcases hml with hml | ⟨hnot, -⟩
    · exact hlm.asymm hml
    · exact hnot hlm
  · rcases hml with hml | ⟨-, hlt'⟩
    · exact hnot hml
    · omega

variable {paneId : List ℕ → ℕ} {mru : List ℕ}

theorem mem_candidates {ai : ℕ} {c : Candidate} :
    c ∈ (rects.zipIdx.filterMap fun (l, i) =>
        candidate score ai arect dir (rects.map fun l => paneId l.1) mru l.2 i) ↔
      ∃ l, rects[c.index]? = some l ∧ c.index ≠ ai ∧
        standing score dir arect (fun p => mruRank mru (paneId p)) l = some c.standing := by
  rw [List.mem_filterMap]
  constructor
  · rintro ⟨⟨l, i⟩, hl, hc⟩
    rw [List.mem_zipIdx_iff_getElem?] at hl
    simp only [candidate] at hc
    split at hc
    · cases hc
    · next hi =>
      obtain ⟨s, hs, rfl⟩ := Option.map_eq_some_iff.1 hc
      refine ⟨l, hl, hi, ?_⟩
      simp only at hl
      simp [standing, hs, Candidate.standing, List.getElem?_map, hl]
  · rintro ⟨l, hl, hi, hc⟩
    obtain ⟨s, hs, hstanding⟩ := Option.map_eq_some_iff.1 hc
    refine ⟨(l, c.index), List.mem_zipIdx_iff_getElem?.2 hl, ?_⟩
    obtain ⟨i, t, d, o, r⟩ := c
    simp only [Candidate.standing, Standing.mk.injEq] at hstanding hl hi
    obtain ⟨rfl, rfl, rfl, rfl⟩ := hstanding
    simp [candidate, hi, hs, List.getElem?_map, hl]

theorem pairwise_candidates {ai : ℕ} {paneIds : List ℕ} :
    (rects.zipIdx.filterMap fun (l, i) =>
      candidate score ai arect dir paneIds mru l.2 i).Pairwise fun c d => c.index < d.index := by
  have hindex (r : Rect) (i : ℕ) (c : Candidate)
      (hc : candidate score ai arect dir paneIds mru r i = some c) : c.index = i := by
    rw [candidate] at hc
    split at hc
    · cases hc
    · obtain ⟨s, -, rfl⟩ := Option.map_eq_some_iff.1 hc
      rfl
  rw [List.pairwise_filterMap]
  have hzip : rects.zipIdx.Pairwise fun l m => l.2 < m.2 := by
    rw [← List.pairwise_map (f := Prod.snd), List.zipIdx_map_snd]
    exact List.pairwise_lt_range'
  refine hzip.imp fun {l m} hlm c hc d hd => ?_
  rw [hindex _ _ c hc, hindex _ _ d hd]
  exact hlm

variable (hnodup : (rects.map Prod.fst).Nodup)
include hnodup

theorem ne_findIdx_iff {i : ℕ} (hl : rects[i]? = some l) :
    i ≠ rects.findIdx (fun l => l.1 = path) ↔ l.1 ≠ path := by
  obtain ⟨hi, hli⟩ := List.getElem?_eq_some_iff.1 hl
  refine not_congr ⟨fun h => ?_, fun h => ?_⟩
  · subst h
    have hfind := List.findIdx_getElem (p := fun l : List ℕ × Rect => decide (l.1 = path)) (w := hi)
    rw [hli] at hfind
    exact of_decide_eq_true hfind
  · have hle : rects.findIdx (fun l => l.1 = path) ≤ i := by
      by_contra hlt
      have hnot := List.not_of_lt_findIdx (not_le.1 hlt)
      rw [hli] at hnot
      simp [h] at hnot
    refine (le_antisymm hle ?_).symm
    by_contra hlt
    have hlt := not_le.1 hlt
    have hfind := List.findIdx_getElem (p := fun l : List ℕ × Rect => decide (l.1 = path))
      (w := hlt.trans hi)
    have heq : rects[rects.findIdx fun l => l.1 = path].1 = rects[i].1 := by
      rw [hli, h]
      exact of_decide_eq_true hfind
    have hlen : (rects.map Prod.fst).length = rects.length := List.length_map _
    have hindex := (@List.Nodup.getElem_inj_iff _ _ hnodup
      (rects.findIdx fun l : List ℕ × Rect => l.1 = path) (by omega) i (by omega)).1 (by simpa using heq)
    omega

theorem idxOf_eq {i : ℕ} (hl : rects[i]? = some l) : rects.idxOf l = i := by
  obtain ⟨hi, rfl⟩ := List.getElem?_eq_some_iff.1 hl
  exact List.Nodup.idxOf_getElem (List.Nodup.of_map _ hnodup) i hi

/-- What the best candidate of the list says about the panes. -/
theorem isBest_of_bestCandidate {c : Candidate}
    (h : bestCandidate score rects (rects.findIdx fun l => l.1 = path) arect dir
      (rects.map fun l => paneId l.1) mru = some c) :
    ∃ l, rects[c.index]? = some l ∧ c.overlap = perpOverlap dir l.2 arect ∧
      IsBest score rects dir arect path (fun p => mruRank mru (paneId p)) l := by
  obtain ⟨hmem, hleads⟩ := foldl_choose_eq_some pairwise_candidates h
  obtain ⟨l, hl, hi, hc⟩ := mem_candidates.1 hmem
  obtain ⟨s, -, hstanding⟩ := Option.map_eq_some_iff.1 hc
  have hoverlap : c.overlap = perpOverlap dir l.2 arect := (congrArg Standing.overlap hstanding).symm
  refine ⟨l, hl, hoverlap, List.mem_of_getElem? hl, (ne_findIdx_iff hnodup hl).1 hi, _, hc, ?_⟩
  intro m hm hmp hne b hb
  obtain ⟨j, hj⟩ := List.mem_iff_getElem?.1 hm
  have hlead := hleads ⟨j, b.score, b.dist, b.overlap, b.rank⟩
    (mem_candidates.2 ⟨m, hj, (ne_findIdx_iff hnodup hj).2 hmp, hb⟩)
  rcases hlead with heq | hlead
  · have hij : j = c.index := congrArg Candidate.index heq
    rw [hij, hl] at hj
    exact absurd (Option.some.inj hj).symm hne
  · rcases hlead with hlead | ⟨hnot, hlt⟩
    · exact .inl hlead
    · refine .inr ⟨hnot, ?_⟩
      rw [idxOf_eq hnodup hl, idxOf_eq hnodup hj]
      exact hlt

theorem bestCandidate_eq_none
    (h : bestCandidate score rects (rects.findIdx fun l => l.1 = path) arect dir
      (rects.map fun l => paneId l.1) mru = none) (hl : l ∈ rects) (hlp : l.1 ≠ path) :
    score dir arect l.2 = none := by
  obtain ⟨i, hi⟩ := List.mem_iff_getElem?.1 hl
  cases hs : score dir arect l.2 with
  | none => rfl
  | some s =>
    have hstanding : standing score dir arect (fun p => mruRank mru (paneId p)) l =
        some ⟨s, perpDist dir l.2 arect, perpOverlap dir l.2 arect, mruRank mru (paneId l.1)⟩ := by
      rw [standing, hs]
      rfl
    let c : Candidate :=
      ⟨i, s, perpDist dir l.2 arect, perpOverlap dir l.2 arect, mruRank mru (paneId l.1)⟩
    have hnil := foldl_choose_eq_none.1 h
    have hin := (mem_candidates (c := c)).2 ⟨l, hi, (ne_findIdx_iff hnodup hi).2 hlp, hstanding⟩
    rw [hnil] at hin
    cases hin

end

/-- The pane that a move goes to, whatever the order in which the panes are listed. -/
def target (rects : List (List ℕ × Rect)) (paneId : List ℕ → ℕ) (mru path : List ℕ)
    (dir : FocusDir) : Option (List ℕ × Rect) :=
  let ai := rects.findIdx fun l => l.1 = path
  match rects[ai]? with
  | none => none
  | some (_, arect) =>
    (directionTarget rects ai arect dir (rects.map fun l => paneId l.1) mru).bind fun i => rects[i]?

theorem moveFocus_eq_target (area : Rect) (dir : FocusDir) (w : Window) :
    moveFocus area dir w =
      match target (computeRects w.root area) (paneIdAt w.root) w.paneMru w.activePath dir with
      | none => w
      | some l => w.focused l.1 (touchMru w.paneMru (paneIdAt w.root l.1)) := by
  simp only [moveFocus, target]
  generalize computeRects w.root area = rects
  cases rects[rects.findIdx fun l => l.1 = w.activePath]? with
  | none => rfl
  | some l =>
    obtain ⟨p, arect⟩ := l
    simp only [paneIdAt]
    generalize directionTarget rects _ arect dir _ w.paneMru = chosen
    cases chosen with
    | none => rfl
    | some ni =>
      cases hni : rects[ni]? with
      | none => simp [hni]
      | some l => simp [hni, Window.focused]

/-- The pane a move goes to: the best of those in the direction or, where there is none, the one at
the opposite edge, if it overlaps. -/
def IsTarget (rects : List (List ℕ × Rect)) (dir : FocusDir) (arect : Rect) (path : List ℕ)
    (rank : List ℕ → ℕ) (l : List ℕ × Rect) : Prop :=
  IsBest primaryGap rects dir arect path rank l ∨
    (∀ m ∈ rects, m.1 ≠ path → primaryGap dir arect m.2 = none) ∧
      IsBest edgeScore rects dir arect path rank l ∧ perpOverlap dir l.2 arect = true

theorem IsTarget.unique {rects : List (List ℕ × Rect)} {dir : FocusDir} {arect : Rect} {path : List ℕ}
    {rank : List ℕ → ℕ} {l m : List ℕ × Rect} (hl : IsTarget rects dir arect path rank l)
    (hm : IsTarget rects dir arect path rank m) : l = m := by
  have hahead {k : List ℕ × Rect} (hk : IsBest primaryGap rects dir arect path rank k)
      (hnone : ∀ m ∈ rects, m.1 ≠ path → primaryGap dir arect m.2 = none) : False := by
    obtain ⟨hk, hkp, a, ha, -⟩ := hk
    rw [standing, hnone k hk hkp] at ha
    cases ha
  rcases hl with hl | ⟨hnone, hl, -⟩
  · rcases hm with hm | ⟨hnone, -⟩
    · exact hl.unique hm
    · exact (hahead hl hnone).elim
  · rcases hm with hm | ⟨-, hm, -⟩
    · exact (hahead hm hnone).elim
    · exact hl.unique hm

section
variable {rects : List (List ℕ × Rect)} {path : List ℕ} {arect : Rect} {paneId : List ℕ → ℕ}
  {mru : List ℕ} {dir : FocusDir} {l : List ℕ × Rect} (hnodup : (rects.map Prod.fst).Nodup)
  (hactive : (path, arect) ∈ rects)
include hnodup hactive

theorem target_eq : target rects paneId mru path dir =
    (directionTarget rects (rects.findIdx fun l => l.1 = path) arect dir
      (rects.map fun l => paneId l.1) mru).bind fun i => rects[i]? := by
  obtain ⟨i, hi⟩ := List.mem_iff_getElem?.1 hactive
  have hindex : i = rects.findIdx fun l => l.1 = path := by
    by_contra hne
    exact (ne_findIdx_iff hnodup hi).1 hne rfl
  rw [hindex] at hi
  rw [target, hi]

theorem isTarget_of_target (h : target rects paneId mru path dir = some l) :
    IsTarget rects dir arect path (fun p => mruRank mru (paneId p)) l := by
  rw [target_eq hnodup hactive, directionTarget, findBestPaneInDirection, findWrapTarget] at h
  cases hbest : bestCandidate primaryGap rects (rects.findIdx fun l => l.1 = path) arect dir
      (rects.map fun l => paneId l.1) mru with
  | some c =>
    obtain ⟨l', hl', -, hbest'⟩ := isBest_of_bestCandidate hnodup hbest
    rw [hbest] at h
    simp only [Option.map_some, Option.bind_some, hl', Option.some.injEq] at h
    exact .inl (h ▸ hbest')
  | none =>
    rw [hbest] at h
    refine .inr ⟨fun m hm hmp => bestCandidate_eq_none hnodup hbest hm hmp, ?_⟩
    obtain ⟨i, hi, hl⟩ := Option.bind_eq_some_iff.1 h
    obtain ⟨c, hc, rfl⟩ := Option.map_eq_some_iff.1 hi
    obtain ⟨hc, hoverlap⟩ := Option.filter_eq_some_iff.1 hc
    obtain ⟨l', hl', heq, hbest'⟩ := isBest_of_bestCandidate hnodup hc
    rw [hl'] at hl
    obtain rfl := Option.some.inj hl
    exact ⟨hbest', heq ▸ hoverlap⟩

/-- A move goes nowhere only if no pane lies in the direction and none overlaps. -/
theorem not_isTarget_of_none (h : target rects paneId mru path dir = none) :
    ¬IsTarget rects dir arect path (fun p => mruRank mru (paneId p)) l := by
  rw [target_eq hnodup hactive, directionTarget, findBestPaneInDirection, findWrapTarget] at h
  intro htarget
  cases hbest : bestCandidate primaryGap rects (rects.findIdx fun l => l.1 = path) arect dir
      (rects.map fun l => paneId l.1) mru with
  | some c =>
    obtain ⟨l', hl', -⟩ := isBest_of_bestCandidate hnodup hbest
    simp [hbest, hl'] at h
  | none =>
    rcases htarget with ⟨hl, hlp, a, ha, -⟩ | ⟨-, hedge, hoverlap⟩
    · rw [standing, bestCandidate_eq_none hnodup hbest hl hlp] at ha
      cases ha
    · cases hwrap : bestCandidate edgeScore rects (rects.findIdx fun l => l.1 = path) arect dir
          (rects.map fun l => paneId l.1) mru with
      | none =>
        obtain ⟨hl, hlp, a, ha, -⟩ := hedge
        rw [standing, bestCandidate_eq_none hnodup hwrap hl hlp] at ha
        cases ha
      | some c =>
        obtain ⟨l', hl', heq, hbest'⟩ := isBest_of_bestCandidate hnodup hwrap
        rw [hbest'.unique hedge, hoverlap] at heq
        simp [hbest, hwrap, heq] at h
        exact absurd (List.getElem?_eq_some_iff.1 hl').1 (not_lt.2 h)

theorem target_eq_some_iff : target rects paneId mru path dir = some l ↔
    IsTarget rects dir arect path (fun p => mruRank mru (paneId p)) l := by
  refine ⟨isTarget_of_target hnodup hactive, fun h => ?_⟩
  cases htarget : target rects paneId mru path dir with
  | none => exact absurd h (not_isTarget_of_none hnodup hactive htarget)
  | some m => rw [(isTarget_of_target hnodup hactive htarget).unique h]

end

/-- Where the panes' ranks differ, it does not matter in which order they stand. -/
theorem IsBest.perm {score : FocusDir → Rect → Rect → Option ℤ} {rects rects' : List (List ℕ × Rect)}
    {dir : FocusDir} {arect : Rect} {path : List ℕ} {rank : List ℕ → ℕ} {l : List ℕ × Rect}
    (hperm : rects'.Perm rects)
    (hrank : ∀ l ∈ rects, ∀ m ∈ rects, l ≠ m → rank l.1 ≠ rank m.1)
    (h : IsBest score rects dir arect path rank l) : IsBest score rects' dir arect path rank l := by
  obtain ⟨hl, hlp, a, ha, hall⟩ := h
  refine ⟨hperm.mem_iff.2 hl, hlp, a, ha, fun m hm hmp hne b hb => .inl ?_⟩
  have hm := hperm.mem_iff.1 hm
  have hranks : a.rank ≠ b.rank := by
    obtain ⟨s, -, rfl⟩ := Option.map_eq_some_iff.1 ha
    obtain ⟨t, -, rfl⟩ := Option.map_eq_some_iff.1 hb
    exact hrank l hl m hm hne.symm
  rcases hall m hm hmp hne b hb with hbefore | ⟨hnot, -⟩
  · exact hbefore
  · exact (Standing.before_or_before hranks).resolve_right hnot

theorem IsTarget.perm {rects rects' : List (List ℕ × Rect)} {dir : FocusDir} {arect : Rect}
    {path : List ℕ} {rank : List ℕ → ℕ} {l : List ℕ × Rect} (hperm : rects'.Perm rects)
    (hrank : ∀ l ∈ rects, ∀ m ∈ rects, l ≠ m → rank l.1 ≠ rank m.1)
    (h : IsTarget rects dir arect path rank l) : IsTarget rects' dir arect path rank l := by
  rcases h with h | ⟨hnone, h, hoverlap⟩
  · exact .inl (h.perm hperm hrank)
  · exact .inr ⟨fun m hm => hnone m (hperm.mem_iff.1 hm), h.perm hperm hrank, hoverlap⟩

theorem target_perm {rects rects' : List (List ℕ × Rect)} (hperm : rects'.Perm rects)
    (hnodup : (rects.map Prod.fst).Nodup) {path : List ℕ} {arect : Rect}
    (hactive : (path, arect) ∈ rects) (paneId : List ℕ → ℕ) (mru : List ℕ) (dir : FocusDir)
    (hrank : ∀ l ∈ rects, ∀ m ∈ rects, l ≠ m → mruRank mru (paneId l.1) ≠ mruRank mru (paneId m.1)) :
    target rects' paneId mru path dir = target rects paneId mru path dir := by
  have hnodup' : (rects'.map Prod.fst).Nodup := (hperm.map Prod.fst).nodup_iff.2 hnodup
  have hiff (l : List ℕ × Rect) : target rects' paneId mru path dir = some l ↔
      target rects paneId mru path dir = some l := by
    rw [target_eq_some_iff hnodup' (hperm.mem_iff.2 hactive), target_eq_some_iff hnodup hactive]
    refine ⟨fun h => h.perm hperm.symm fun l hl m hm => ?_, fun h => h.perm hperm hrank⟩
    exact hrank l (hperm.mem_iff.1 hl) m (hperm.mem_iff.1 hm)
  exact Option.ext hiff

end Winsmux.Layout
