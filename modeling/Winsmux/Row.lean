import Mathlib.Tactic

/-!
# Rows of segments

A stretch of cells cut into segments, with one cell left out between neighbours. A
segment is its first cell and its length; it may be empty.
-/
namespace Winsmux

/-- The segments fill the `len` cells from `a` on, all but one cell between neighbours. -/
inductive Row : ℕ → ℕ → List (ℕ × ℕ) → Prop
  | last (a len : ℕ) : Row a len [(a, len)]
  | cons {a size len : ℕ} {segments : List (ℕ × ℕ)} (rest : Row (a + size + 1) len segments) :
      Row a (size + 1 + len) ((a, size) :: segments)

namespace Row

def within (p : ℕ) (s : ℕ × ℕ) : Bool := s.1 ≤ p && p < s.1 + s.2

/-- The cells between neighbours. -/
def gaps (segments : List (ℕ × ℕ)) : List ℕ := segments.dropLast.map fun s => s.1 + s.2

theorem within_iff {p : ℕ} {s : ℕ × ℕ} : within p s = true ↔ s.1 ≤ p ∧ p < s.1 + s.2 := by
  simp [within]

variable {a len : ℕ} {segments : List (ℕ × ℕ)}

theorem ne_nil (h : Row a len segments) : segments ≠ [] := by
  cases h <;> simp

theorem head?_starts (h : Row a len segments) : (segments.map Prod.fst).head? = some a := by
  cases h <;> rfl

theorem gaps_cons (s : ℕ × ℕ) (h : segments ≠ []) :
    gaps (s :: segments) = (s.1 + s.2) :: gaps segments := by
  rw [gaps, List.dropLast_cons_of_ne_nil h, List.map_cons, gaps]

/-- A segment keeps within the stretch. -/
theorem bounds (h : Row a len segments) : ∀ s ∈ segments, a ≤ s.1 ∧ s.1 + s.2 ≤ a + len := by
  induction h with
  | last a len => simp
  | @cons a size len segments rest ih =>
    intro s hs
    obtain rfl | hs := List.mem_cons.1 hs
    · exact ⟨le_rfl, by omega⟩
    · have := ih s hs
      omega

/-- Between two segments lies at least a cell. -/
theorem pairwise (h : Row a len segments) : segments.Pairwise fun s t => s.1 + s.2 < t.1 := by
  induction h with
  | last a len => simp
  | @cons a size len segments rest ih =>
    refine List.pairwise_cons.2 ⟨fun t ht => ?_, ih⟩
    have := (rest.bounds t ht).1
    omega

/-- A segment begins one cell behind the end of the one before. -/
theorem next (h : Row a len segments) {i : ℕ} {s t : ℕ × ℕ} (hs : segments[i]? = some s)
    (ht : segments[i + 1]? = some t) : t.1 = s.1 + s.2 + 1 := by
  induction h generalizing i with
  | last a len => simp at ht
  | @cons a size len segments rest ih =>
    cases i with
    | zero =>
      obtain rfl : (a, size) = s := by simpa using hs
      cases rest with
      | last =>
        obtain rfl : (a + size + 1, len) = t := by simpa using ht
        rfl
      | @cons _ size' _ _ _ =>
        obtain rfl : (a + size + 1, size') = t := by simpa using ht
        rfl
    | succ i => exact ih (by simpa using hs) (by simpa using ht)

/-- The lengths and the gaps add up. -/
theorem sum (h : Row a len segments) : (segments.map Prod.snd).sum + (segments.length - 1) = len := by
  induction h with
  | last a len => simp
  | @cons a size len segments rest ih =>
    have := List.length_pos_of_ne_nil rest.ne_nil
    simp only [List.map_cons, List.sum_cons, List.length_cons]
    omega

/-- Two rows over one stretch are one where all but the last segments are as long. -/
theorem eq_of_lengths {segments' : List (ℕ × ℕ)} (h : Row a len segments) (h' : Row a len segments')
    (hlen : segments.length = segments'.length)
    (heq : (segments.map Prod.snd).dropLast = (segments'.map Prod.snd).dropLast) : segments = segments' := by
  induction h generalizing segments' with
  | last a len =>
    cases h' with
    | last => rfl
    | cons rest =>
      have := List.length_pos_of_ne_nil rest.ne_nil
      simp only [List.length_cons, List.length_nil] at hlen
      omega
  | @cons a size len segments rest ih =>
    generalize hn : size + 1 + len = n at h'
    cases h' with
    | last =>
      have := List.length_pos_of_ne_nil rest.ne_nil
      simp only [List.length_cons, List.length_nil] at hlen
      omega
    | @cons _ size' len' segments' rest' =>
      have hne := rest.ne_nil
      have hne' := rest'.ne_nil
      simp only [List.map_cons] at heq
      rw [List.dropLast_cons_of_ne_nil (by simpa using hne),
        List.dropLast_cons_of_ne_nil (by simpa using hne')] at heq
      obtain ⟨rfl, hrest⟩ := List.cons.inj heq
      obtain rfl : len = len' := by omega
      rw [ih rest' (by simpa using hlen) hrest]

/-- Two rows over one stretch are one where the segments begin at the same cells. -/
theorem eq_of_starts {segments' : List (ℕ × ℕ)} (h : Row a len segments) (h' : Row a len segments')
    (heq : segments.map Prod.fst = segments'.map Prod.fst) : segments = segments' := by
  have hlen : segments.length = segments'.length := by simpa using congrArg List.length heq
  induction h generalizing segments' with
  | last a len =>
    cases h' with
    | last => rfl
    | cons rest =>
      have := List.length_pos_of_ne_nil rest.ne_nil
      simp only [List.length_cons, List.length_nil] at hlen
      omega
  | @cons a size len segments rest ih =>
    generalize hn : size + 1 + len = n at h'
    cases h' with
    | last =>
      have := List.length_pos_of_ne_nil rest.ne_nil
      simp only [List.length_cons, List.length_nil] at hlen
      omega
    | @cons _ size' len' segments' rest' =>
      have htail := (List.cons.inj heq).2
      have hstart : some (a + size + 1) = some (a + size' + 1) := by
        rw [← rest.head?_starts, ← rest'.head?_starts, htail]
      have hstart := Option.some.inj hstart
      obtain rfl : size = size' := by omega
      obtain rfl : len = len' := by omega
      rw [ih rest' htail (by simpa using hlen)]

/-- Each cell of the stretch, and no other, lies in one segment or is one of the gaps. -/
theorem count (h : Row a len segments) (p : ℕ) :
    segments.countP (within p) + (gaps segments).count p = if within p (a, len) then 1 else 0 := by
  induction h with
  | last a len => simp [gaps]
  | @cons a size len segments rest ih =>
    rw [gaps_cons _ rest.ne_nil, List.countP_cons, List.count_cons]
    simp only [within_iff, beq_iff_eq] at ih ⊢
    split_ifs at ih ⊢ <;> omega

/-- A segment reaches the end of a stretch in one of the two directions. -/
def AtEnd (forward : Bool) (s stretch : ℕ × ℕ) : Prop :=
  if forward then s.1 + s.2 = stretch.1 + stretch.2 else s.1 = stretch.1

/-- The second segment follows the first in one of the two directions, one cell behind its end. -/
def Next (forward : Bool) (s t : ℕ × ℕ) : Prop :=
  if forward then t.1 = s.1 + s.2 + 1 else s.1 = t.1 + t.2 + 1

theorem exists_atEnd (h : Row a len segments) (forward : Bool) :
    ∃ s ∈ segments, AtEnd forward s (a, len) := by
  induction h with
  | last a len => exact ⟨_, List.mem_cons_self, by cases forward <;> rfl⟩
  | @cons a size len segments rest ih =>
    obtain ⟨s, hs, hend⟩ := ih
    cases forward
    · exact ⟨_, List.mem_cons_self, rfl⟩
    · refine ⟨s, List.mem_cons_of_mem _ hs, ?_⟩
      simp only [AtEnd, if_true] at hend ⊢
      omega

/-- A segment that is not at the end has a neighbor. -/
theorem exists_next (h : Row a len segments) {forward : Bool} {s : ℕ × ℕ} (hs : s ∈ segments)
    (hend : ¬AtEnd forward s (a, len)) : ∃ t ∈ segments, Next forward s t := by
  induction h with
  | last a len =>
    obtain rfl := List.mem_singleton.1 hs
    exact absurd (by cases forward <;> rfl) hend
  | @cons a size len segments rest ih =>
    have hfirst : ∃ t ∈ segments, t.1 = a + size + 1 := rest.exists_atEnd false
    obtain ⟨t, ht, hstart⟩ := hfirst
    rcases List.mem_cons.1 hs with rfl | hs
    · cases forward
      · exact absurd rfl hend
      · exact ⟨t, List.mem_cons_of_mem _ ht, hstart⟩
    · by_cases hrest : AtEnd forward s (a + size + 1, len)
      · cases forward
        · exact ⟨_, List.mem_cons_self, hrest⟩
        · simp only [AtEnd, if_true] at hrest hend
          omega
      · obtain ⟨t, ht, hnext⟩ := ih hs hrest
        exact ⟨t, List.mem_cons_of_mem _ ht, hnext⟩

/-- The cells from `p` up to `q` and a segment have two cells in common, or the segment's first or
last. -/
def Meets (p q : ℕ) (s : ℕ × ℕ) : Prop :=
  0 < s.2 ∧ (p ≤ s.1 ∧ s.1 < q ∨ p < s.1 + s.2 ∧ s.1 + s.2 ≤ q ∨ max p s.1 + 2 ≤ min q (s.1 + s.2))

/-- Between neighbors only one cell is left out, so two cells in a row do not miss them both. -/
theorem exists_meets (h : Row a len segments) {p q : ℕ} (hpos : ∀ s ∈ segments, 0 < s.2)
    (hmeets : Meets p q (a, len)) : ∃ s ∈ segments, Meets p q s := by
  induction h with
  | last a len => exact ⟨_, List.mem_cons_self, hmeets⟩
  | @cons a size len segments rest ih =>
    obtain ⟨hsize, hpos⟩ := List.forall_mem_cons.1 hpos
    by_cases hrest : Meets p q (a + size + 1, len)
    · obtain ⟨s, hs, hmeets⟩ := ih hpos hrest
      exact ⟨s, List.mem_cons_of_mem _ hs, hmeets⟩
    · refine ⟨_, List.mem_cons_self, hsize, ?_⟩
      have hlen : 0 < len := by
        have hsum := rest.sum
        obtain ⟨s, hs⟩ := List.exists_mem_of_ne_nil _ rest.ne_nil
        have hle := List.le_sum_of_mem (List.mem_map_of_mem (f := Prod.snd) hs)
        have := hpos s hs
        omega
      simp only [Meets] at hmeets hrest
      omega

end Row
end Winsmux
