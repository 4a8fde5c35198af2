import Winsmux.GitGraph.Lanes
import Winsmux.KeyedFold
import Mathlib.Data.List.AList
import Mathlib.Data.Prod.Lex

/-!
# Lane spans

The lanes of the rows, drawn as vertical lines. A branch has one open line at most, with the row and
the column where it began. The line is closed where the branch changes its column or ends, and a line
without length is left out.
-/
namespace Winsmux.GitGraph

structure LaneSpan where
  branchId : ℕ
  col : ℕ
  startRow : ℕ
  endRow : ℕ
  deriving DecidableEq

/-- The lines that are open, by branch, and the spans so far. -/
structure Spans where
  active : AList fun _ : ℕ => ℕ × ℕ
  spans : List LaneSpan

def pushLaneSpan (spans : List LaneSpan) (branchId col startRow endRow : ℕ) : List LaneSpan :=
  if startRow = endRow then spans else spans ++ [⟨branchId, col, startRow, endRow⟩]

def enterLane (row : ℕ) (s : Spans) (x : Lane × ℕ) : Spans :=
  match s.active.lookup x.1.branchId with
  | some _ => s
  | none => { s with active := s.active.insert x.1.branchId (row, x.2) }

def leaveLane (row : ℕ) (s : Spans) (x : Lane × ℕ) : Spans :=
  match s.active.lookup x.1.branchId with
  | some (startRow, activeCol) =>
    if activeCol ≠ x.2 then
      ⟨s.active.insert x.1.branchId (row + 1, x.2),
        pushLaneSpan s.spans x.1.branchId activeCol startRow row⟩
    else s
  | none => { s with active := s.active.insert x.1.branchId (row + 1, x.2) }

def closeLane (row : ℕ) (s : Spans) (branchId : ℕ) : Spans :=
  match s.active.lookup branchId with
  | some (startRow, col) =>
    ⟨s.active.erase branchId, pushLaneSpan s.spans branchId col startRow row⟩
  | none => s

/-- One turn of the loop in `build_lane_spans`. -/
def spanRow (s : Spans) (x : Row × ℕ) : Spans :=
  let s := x.1.lanesIn.zipIdx.foldl (enterLane x.2) s
  let s := x.1.lanesOut.zipIdx.foldl (leaveLane x.2) s
  let deadIds := s.active.keys.filter (· ∉ x.1.lanesOut.map Lane.branchId)
  deadIds.foldl (closeLane x.2) s

def LaneSpan.le (x y : LaneSpan) : Bool :=
  toLex (x.startRow, toLex (x.col, toLex (x.branchId, x.endRow))) ≤
    toLex (y.startRow, toLex (y.col, toLex (y.branchId, y.endRow)))

def buildLaneSpans (rows : List Row) : List LaneSpan :=
  let s := rows.zipIdx.foldl spanRow ⟨∅, []⟩
  (s.active.keys.foldl (closeLane rows.length) s).spans.mergeSort LaneSpan.le

/-- The column of a branch. -/
def column (branchId : ℕ) (lanes : List Lane) : Option ℕ := lanes.findIdx? (·.branchId = branchId)

/-- The open line of a branch and its spans. -/
structure Track where
  entry : Option (ℕ × ℕ)
  spans : List LaneSpan

def Spans.track (s : Spans) (b : ℕ) : Track :=
  ⟨s.active.lookup b, s.spans.filter (·.branchId = b)⟩

def Track.enter (t : Track) (row col : ℕ) : Track :=
  match t.entry with
  | some _ => t
  | none => ⟨some (row, col), t.spans⟩

def Track.close (t : Track) (row b : ℕ) : Track :=
  match t.entry with
  | some (startRow, col) => ⟨none, pushLaneSpan t.spans b col startRow row⟩
  | none => t

def Track.leave (t : Track) (row b col : ℕ) : Track :=
  match t.entry with
  | some (startRow, activeCol) =>
    if activeCol ≠ col then ⟨some (row + 1, col), pushLaneSpan t.spans b activeCol startRow row⟩ else t
  | none => ⟨some (row + 1, col), t.spans⟩

/-- A branch behind a row, by its columns in the row. -/
def Track.row (t : Track) (row b : ℕ) (colIn colOut : Option ℕ) : Track :=
  let t := colIn.elim t (t.enter row)
  colOut.elim (t.close row b) (t.leave row b)

theorem filter_pushLaneSpan (spans : List LaneSpan) (b col startRow endRow k : ℕ) :
    (pushLaneSpan spans b col startRow endRow).filter (·.branchId = k) =
      if k = b then pushLaneSpan (spans.filter (·.branchId = k)) b col startRow endRow
      else spans.filter (·.branchId = k) := by
  unfold pushLaneSpan
  by_cases hlen : startRow = endRow
  · simp only [if_pos hlen, ite_self]
  · by_cases hk : k = b
    · simp [hlen, hk]
    · simp [hlen, hk, Ne.symm hk]

theorem track_enterLane (row : ℕ) (s : Spans) (x : Lane × ℕ) :
    (enterLane row s x).track x.1.branchId = (s.track x.1.branchId).enter row x.2 := by
  unfold enterLane Track.enter Spans.track
  dsimp only
  cases hentry : s.active.lookup x.1.branchId with
  | some entry => simp only [hentry]
  | none => simp only [AList.lookup_insert]

theorem track_enterLane_ne (row : ℕ) (s : Spans) (x : Lane × ℕ) (k : ℕ) (hk : k ≠ x.1.branchId) :
    (enterLane row s x).track k = s.track k := by
  unfold enterLane Spans.track
  split
  · rfl
  · simp only [AList.lookup_insert_ne hk]

theorem track_leaveLane (row : ℕ) (s : Spans) (x : Lane × ℕ) :
    (leaveLane row s x).track x.1.branchId =
      (s.track x.1.branchId).leave row x.1.branchId x.2 := by
  unfold leaveLane Track.leave Spans.track
  dsimp only
  cases hentry : s.active.lookup x.1.branchId with
  | some entry =>
    dsimp only
    split_ifs
    · simp only [AList.lookup_insert, filter_pushLaneSpan, if_true]
    · simp only [hentry]
  | none => simp only [AList.lookup_insert]

theorem track_leaveLane_ne (row : ℕ) (s : Spans) (x : Lane × ℕ) (k : ℕ) (hk : k ≠ x.1.branchId) :
    (leaveLane row s x).track k = s.track k := by
  unfold leaveLane Spans.track
  split
  · split
    · simp only [AList.lookup_insert_ne hk, filter_pushLaneSpan, if_neg hk]
    · rfl
  · simp only [AList.lookup_insert_ne hk]

theorem track_closeLane (row : ℕ) (s : Spans) (b : ℕ) :
    (closeLane row s b).track b = (s.track b).close row b := by
  unfold closeLane Track.close Spans.track
  dsimp only
  cases hentry : s.active.lookup b with
  | some entry => simp only [AList.lookup_erase, filter_pushLaneSpan, if_true]
  | none => simp only [hentry]

theorem track_closeLane_ne (row : ℕ) (s : Spans) (b k : ℕ) (hk : k ≠ b) :
    (closeLane row s b).track k = s.track k := by
  unfold closeLane Spans.track
  split
  · simp only [AList.lookup_erase_ne hk, filter_pushLaneSpan, if_neg hk]
  · rfl

/-- The lane found for a branch is read through its column only. -/
theorem elim_find_zipIdx {β : Type*} {b : ℕ} {z : β} {g : Lane × ℕ → β} {g' : ℕ → β}
    (hg : ∀ x : Lane × ℕ, x.1.branchId = b → g x = g' x.2) (lanes : List Lane) :
    (lanes.zipIdx.find? (·.1.branchId = b)).elim z g = (column b lanes).elim z g' := by
  have hfrom (n : ℕ) : ((lanes.zipIdx n).find? (·.1.branchId = b)).elim z g =
      (column b lanes).elim z fun c => g' (n + c) := by
    induction lanes generalizing n with
    | nil => rfl
    | cons l lanes ih =>
      rw [List.zipIdx_cons, column, List.findIdx?_cons]
      by_cases hl : l.branchId = b
      · rw [List.find?_cons_of_pos (by simpa using hl), if_pos (decide_eq_true hl)]
        exact hg (l, n) hl
      · rw [List.find?_cons_of_neg (by simpa using hl), if_neg (by simpa using hl), ih, ← column]
        cases column b lanes with
        | none => rfl
        | some c => exact congrArg g' (Nat.add_right_comm n 1 c)
  simpa only [Nat.zero_add] using hfrom 0

theorem nodup_zipIdx {lanes : List Lane} (h : Distinct lanes) :
    (lanes.zipIdx.map fun x : Lane × ℕ => x.1.branchId).Nodup := by
  have hmap : (lanes.zipIdx.map fun x : Lane × ℕ => x.1.branchId) = lanes.map Lane.branchId := by
    conv_rhs => rw [← List.zipIdx_map_fst 0 lanes, List.map_map]
    rfl
  exact hmap ▸ h.branches

theorem track_foldl_enterLane (row : ℕ) {lanes : List Lane} (h : Distinct lanes) (s : Spans) (b : ℕ) :
    (lanes.zipIdx.foldl (enterLane row) s).track b =
      (column b lanes).elim (s.track b) ((s.track b).enter row) := by
  rw [KeyedFold.view_foldl (fun x : Lane × ℕ => x.1.branchId) Spans.track
    (g := fun t x => t.enter row x.2) (track_enterLane row) (track_enterLane_ne row)
    (nodup_zipIdx h) s b]
  exact elim_find_zipIdx (fun _ _ => rfl) lanes

theorem track_foldl_leaveLane (row : ℕ) {lanes : List Lane} (h : Distinct lanes) (s : Spans) (b : ℕ) :
    (lanes.zipIdx.foldl (leaveLane row) s).track b =
      (column b lanes).elim (s.track b) ((s.track b).leave row b) := by
  rw [KeyedFold.view_foldl (fun x : Lane × ℕ => x.1.branchId) Spans.track
    (g := fun t x => t.leave row x.1.branchId x.2) (track_leaveLane row) (track_leaveLane_ne row)
    (nodup_zipIdx h) s b]
  exact elim_find_zipIdx (fun x hx => by rw [hx]) lanes

/-- Closing some of the open lines. -/
theorem track_foldl_closeLane (row : ℕ) (s : Spans) (p : ℕ → Bool) (b : ℕ) :
    ((s.active.keys.filter p).foldl (closeLane row) s).track b =
      if p b then (s.track b).close row b else s.track b := by
  rw [KeyedFold.view_foldl id Spans.track (g := fun t k => t.close row k) (track_closeLane row)
    (track_closeLane_ne row) (by simpa using (AList.keys_nodup s.active).filter p) s b]
  by_cases hmem : b ∈ s.active.keys.filter p
  · have hfind : (s.active.keys.filter p).find? (id · = b) = some b := by
      cases hfind : (s.active.keys.filter p).find? (id · = b) with
      | none => exact absurd (decide_eq_true rfl) (List.find?_eq_none.1 hfind b hmem)
      | some k =>
        have hk : k = b := by simpa using List.find?_some hfind
        rw [hk]
    rw [hfind, if_pos (List.mem_filter.1 hmem).2]
    rfl
  · have hfind : (s.active.keys.filter p).find? (id · = b) = none := by
      refine List.find?_eq_none.2 fun k hk hkb => hmem ?_
      exact of_decide_eq_true hkb ▸ hk
    rw [hfind]
    split
    · next hp =>
      have hentry : s.active.lookup b = none :=
        AList.lookup_eq_none.2 fun hb => hmem (List.mem_filter.2 ⟨AList.mem_keys.1 hb, hp⟩)
      simp only [Option.elim_none, Track.close, Spans.track, hentry]
    · rfl

theorem column_eq_none {b : ℕ} {lanes : List Lane} : column b lanes = none ↔ b ∉ lanes.map Lane.branchId := by
  simp [column, List.findIdx?_eq_none_iff]

/-- A branch behind a row depends on itself only. -/
theorem track_spanRow (s : Spans) {row : Row} (hin : Distinct row.lanesIn) (hout : Distinct row.lanesOut)
    (r b : ℕ) : (spanRow s (row, r)).track b =
      (s.track b).row r b (column b row.lanesIn) (column b row.lanesOut) := by
  unfold spanRow Track.row
  dsimp only
  rw [track_foldl_closeLane, track_foldl_leaveLane r hout, track_foldl_enterLane r hin]
  cases hcol : column b row.lanesOut with
  | none => exact if_pos (decide_eq_true (column_eq_none.1 hcol))
  | some c =>
    refine if_neg fun hdead => ?_
    rw [column_eq_none.2 (of_decide_eq_true hdead)] at hcol
    cases hcol

def LaneSpan.Covers (x : LaneSpan) (r : ℕ) : Prop := x.startRow ≤ r ∧ r < x.endRow

instance (x : LaneSpan) (r : ℕ) : Decidable (x.Covers r) := inferInstanceAs (Decidable (_ ∧ _))

/-- The branch is in the column from one row down to another. -/
def Straight (rows : List Row) (b c i j : ℕ) : Prop :=
  ∀ (r : ℕ) (row : Row), i ≤ r → r < j → rows[r]? = some row →
    column b row.lanesIn = some c ∧ column b row.lanesOut = some c

/-- An open line before row `k`. -/
structure Track.Begun (spans : List LaneSpan) (rows : List Row) (b k startRow col : ℕ) : Prop where
  le : startRow ≤ k
  straight : Straight rows b col startRow k
  behind : ∀ x ∈ spans, x.endRow ≤ startRow
  next : ∀ row, rows[k]? = some row → column b row.lanesIn = some col

/-- What is kept of a branch before row `k`: spans one behind the other, on the stretches where the
branch is straight, and all of those but what the open line covers. -/
structure Track.Account (t : Track) (rows : List Row) (b k : ℕ) : Prop where
  length : ∀ x ∈ t.spans, x.startRow < x.endRow ∧ x.endRow ≤ k
  straight : ∀ x ∈ t.spans, Straight rows b x.col x.startRow x.endRow
  apart : t.spans.Pairwise fun x y => x.endRow ≤ y.startRow
  begun : ∀ startRow col, t.entry = some (startRow, col) → Track.Begun t.spans rows b k startRow col
  covered : ∀ (r : ℕ) (row : Row) (c : ℕ), r < k → rows[r]? = some row →
    column b row.lanesIn = some c → column b row.lanesOut = some c →
      (∃ x ∈ t.spans, x.col = c ∧ x.Covers r) ∨ ∃ startRow, t.entry = some (startRow, c) ∧ startRow ≤ r

namespace Track.Account
variable {rows : List Row} {b k : ℕ}

theorem start : Track.Account ⟨none, []⟩ rows b 0 :=
  ⟨nofun, nofun, List.Pairwise.nil, nofun, fun _ _ _ hr => absurd hr (Nat.not_lt_zero _)⟩

theorem enter {t : Track} (h : t.Account rows b k) {row : Row} (hrow : rows[k]? = some row) :
    let t' := (column b row.lanesIn).elim t (t.enter k)
    t'.Account rows b k ∧ t'.entry.map Prod.snd = column b row.lanesIn := by
  obtain ⟨entry, spans⟩ := t
  intro t'
  cases entry with
  | some line =>
    have hin : column b row.lanesIn = some line.2 := (h.begun line.1 line.2 rfl).next row hrow
    have ht : t' = ⟨some line, spans⟩ := by simp only [t', hin]; rfl
    rw [ht, hin]
    exact ⟨h, rfl⟩
  | none =>
    cases hin : column b row.lanesIn with
    | none =>
      have ht : t' = ⟨none, spans⟩ := by simp only [t', hin]; rfl
      rw [ht]
      exact ⟨h, rfl⟩
    | some col =>
      have ht : t' = ⟨some (k, col), spans⟩ := by simp only [t', hin]; rfl
      rw [ht]
      refine ⟨⟨h.length, h.straight, h.apart, ?_, ?_⟩, rfl⟩
      · rintro _ _ ⟨rfl⟩
        refine ⟨le_rfl, fun r _ hkr hrk => absurd hkr (Nat.not_le_of_lt hrk),
          fun x hx => (h.length x hx).2, fun row' hrow' => ?_⟩
        rw [hrow] at hrow'
        rw [← Option.some.inj hrow', hin]
      · intro r row' c hr hrow' hin' hout'
        exact .inl ((h.covered r row' c hr hrow' hin' hout').resolve_right nofun)

theorem close {startRow col : ℕ} {spans : List LaneSpan}
    (h : Track.Account ⟨some (startRow, col), spans⟩ rows b k) :
    Track.Account ⟨none, pushLaneSpan spans b col startRow k⟩ rows b k := by
  have hline := h.begun startRow col rfl
  unfold pushLaneSpan
  split_ifs with hlen
  · refine ⟨h.length, h.straight, h.apart, nofun, fun r row c hr hrow hin hout => ?_⟩
    rcases h.covered r row c hr hrow hin hout with hspan | ⟨start, hentry, hle⟩
    · exact .inl hspan
    · obtain ⟨rfl, -⟩ := Prod.ext_iff.1 (Option.some.inj hentry)
      dsimp only at hlen hle
      omega
  · have hlt : startRow < k := lt_of_le_of_ne hline.le hlen
    refine ⟨?_, ?_, ?_, nofun, fun r row c hr hrow hin hout => .inl ?_⟩
    · exact List.forall_mem_append.2 ⟨h.length, List.forall_mem_singleton.2 ⟨hlt, le_rfl⟩⟩
    · exact List.forall_mem_append.2 ⟨h.straight, List.forall_mem_singleton.2 hline.straight⟩
    · refine List.pairwise_append.2 ⟨h.apart, List.pairwise_singleton _ _, fun x hx y hy => ?_⟩
      rw [List.mem_singleton.1 hy]
      exact hline.behind x hx
    · rcases h.covered r row c hr hrow hin hout with ⟨x, hx, hspan⟩ | ⟨start, hentry, hle⟩
      · exact ⟨x, List.mem_append_left _ hx, hspan⟩
      · obtain ⟨rfl, rfl⟩ := Prod.ext_iff.1 (Option.some.inj hentry)
        exact ⟨_, List.mem_append_right _ (List.mem_singleton_self _), rfl, hle, hr⟩

/-- A row where the branch is not straight. -/
theorem turn {spans : List LaneSpan} (h : Track.Account ⟨none, spans⟩ rows b k) {row : Row}
    (hrow : rows[k]? = some row) {entry : Option (ℕ × ℕ)}
    (hturn : ∀ c, column b row.lanesIn = some c → column b row.lanesOut ≠ some c)
    (hentry : ∀ startRow col, entry = some (startRow, col) →
      startRow = k + 1 ∧ ∀ next, rows[k + 1]? = some next → column b next.lanesIn = some col) :
    Track.Account ⟨entry, spans⟩ rows b (k + 1) := by
  refine ⟨fun x hx => (h.length x hx).imp_right Nat.le_succ_of_le, h.straight, h.apart, ?_, ?_⟩
  · intro startRow col heq
    obtain ⟨rfl, hnext⟩ := hentry startRow col heq
    exact ⟨le_rfl, fun r _ hkr hrk => absurd hkr (Nat.not_le_of_lt hrk),
      fun x hx => Nat.le_succ_of_le (h.length x hx).2, hnext⟩
  · intro r row' c hr hrow' hin hout
    rcases Nat.lt_succ_iff_lt_or_eq.1 hr with hr | rfl
    · exact .inl ((h.covered r row' c hr hrow' hin hout).resolve_right nofun)
    · rw [hrow] at hrow'
      obtain rfl := Option.some.inj hrow'
      exact absurd hout (hturn c hin)

theorem stay {spans : List LaneSpan} {startRow col : ℕ}
    (h : Track.Account ⟨some (startRow, col), spans⟩ rows b k) {row : Row} (hrow : rows[k]? = some row)
    (hout : column b row.lanesOut = some col)
    (hnext : ∀ next, rows[k + 1]? = some next → column b next.lanesIn = some col) :
    Track.Account ⟨some (startRow, col), spans⟩ rows b (k + 1) := by
  have hline := h.begun startRow col rfl
  refine ⟨fun x hx => (h.length x hx).imp_right Nat.le_succ_of_le, h.straight, h.apart, ?_, ?_⟩
  · rintro _ _ ⟨rfl⟩
    refine ⟨Nat.le_succ_of_le hline.le, fun r row' hsr hr hrow' => ?_, hline.behind, hnext⟩
    rcases Nat.lt_succ_iff_lt_or_eq.1 hr with hr | rfl
    · exact hline.straight r row' hsr hr hrow'
    · rw [hrow] at hrow'
      obtain rfl := Option.some.inj hrow'
      exact ⟨hline.next row hrow, hout⟩
  · intro r row' c hr hrow' hin hout'
    rcases Nat.lt_succ_iff_lt_or_eq.1 hr with hr | rfl
    · exact h.covered r row' c hr hrow' hin hout'
    · rw [hrow] at hrow'
      obtain rfl := Option.some.inj hrow'
      obtain rfl := Option.some.inj (hout.symm.trans hout')
      exact .inr ⟨startRow, rfl, hline.le⟩

/-- One row. -/
theorem row {t : Track} (h : t.Account rows b k) {row : Row} (hrow : rows[k]? = some row)
    (hnext : ∀ next c, rows[k + 1]? = some next → column b row.lanesOut = some c →
      column b next.lanesIn = some c) :
    (t.row k b (column b row.lanesIn) (column b row.lanesOut)).Account rows b (k + 1) := by
  obtain ⟨hacc, hin⟩ := h.enter hrow
  unfold Track.row
  dsimp only at hacc hin ⊢
  generalize (column b row.lanesIn).elim t (t.enter k) = t' at hacc hin
  obtain ⟨entry, spans⟩ := t'
  dsimp only at hin
  have hnone : ∀ startRow col, (none : Option (ℕ × ℕ)) = some (startRow, col) →
      startRow = k + 1 ∧ ∀ next, rows[k + 1]? = some next → column b next.lanesIn = some col := nofun
  cases hout : column b row.lanesOut with
  | none =>
    have hturn : ∀ c, column b row.lanesIn = some c → column b row.lanesOut ≠ some c := by
      intro c _
      rw [hout]
      exact nofun
    cases entry with
    | none => exact hacc.turn hrow hturn hnone
    | some line => exact hacc.close.turn hrow hturn hnone
  | some col =>
    have hnew : ∀ startRow col', some (k + 1, col) = some (startRow, col') →
        startRow = k + 1 ∧ ∀ next, rows[k + 1]? = some next → column b next.lanesIn = some col' := by
      rintro _ _ ⟨rfl⟩
      exact ⟨rfl, fun next hrow' => hnext next col hrow' hout⟩
    cases entry with
    | none =>
      refine hacc.turn hrow (fun c hc => ?_) hnew
      rw [← hin] at hc
      cases hc
    | some line =>
      obtain ⟨startRow, activeCol⟩ := line
      simp only [Option.elim_some, Track.leave]
      split_ifs with hcol
      · refine hacc.close.turn hrow (fun c hc => ?_) hnew
        rw [hout]
        rintro ⟨rfl⟩
        exact hcol (Option.some.inj (hin.trans hc))
      · obtain rfl := not_not.1 hcol
        exact hacc.stay hrow hout fun next hrow' => hnext next _ hrow' hout

end Track.Account

theorem eq_singleton_of_pairwise {α : Type*} {l : List α} (h : l.Pairwise fun _ _ => False) {x : α}
    (hx : x ∈ l) : l = [x] := by
  cases l with
  | nil => cases hx
  | cons y l =>
    have hnil : l = [] := List.eq_nil_iff_forall_not_mem.2 (List.pairwise_cons.1 h).1
    rw [hnil] at hx ⊢
    rw [List.mem_singleton.1 hx]

theorem column_of_extends {id : String} {lanes lanes' : List Lane} (h : Extends id lanes lanes') {b c : ℕ}
    (hc : column b lanes = some c) : column b lanes' = some c := by
  rcases h with rfl | ⟨new, rfl⟩
  · exact hc
  · rw [column, List.findIdx?_append, ← column, hc]
    rfl

/-- No two branches are in one column. -/
theorem branch_unique {lanes : List Lane} {b b' c : ℕ} (hb : column b lanes = some c)
    (hb' : column b' lanes = some c) : b = b' := by
  obtain ⟨hlt, hid, -⟩ := List.findIdx?_eq_some_iff_getElem.1 hb
  obtain ⟨_, hid', -⟩ := List.findIdx?_eq_some_iff_getElem.1 hb'
  exact (of_decide_eq_true hid).symm.trans (of_decide_eq_true hid')

section
variable {lanes : List Lane} {rows : List Row} (h : Follows lanes rows)
include h

theorem account_rows (b k : ℕ) (hk : k ≤ rows.length) :
    (((rows.take k).zipIdx.foldl spanRow ⟨∅, []⟩).track b).Account rows b k := by
  induction k with
  | zero => exact .start
  | succ k ih =>
    have hrow : rows[k]? = some rows[k] := List.getElem?_eq_getElem hk
    have hfits := h.fits (List.getElem_mem hk)
    rw [List.take_succ_eq_append_getElem hk, List.zipIdx_append, List.foldl_append, List.length_take_of_le
      (Nat.le_of_succ_le hk), Nat.zero_add]
    change (Spans.track (spanRow _ (rows[k], k)) b).Account rows b (k + 1)
    rw [track_spanRow _ hfits.distinct_in hfits.distinct_out]
    refine (ih (Nat.le_of_succ_le hk)).row hrow fun next c hnext hc => ?_
    exact column_of_extends (h.next hrow hnext) hc

/-- At the end no line of a branch is open. -/
theorem account_spans (b : ℕ) : ∃ spans : List LaneSpan, Track.Account ⟨none, spans⟩ rows b rows.length ∧
    ((buildLaneSpans rows).filter (·.branchId = b)).Perm spans := by
  have hacc := account_rows h b rows.length le_rfl
  rw [List.take_length] at hacc
  unfold buildLaneSpans
  dsimp only
  generalize rows.zipIdx.foldl spanRow ⟨∅, []⟩ = s at hacc
  have htrack := track_foldl_closeLane rows.length s (fun _ => true) b
  rw [List.filter_true, if_pos rfl] at htrack
  have hspans : ((s.active.keys.foldl (closeLane rows.length) s).spans.filter (·.branchId = b)) =
      ((s.track b).close rows.length b).spans := congrArg Track.spans htrack
  refine ⟨((s.track b).close rows.length b).spans, ?_, hspans ▸ (List.mergeSort_perm _ _).filter _⟩
  generalize s.track b = t at hacc
  obtain ⟨entry, spans⟩ := t
  cases entry with
  | none => exact hacc
  | some line => exact hacc.close

theorem span_account {x : LaneSpan} (hx : x ∈ buildLaneSpans rows) :
    x.startRow < x.endRow ∧ x.endRow ≤ rows.length ∧ Straight rows x.branchId x.col x.startRow x.endRow := by
  obtain ⟨spans, hacc, hperm⟩ := account_spans h x.branchId
  have hmem : x ∈ spans := hperm.mem_iff.1 (List.mem_filter.2 ⟨hx, decide_eq_true rfl⟩)
  exact ⟨(hacc.length x hmem).1, (hacc.length x hmem).2, hacc.straight x hmem⟩

theorem covered_once {r : ℕ} {row : Row} {b c : ℕ} (hrow : rows[r]? = some row)
    (hin : column b row.lanesIn = some c) (hout : column b row.lanesOut = some c) :
    ∃ x, (buildLaneSpans rows).filter (fun x => x.branchId = b ∧ x.Covers r) = [x] ∧ x.col = c := by
  obtain ⟨spans, hacc, hperm⟩ := account_spans h b
  have hlt : r < rows.length := (List.getElem?_eq_some_iff.1 hrow).1
  obtain ⟨x, hx, hcol, hcovers⟩ := (hacc.covered r row c hlt hrow hin hout).resolve_right nofun
  refine ⟨x, ?_, hcol⟩
  have hone : (spans.filter (·.Covers r)) = [x] := by
    have hle : (spans.filter (·.Covers r)).Pairwise fun _ _ => False := by
      refine (List.Pairwise.filter _ hacc.apart).imp_of_mem fun {y z} hy hz hyz => ?_
      have hy := of_decide_eq_true (List.mem_filter.1 hy).2
      have hz := of_decide_eq_true (List.mem_filter.1 hz).2
      exact absurd (hyz.trans hz.1) (Nat.not_le_of_lt hy.2)
    exact eq_singleton_of_pairwise hle (List.mem_filter.2 ⟨hx, decide_eq_true hcovers⟩)
  have hfilter := hperm.filter (·.Covers r)
  rw [hone, List.filter_filter] at hfilter
  rw [← List.perm_singleton.1 hfilter]
  exact List.filter_congr fun y _ => by rw [Bool.decide_and, Bool.and_comm]

theorem spans_apart : (buildLaneSpans rows).Pairwise fun x y =>
    x.col = y.col → x.endRow ≤ y.startRow ∨ y.endRow ≤ x.startRow := by
  refine KeyedFold.pairwise_of_keys LaneSpan.branchId (fun b => ?_) fun x hx y hy hne hcol => ?_
  · obtain ⟨spans, hacc, hperm⟩ := account_spans h b
    have hapart : spans.Pairwise fun x y : LaneSpan =>
        x.col = y.col → x.endRow ≤ y.startRow ∨ y.endRow ≤ x.startRow := hacc.apart.imp fun hxy _ => .inl hxy
    exact (hperm.pairwise_iff fun {x y} hxy hcol => (hxy hcol.symm).symm).2 hapart
  · by_contra hover
    obtain ⟨hx, hxn, hxs⟩ := span_account h hx
    obtain ⟨hy, -, hys⟩ := span_account h hy
    -- a row that both cover
    obtain ⟨r, hxr, hrx, hyr, hry⟩ : ∃ r, x.startRow ≤ r ∧ r < x.endRow ∧ y.startRow ≤ r ∧ r < y.endRow :=
      ⟨max x.startRow y.startRow, by omega, by omega, by omega, by omega⟩
    have hrow : rows[r]? = some rows[r] := List.getElem?_eq_getElem (hrx.trans_le hxn)
    have hbx := (hxs r _ hxr hrx hrow).1
    rw [hcol] at hbx
    exact hne (branch_unique hbx (hys r _ hyr hry hrow).1)

end

/-- The spans account for the lanes: a stretch on which a branch keeps its column is covered by one span of
the branch, which is in that column. A span has a length and covers only stretches on which its branch
is in its column, and two spans in one column meet in an end point at most. -/
theorem buildLaneSpans_spec (commits : List Commit) :
    ∃ rows, assignLanes commits = some rows ∧ rows.map Row.commit = commits ∧
      (∀ (r : ℕ) (row : Row) (b c : ℕ), rows[r]? = some row → column b row.lanesIn = some c →
        column b row.lanesOut = some c →
        ∃ x, (buildLaneSpans rows).filter (fun x => x.branchId = b ∧ x.Covers r) = [x] ∧ x.col = c) ∧
      (∀ x ∈ buildLaneSpans rows, x.startRow < x.endRow ∧ x.endRow ≤ rows.length ∧
        ∀ (r : ℕ) (row : Row), x.Covers r → rows[r]? = some row →
          column x.branchId row.lanesIn = some x.col ∧ column x.branchId row.lanesOut = some x.col ∧
          ∀ next : Row, rows[r + 1]? = some next → column x.branchId next.lanesIn = some x.col) ∧
      (buildLaneSpans rows).Pairwise fun x y =>
        x.col = y.col → x.endRow ≤ y.startRow ∨ y.endRow ≤ x.startRow := by
  obtain ⟨rows, hrows, hcommits, h⟩ := assignFrom_spec sound_start commits
  refine ⟨rows, hrows, hcommits, fun r row b c => covered_once h, fun x hx => ?_, spans_apart h⟩
  obtain ⟨hlen, hend, hstraight⟩ := span_account h hx
  refine ⟨hlen, hend, fun r row hr hrow => ?_⟩
  obtain ⟨hin, hout⟩ := hstraight r row hr.1 hr.2 hrow
  exact ⟨hin, hout, fun next hnext => column_of_extends (h.next hrow hnext) hout⟩

end Winsmux.GitGraph
