import Mathlib.Data.List.Count
import Mathlib.Data.List.Nodup
import Mathlib.Tactic

/-!
# Lanes of a commit list

A row for each commit, in the order given. A lane waits for one commit; the lanes that are open are
kept from row to row. The commit of a row is taken by the lane that waits for it, or by a new one at
the end. Its lane then waits for the first parent, unless another one does already, and every other
parent that no lane waits for opens one more.
-/
namespace Winsmux.GitGraph

structure Commit where
  id : String
  parents : List String
  deriving DecidableEq

structure Lane where
  branchId : ℕ
  expecting : String
  deriving DecidableEq

structure Row where
  commit : Commit
  commitLane : ℕ
  lanesIn : List Lane
  lanesOut : List Lane
  deriving DecidableEq

/-- What `assert_unique_expectations` goes through, with what it has seen. -/
def uniqueFrom (seen : List String) : List Lane → Bool
  | [] => true
  | l :: lanes => if l.expecting ∈ seen then false else uniqueFrom (l.expecting :: seen) lanes

def assertUniqueExpectations (lanes : List Lane) : Bool := uniqueFrom [] lanes

/-- The lanes that are open, and the next branch id. -/
structure Open where
  active : List Lane
  nextBranchId : ℕ
  deriving DecidableEq

def Open.start : Open := ⟨[], 0⟩

def Open.push (s : Open) (id : String) : Open :=
  ⟨s.active ++ [⟨s.nextBranchId, id⟩], s.nextBranchId + 1⟩

/-- The lane of a commit. -/
def takeLane (s : Open) (id : String) : ℕ × Open :=
  match s.active.findIdx? (·.expecting = id) with
  | some index => (index, s)
  | none => (s.active.length, s.push id)

/-- The lane of the commit goes on to its first parent, or ends. Nothing where the lane is missing. -/
def firstParent (active : List Lane) (commitLane : ℕ) (parents : List String) : Option (List Lane) :=
  match active[commitLane]? with
  | none => none
  | some own =>
    match parents with
    | [] => some (active.eraseIdx commitLane)
    | p :: _ =>
      if active.any fun l => l.expecting = p ∧ l.branchId ≠ own.branchId then
        some (active.eraseIdx commitLane)
      else some (active.set commitLane { own with expecting := p })

/-- Lanes for the parents that none waits for. -/
def otherParents (s : Open) (parents : List String) : Open :=
  parents.foldl (fun s p => if s.active.all (·.expecting ≠ p) then s.push p else s) s

/-- One turn of the loop in `assign_lanes`; nothing where the program panics. -/
def assignRow (s : Open) (commit : Commit) : Option (Row × Open) :=
  let (commitLane, s) := takeLane s commit.id
  if assertUniqueExpectations s.active then
    match firstParent s.active commitLane commit.parents with
    | none => none
    | some active =>
      let s' := otherParents { s with active } commit.parents.tail
      if assertUniqueExpectations s'.active then some (⟨commit, commitLane, s.active, s'.active⟩, s')
      else none
  else none

def assignFrom (s : Open) : List Commit → Option (List Row)
  | [] => some []
  | c :: commits =>
    match assignRow s c with
    | none => none
    | some (row, s') => (assignFrom s' commits).map (row :: ·)

/-- `assign_lanes` -/
def assignLanes (commits : List Commit) : Option (List Row) := assignFrom .start commits

/-- No two lanes of one branch and no two that wait for one commit. -/
structure Distinct (lanes : List Lane) : Prop where
  branches : (lanes.map Lane.branchId).Nodup
  expectations : (lanes.map Lane.expecting).Nodup

/-- The open lanes are distinct, of branches that have been given out. -/
structure Open.Sound (s : Open) : Prop extends Distinct s.active where
  given : ∀ l ∈ s.active, l.branchId < s.nextBranchId

theorem uniqueFrom_iff {seen : List String} {lanes : List Lane} : uniqueFrom seen lanes = true ↔
    (lanes.map Lane.expecting).Nodup ∧ ∀ l ∈ lanes, l.expecting ∉ seen := by
  induction lanes generalizing seen with
  | nil => simp [uniqueFrom]
  | cons l lanes ih =>
    rw [uniqueFrom]
    split
    · next h => simp [h]
    · next h =>
      rw [ih, List.map_cons, List.nodup_cons]
      simp only [List.mem_cons, not_or, List.mem_map, not_exists, not_and, forall_eq_or_imp]
      constructor
      · rintro ⟨hnodup, hnot⟩
        exact ⟨⟨fun m hm => (hnot m hm).1, hnodup⟩, h, fun m hm => (hnot m hm).2⟩
      · rintro ⟨⟨hne, hnodup⟩, -, hnot⟩
        exact ⟨hnodup, fun m hm => ⟨hne m hm, hnot m hm⟩⟩

theorem Distinct.asserted {lanes : List Lane} (h : Distinct lanes) : assertUniqueExpectations lanes = true :=
  uniqueFrom_iff.2 ⟨h.expectations, fun _ _ => List.not_mem_nil⟩

/-- No lane but one may wait for a commit. -/
theorem Distinct.eq_of_expecting {lanes : List Lane} (h : Distinct lanes) {l m : Lane} (hl : l ∈ lanes)
    (hm : m ∈ lanes) (heq : l.expecting = m.expecting) : l = m :=
  List.inj_on_of_nodup_map h.expectations hl hm heq

theorem Distinct.eq_of_branch {lanes : List Lane} (h : Distinct lanes) {l m : Lane} (hl : l ∈ lanes)
    (hm : m ∈ lanes) (heq : l.branchId = m.branchId) : l = m :=
  List.inj_on_of_nodup_map h.branches hl hm heq

theorem Distinct.count_eq_one {lanes : List Lane} (h : Distinct lanes) {l : Lane} (hl : l ∈ lanes) :
    lanes.countP (·.expecting = l.expecting) = 1 := by
  have hcount : lanes.countP (·.expecting = l.expecting) = (lanes.map Lane.expecting).count l.expecting := by
    rw [List.count, List.countP_map]
    exact List.countP_congr fun m _ => by simp
  rw [hcount]
  exact List.count_eq_one_of_mem h.expectations (List.mem_map_of_mem hl)

theorem sound_start : Open.start.Sound := ⟨⟨List.nodup_nil, List.nodup_nil⟩, nofun⟩

theorem Open.Sound.push {s : Open} (h : s.Sound) {id : String} (hid : ∀ l ∈ s.active, l.expecting ≠ id) :
    (s.push id).Sound := by
  refine ⟨⟨?_, ?_⟩, ?_⟩
  · rw [Open.push, List.map_append, List.map_singleton, List.nodup_append_comm, List.singleton_append,
      List.nodup_cons]
    refine ⟨fun hmem => ?_, h.branches⟩
    obtain ⟨l, hl, heq⟩ := List.mem_map.1 hmem
    exact (h.given l hl).ne heq
  · rw [Open.push, List.map_append, List.map_singleton, List.nodup_append_comm, List.singleton_append,
      List.nodup_cons]
    refine ⟨fun hmem => ?_, h.expectations⟩
    obtain ⟨l, hl, heq⟩ := List.mem_map.1 hmem
    exact hid l hl heq
  · intro l hl
    rcases List.mem_append.1 hl with hl | hl
    · exact (h.given l hl).trans (Nat.lt_succ_self _)
    · rw [List.mem_singleton.1 hl]
      exact Nat.lt_succ_self _

/-- As before, with at most one new lane at the end, which waits for the commit. -/
def Extends (id : String) (lanes lanes' : List Lane) : Prop :=
  lanes' = lanes ∨ ∃ b, lanes' = lanes ++ [⟨b, id⟩]

theorem takeLane_spec {s : Open} (h : s.Sound) (id : String) :
    (takeLane s id).2.Sound ∧ Extends id s.active (takeLane s id).2.active ∧
      ∃ l, (takeLane s id).2.active[(takeLane s id).1]? = some l ∧ l.expecting = id := by
  unfold takeLane
  split
  · next index hindex =>
    obtain ⟨hlt, hid, -⟩ := List.findIdx?_eq_some_iff_getElem.1 hindex
    exact ⟨h, .inl rfl, _, List.getElem?_eq_getElem hlt, of_decide_eq_true hid⟩
  · next hnone =>
    rw [List.findIdx?_eq_none_iff] at hnone
    exact ⟨h.push fun l hl => of_decide_eq_false (hnone l hl), .inr ⟨_, rfl⟩,
      ⟨s.nextBranchId, id⟩, List.getElem?_concat_length, rfl⟩

section
variable {s : Open} {k : ℕ} {own : Lane} (h : s.Sound) (hown : s.active[k]? = some own)
include h hown

theorem mem_eraseIdx_iff {l : Lane} : l ∈ s.active.eraseIdx k ↔ l ∈ s.active ∧ l.expecting ≠ own.expecting := by
  obtain ⟨hk, rfl⟩ := List.getElem?_eq_some_iff.1 hown
  have hnodup : s.active.Nodup := List.Nodup.of_map _ h.branches
  have herase : s.active.eraseIdx k = s.active.erase s.active[k] := (hnodup.erase_getElem k hk).symm
  rw [herase, hnodup.mem_erase_iff]
  constructor
  · rintro ⟨hne, hl⟩
    exact ⟨hl, fun heq => hne (h.eq_of_expecting hl (List.getElem_mem hk) heq)⟩
  · rintro ⟨hl, hne⟩
    exact ⟨fun heq => hne (congrArg _ heq), hl⟩

omit hown in
theorem sound_eraseIdx : Open.Sound { s with active := s.active.eraseIdx k } := by
  have hsub : (s.active.eraseIdx k).Sublist s.active := List.eraseIdx_sublist _ _
  exact ⟨⟨h.branches.sublist (hsub.map _), h.expectations.sublist (hsub.map _)⟩,
    fun l hl => h.given l (hsub.subset hl)⟩

theorem mem_set_iff {p : String} {l : Lane} : l ∈ s.active.set k { own with expecting := p } ↔
    l ∈ s.active ∧ l.expecting ≠ own.expecting ∨ l = { own with expecting := p } := by
  obtain ⟨hk, rfl⟩ := List.getElem?_eq_some_iff.1 hown
  rw [← mem_eraseIdx_iff h hown, List.mem_iff_getElem?, List.mem_eraseIdx_iff_getElem?]
  constructor
  · rintro ⟨i, hi⟩
    rw [List.getElem?_set] at hi
    split_ifs at hi with hik
    · exact .inr (Option.some.inj hi).symm
    · exact .inl ⟨i, Ne.symm hik, hi⟩
  · rintro (⟨i, hik, hi⟩ | rfl)
    · exact ⟨i, by rw [List.getElem?_set_ne (Ne.symm hik), hi]⟩
    · exact ⟨k, List.getElem?_set_self hk⟩

theorem sound_set {p : String} (hp : ∀ l ∈ s.active, l.expecting = p → l.branchId = own.branchId) :
    Open.Sound { s with active := s.active.set k { own with expecting := p } } := by
  obtain ⟨hk, rfl⟩ := List.getElem?_eq_some_iff.1 hown
  refine ⟨⟨?_, ?_⟩, fun l hl => ?_⟩
  · rw [List.map_set]
    have hself : (s.active.map Lane.branchId).set k s.active[k].branchId = s.active.map Lane.branchId := by
      rw [← List.getElem_map Lane.branchId (h := by simpa using hk), List.set_getElem_self]
    rw [hself]
    exact h.branches
  · rw [List.map_set]
    by_cases hsame : p = s.active[k].expecting
    · have hself : (s.active.map Lane.expecting).set k s.active[k].expecting = s.active.map Lane.expecting := by
        rw [← List.getElem_map Lane.expecting (h := by simpa using hk), List.set_getElem_self]
      rw [hsame, hself]
      exact h.expectations
    · refine h.expectations.set fun hmem => hsame ?_
      obtain ⟨l, hl, rfl⟩ := List.mem_map.1 hmem
      rw [h.eq_of_branch hl (List.getElem_mem hk) (hp l hl rfl)]
  · rcases (mem_set_iff h hown).1 hl with ⟨hl, -⟩ | rfl
    · exact h.given l hl
    · exact h.given s.active[k] (List.getElem_mem hk)

/-- Behind the first parent: the lanes that waited for other commits, and one for this parent. -/
theorem firstParent_spec (parents : List String) : ∃ active, firstParent s.active k parents = some active ∧
    Open.Sound { s with active } ∧ (∀ l ∈ s.active, l.expecting ≠ own.expecting → l ∈ active) ∧
    (∀ l ∈ active, l ∈ s.active ∧ l.expecting ≠ own.expecting ∨ parents.head? = some l.expecting) ∧
    ∀ p, parents.head? = some p → ∃ l ∈ active, l.expecting = p := by
  have herase (l : Lane) (hl : l ∈ s.active) (hne : l.expecting ≠ own.expecting) :
      l ∈ s.active.eraseIdx k := (mem_eraseIdx_iff h hown).2 ⟨hl, hne⟩
  rw [firstParent, hown]
  cases parents with
  | nil =>
    exact ⟨_, rfl, sound_eraseIdx h, herase, fun l hl => .inl ((mem_eraseIdx_iff h hown).1 hl), nofun⟩
  | cons p parents =>
    dsimp only
    split
    · next hany =>
      obtain ⟨l, hl, hp⟩ := List.any_eq_true.1 hany
      obtain ⟨hp, hbranch⟩ := of_decide_eq_true hp
      refine ⟨_, rfl, sound_eraseIdx h, herase, fun l hl => .inl ((mem_eraseIdx_iff h hown).1 hl), ?_⟩
      rintro _ ⟨rfl⟩
      refine ⟨l, herase l hl fun heq => hbranch ?_, hp⟩
      rw [h.eq_of_expecting hl (List.mem_of_getElem? hown) heq]
    · next hany =>
      have hp : ∀ l ∈ s.active, l.expecting = p → l.branchId = own.branchId := by
        intro l hl hp
        by_contra hbranch
        exact hany (List.any_eq_true.2 ⟨l, hl, decide_eq_true ⟨hp, hbranch⟩⟩)
      refine ⟨_, rfl, sound_set h hown hp, fun l hl hne => (mem_set_iff h hown).2 (.inl ⟨hl, hne⟩),
        fun l hl => ?_, ?_⟩
      · rcases (mem_set_iff h hown).1 hl with hl | rfl
        · exact .inl hl
        · exact .inr rfl
      · rintro _ ⟨rfl⟩
        exact ⟨_, (mem_set_iff h hown).2 (.inr rfl), rfl⟩

end

theorem otherParents_cons (s : Open) (p : String) (parents : List String) :
    otherParents s (p :: parents) =
      otherParents (if s.active.all (·.expecting ≠ p) then s.push p else s) parents := rfl

theorem otherParents_spec {s : Open} (h : s.Sound) (parents : List String) :
    (otherParents s parents).Sound ∧ (∀ l ∈ s.active, l ∈ (otherParents s parents).active) ∧
      (∀ l ∈ (otherParents s parents).active, l ∈ s.active ∨ l.expecting ∈ parents) ∧
      ∀ p ∈ parents, ∃ l ∈ (otherParents s parents).active, l.expecting = p := by
  induction parents generalizing s with
  | nil => exact ⟨h, fun _ => id, fun _ => .inl, nofun⟩
  | cons p parents ih =>
    rw [otherParents_cons]
    split
    · next hall =>
      have hnot : ∀ l ∈ s.active, l.expecting ≠ p := fun l hl =>
        of_decide_eq_true (List.all_eq_true.1 hall l hl)
      obtain ⟨hsound, hkept, hfrom, hwaits⟩ := ih (h.push hnot)
      have hnew : ⟨s.nextBranchId, p⟩ ∈ (s.push p).active := List.mem_append_right _ (List.mem_singleton_self _)
      refine ⟨hsound, fun l hl => hkept l (List.mem_append_left _ hl), fun l hl => ?_, ?_⟩
      · rcases hfrom l hl with hl | hl
        · rcases List.mem_append.1 hl with hl | hl
          · exact .inl hl
          · rw [List.mem_singleton.1 hl]
            exact .inr List.mem_cons_self
        · exact .inr (List.mem_cons_of_mem _ hl)
      · exact List.forall_mem_cons.2 ⟨⟨_, hkept _ hnew, rfl⟩, hwaits⟩
    · next hall =>
      obtain ⟨hsound, hkept, hfrom, hwaits⟩ := ih h
      have hany : ∃ l ∈ s.active, l.expecting = p := by
        by_contra hnone
        exact hall (List.all_eq_true.2 fun l hl => decide_eq_true fun heq => hnone ⟨l, hl, heq⟩)
      obtain ⟨l, hl, hp⟩ := hany
      exact ⟨hsound, hkept, fun l hl => (hfrom l hl).imp_right (List.mem_cons_of_mem _),
        List.forall_mem_cons.2 ⟨⟨l, hkept l hl, hp⟩, hwaits⟩⟩

/-- What holds of a row: its commit is taken by a lane that waits for it, lanes are distinct, each parent
has one lane, and only the lane of the commit changes. -/
structure Row.Fits (row : Row) : Prop where
  taken : ∃ l, row.lanesIn[row.commitLane]? = some l ∧ l.expecting = row.commit.id
  distinct_in : Distinct row.lanesIn
  distinct_out : Distinct row.lanesOut
  parents : ∀ p ∈ row.commit.parents, row.lanesOut.countP (·.expecting = p) = 1
  kept : ∀ l ∈ row.lanesIn, l.expecting ≠ row.commit.id → l ∈ row.lanesOut
  origin : ∀ l ∈ row.lanesOut,
    l ∈ row.lanesIn ∧ l.expecting ≠ row.commit.id ∨ l.expecting ∈ row.commit.parents

theorem assignRow_spec {s : Open} (h : s.Sound) (commit : Commit) :
    ∃ row s', assignRow s commit = some (row, s') ∧ s'.Sound ∧ row.commit = commit ∧
      row.lanesOut = s'.active ∧ Extends commit.id s.active row.lanesIn ∧ row.Fits := by
  obtain ⟨htaken, hextends, own, hown, hid⟩ := takeLane_spec h commit.id
  unfold assignRow
  generalize takeLane s commit.id = t at htaken hextends hown
  obtain ⟨k, s₁⟩ := t
  dsimp only at htaken hextends hown ⊢
  obtain ⟨active, hactive, hsound, hkept, hfrom, hfirst⟩ := firstParent_spec htaken hown commit.parents
  obtain ⟨hsound', hkept', hfrom', hwaits⟩ := otherParents_spec hsound commit.parents.tail
  rw [if_pos htaken.asserted, hactive]
  dsimp only
  rw [if_pos hsound'.asserted]
  refine ⟨_, _, rfl, hsound', rfl, rfl, hextends, ⟨own, hown, hid⟩, htaken.toDistinct, hsound'.toDistinct,
    fun p hp => ?_, fun l hl hne => hkept' l (hkept l hl (hid ▸ hne)), fun l hl => ?_⟩
  · have hlane : ∃ l ∈ (otherParents { s₁ with active } commit.parents.tail).active, l.expecting = p := by
      cases hparents : commit.parents with
      | nil =>
        rw [hparents] at hp
        cases hp
      | cons first rest =>
        rw [hparents] at hp hfirst hkept' hwaits
        rcases List.mem_cons.1 hp with rfl | hp
        · obtain ⟨l, hl, hlp⟩ := hfirst p rfl
          exact ⟨l, hkept' l hl, hlp⟩
        · exact hwaits p hp
    obtain ⟨l, hl, rfl⟩ := hlane
    exact hsound'.count_eq_one hl
  · rcases hfrom' l hl with hl | hl
    · rcases hfrom l hl with hl | hl
      · exact .inl (hid ▸ hl)
      · exact .inr (List.mem_of_mem_head? hl)
    · exact .inr (List.mem_of_mem_tail hl)

/-- Each row begins with the lanes that the one before left open. -/
def Follows (lanes : List Lane) : List Row → Prop
  | [] => True
  | row :: rows => Extends row.commit.id lanes row.lanesIn ∧ row.Fits ∧ Follows row.lanesOut rows

theorem assignFrom_spec {s : Open} (h : s.Sound) (commits : List Commit) :
    ∃ rows, assignFrom s commits = some rows ∧ rows.map Row.commit = commits ∧ Follows s.active rows := by
  induction commits generalizing s with
  | nil => exact ⟨[], rfl, rfl, trivial⟩
  | cons c commits ih =>
    obtain ⟨row, s', hrow, hsound, rfl, hout, hextends, hfits⟩ := assignRow_spec h c
    obtain ⟨rows, hrows, hcommits, hfollows⟩ := ih hsound
    refine ⟨row :: rows, ?_, congrArg (row.commit :: ·) hcommits, hextends, hfits, hout ▸ hfollows⟩
    rw [assignFrom, hrow]
    dsimp only
    rw [hrows]
    rfl

theorem mem_of_extends {id : String} {lanes lanes' : List Lane} (h : Extends id lanes lanes') {l : Lane}
    (hl : l ∈ lanes) : l ∈ lanes' := by
  rcases h with rfl | ⟨b, rfl⟩
  · exact hl
  · exact List.mem_append_left _ hl

/-- A lane that is not new waits for another commit. -/
theorem mem_of_mem_extends {id : String} {lanes lanes' : List Lane} (h : Extends id lanes lanes') {l : Lane}
    (hl : l ∈ lanes') (hne : l.expecting ≠ id) : l ∈ lanes := by
  rcases h with rfl | ⟨b, rfl⟩
  · exact hl
  · rcases List.mem_append.1 hl with hl | hl
    · exact hl
    · rw [List.mem_singleton.1 hl] at hne
      exact absurd rfl hne

section
variable {lanes : List Lane} {rows : List Row}

theorem Follows.fits (h : Follows lanes rows) {row : Row} (hrow : row ∈ rows) : row.Fits := by
  induction rows generalizing lanes with
  | nil => cases hrow
  | cons first rows ih =>
    rcases List.mem_cons.1 hrow with rfl | hrow
    · exact h.2.1
    · exact ih h.2.2 hrow

theorem Follows.next (h : Follows lanes rows) {r : ℕ} {row next : Row} (hrow : rows[r]? = some row)
    (hnext : rows[r + 1]? = some next) : Extends next.commit.id row.lanesOut next.lanesIn := by
  induction rows generalizing lanes r with
  | nil => cases hrow
  | cons first rows ih =>
    cases r with
    | zero =>
      obtain rfl : first = row := Option.some.inj hrow
      cases rows with
      | nil => cases hnext
      | cons second rows =>
        obtain rfl : second = next := Option.some.inj hnext
        exact h.2.2.1
    | succ r => exact ih h.2.2 hrow hnext

/-- A lane stays open until its commit comes. -/
theorem Follows.carried (h : Follows lanes rows) {i k : ℕ} (hik : i ≤ k) {row row' : Row} {l : Lane}
    (hi : rows[i]? = some row) (hl : l ∈ row.lanesOut) (hk : rows[k]? = some row')
    (hne : ∀ m x, i < m → m ≤ k → rows[m]? = some x → x.commit.id ≠ l.expecting) : l ∈ row'.lanesOut := by
  induction k, hik using Nat.le_induction generalizing row' with
  | base =>
    rw [hi] at hk
    obtain rfl := Option.some.inj hk
    exact hl
  | succ k hik ih =>
    have hlt : k < rows.length := by
      have := (List.getElem?_eq_some_iff.1 hk).1
      omega
    have hbefore : l ∈ rows[k].lanesOut :=
      ih (List.getElem?_eq_getElem hlt) fun m x him hmk => hne m x him (hmk.trans (Nat.le_succ k))
    have hin := mem_of_extends (h.next (List.getElem?_eq_getElem hlt) hk) hbefore
    have hid := hne (k + 1) row' (Nat.lt_succ_of_le hik) le_rfl hk
    exact (h.fits (List.mem_of_getElem? hk)).kept l hin hid.symm

end

/-- Children stand before their parents, every parent is in the list, and no id is repeated. -/
structure Topological (commits : List Commit) : Prop where
  distinct : (commits.map Commit.id).Nodup
  parents : ∀ (i : ℕ) (c : Commit), commits[i]? = some c → ∀ p ∈ c.parents,
    ∃ (j : ℕ) (d : Commit), i < j ∧ commits[j]? = some d ∧ d.id = p

theorem parent_later {rows : List Row} (ht : Topological (rows.map Row.commit)) {r : ℕ} {row : Row}
    (hrow : rows[r]? = some row) {p : String} (hp : p ∈ row.commit.parents) :
    ∃ j d, r < j ∧ rows[j]? = some d ∧ d.commit.id = p := by
  have hcommit : (rows.map Row.commit)[r]? = some row.commit := by rw [List.getElem?_map, hrow]; rfl
  obtain ⟨j, d, hrj, hd, hid⟩ := ht.parents r row.commit hcommit p hp
  rw [List.getElem?_map, Option.map_eq_some_iff] at hd
  obtain ⟨x, hx, rfl⟩ := hd
  exact ⟨j, x, hrj, hx, hid⟩

section
variable {rows : List Row} (h : Follows [] rows) (ht : Topological (rows.map Row.commit))
include h ht

/-- In a topological order every open lane waits for a later commit. -/
theorem waits_for_later {r : ℕ} {row : Row} (hrow : rows[r]? = some row) {l : Lane} (hl : l ∈ row.lanesOut) :
    ∃ j d, r < j ∧ rows[j]? = some d ∧ d.commit.id = l.expecting := by
  induction r generalizing row with
  | zero =>
    rcases (h.fits (List.mem_of_getElem? hrow)).origin l hl with ⟨hin, hne⟩ | hparent
    · cases rows with
      | nil => cases hrow
      | cons first rows =>
        obtain rfl : first = row := Option.some.inj hrow
        exact absurd (mem_of_mem_extends h.1 hin hne) List.not_mem_nil
    · exact parent_later ht hrow hparent
  | succ r ih =>
    rcases (h.fits (List.mem_of_getElem? hrow)).origin l hl with ⟨hin, hne⟩ | hparent
    · have hlt : r < rows.length := by
        have := (List.getElem?_eq_some_iff.1 hrow).1
        omega
      have hbefore := mem_of_mem_extends (h.next (List.getElem?_eq_getElem hlt) hrow) hin hne
      obtain ⟨j, d, hrj, hd, hid⟩ := ih (List.getElem?_eq_getElem hlt) hbefore
      refine ⟨j, d, lt_of_le_of_ne hrj ?_, hd, hid⟩
      rintro rfl
      rw [hrow] at hd
      rw [← hid, Option.some.inj hd] at hne
      exact hne rfl
    · exact parent_later ht hrow hparent

omit h in
theorem row_unique {i j : ℕ} {x y : Row} (hi : rows[i]? = some x) (hj : rows[j]? = some y)
    (hid : x.commit.id = y.commit.id) : i = j := by
  have hdistinct := ht.distinct
  rw [List.map_map] at hdistinct
  have hlt : i < (rows.map (Commit.id ∘ Row.commit)).length := by
    rw [List.length_map]
    exact (List.getElem?_eq_some_iff.1 hi).1
  refine (List.getElem?_inj hlt hdistinct).1 ?_
  rw [List.getElem?_map, List.getElem?_map, hi, hj]
  exact congrArg some hid

theorem nothing_left {row : Row} (hlast : rows.getLast? = some row) : row.lanesOut = [] := by
  rw [List.getLast?_eq_getElem?] at hlast
  refine List.eq_nil_iff_forall_not_mem.2 fun l hl => ?_
  obtain ⟨j, d, hrj, hd, -⟩ := waits_for_later h ht hlast hl
  have hlt := (List.getElem?_eq_some_iff.1 hd).1
  omega

/-- One lane carries the edge from a child to its parent. -/
theorem edge_carried {i j : ℕ} {child parent : Row} (hi : rows[i]? = some child) (hj : rows[j]? = some parent)
    (hparent : parent.commit.id ∈ child.commit.parents) : ∃ l, l.expecting = parent.commit.id ∧
      ∀ r row, rows[r]? = some row →
        (i ≤ r → r < j → l ∈ row.lanesOut) ∧ (i < r → r ≤ j → l ∈ row.lanesIn) := by
  have hpos : 0 < child.lanesOut.countP (·.expecting = parent.commit.id) := by
    rw [(h.fits (List.mem_of_getElem? hi)).parents _ hparent]
    exact Nat.one_pos
  obtain ⟨l, hl, hid⟩ := List.countP_pos_iff.1 hpos
  have hid : l.expecting = parent.commit.id := of_decide_eq_true hid
  have hne : ∀ m x, m < j → rows[m]? = some x → x.commit.id ≠ l.expecting := by
    intro m x hmj hx heq
    exact hmj.ne (row_unique ht hx hj (heq.trans hid))
  have hout : ∀ r row, rows[r]? = some row → i ≤ r → r < j → l ∈ row.lanesOut := fun r row hrow hir hrj =>
    h.carried hir hi hl hrow fun m x _ hmr => hne m x (hmr.trans_lt hrj)
  refine ⟨l, hid, fun r row hrow => ⟨hout r row hrow, fun hir hrj => ?_⟩⟩
  obtain ⟨k, rfl⟩ : ∃ k, r = k + 1 := ⟨r - 1, by omega⟩
  have hlt : k < rows.length := by
    have := (List.getElem?_eq_some_iff.1 hrow).1
    omega
  have hbefore := hout k rows[k] (List.getElem?_eq_getElem hlt) (Nat.le_of_lt_succ hir) hrj
  exact mem_of_extends (h.next (List.getElem?_eq_getElem hlt) hrow) hbefore

end

/-- The assertion never fires, each row fits, and each row begins with the lanes that the one before left
open. In a topological order no lane is left at the end, and one lane carries each edge. -/
theorem assignLanes_spec (commits : List Commit) :
    ∃ rows, assignLanes commits = some rows ∧ rows.map Row.commit = commits ∧ (∀ row ∈ rows, row.Fits) ∧
      (∀ (r : ℕ) (row next : Row), rows[r]? = some row → rows[r + 1]? = some next →
        Extends next.commit.id row.lanesOut next.lanesIn) ∧
      (Topological commits → (∀ row, rows.getLast? = some row → row.lanesOut = []) ∧
        ∀ (i j : ℕ) (child parent : Row), rows[i]? = some child → rows[j]? = some parent →
          parent.commit.id ∈ child.commit.parents → ∃ l, l.expecting = parent.commit.id ∧
            ∀ (r : ℕ) (row : Row), rows[r]? = some row →
              (i ≤ r → r < j → l ∈ row.lanesOut) ∧ (i < r → r ≤ j → l ∈ row.lanesIn)) := by
  obtain ⟨rows, hrows, rfl, hfollows⟩ := assignFrom_spec sound_start commits
  refine ⟨rows, hrows, rfl, fun row => hfollows.fits, fun r row next => hfollows.next, fun ht => ⟨?_, ?_⟩⟩
  · exact fun row => nothing_left hfollows ht
  · exact fun i j child parent => edge_carried hfollows ht

/-- A merge whose parents have one parent. -/
theorem assignLanes_spec_merge :
    let commits : List Commit := [⟨"M", ["A", "B"]⟩, ⟨"A", ["R"]⟩, ⟨"B", ["R"]⟩, ⟨"R", []⟩]
    ∃ rows, assignLanes commits = some rows ∧ ∀ row, rows.getLast? = some row → row.lanesOut = [] := by
  intro commits
  obtain ⟨rows, hrows, -, -, -, hlast⟩ := assignLanes_spec commits
  refine ⟨rows, hrows, (hlast ⟨by decide, ?_⟩).1⟩
  intro i c hc p hp
  match i, hc with
  | 0, hc =>
    obtain rfl := Option.some.inj hc
    rcases List.mem_pair.1 hp with rfl | rfl
    · exact ⟨1, _, by decide, rfl, rfl⟩
    · exact ⟨2, _, by decide, rfl, rfl⟩
  | 1, hc =>
    obtain rfl := Option.some.inj hc
    rw [List.mem_singleton.1 hp]
    exact ⟨3, _, by decide, rfl, rfl⟩
  | 2, hc =>
    obtain rfl := Option.some.inj hc
    rw [List.mem_singleton.1 hp]
    exact ⟨3, _, by decide, rfl, rfl⟩
  | 3, hc =>
    obtain rfl := Option.some.inj hc
    cases hp

end Winsmux.GitGraph
