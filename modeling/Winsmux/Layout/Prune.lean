import Winsmux.Layout.SplitSizes

/-!
# What a prune leaves

The tree without its exited panes, from what becomes of each pane: a split keeps the
children that keep a pane, one alone in its place, and the sizes that are left are made to
add up to 100 again. That is done to every split of the tree, not only to those that lost
a child, so sizes that did not add up to 100 change wherever they are.
-/
namespace Winsmux.Layout
open PathTree

/-- A split with two children or more and one size for each. -/
structure Paired (a : Split) (k : ℕ) : Prop where
  two : 2 ≤ k
  length : a.sizes.length = k

def Formed (n : Node) : Prop := AllSplits Paired n

theorem formed_split {a : Split} {children : List Node} :
    Formed (.split a children) ↔ Paired a children.length ∧ ∀ c ∈ children, Formed c :=
  allSplits_split

/-- What becomes of a pane. -/
def afterExit (exited : List ℕ) (remainOnExit : Bool) (p : Pane) : Option Pane :=
  if !p.dead && p.id ∈ exited then if remainOnExit then some { p with dead := true } else none
  else some p

theorem pruneExited_leaf (exited : List ℕ) (remainOnExit : Bool) (p : Pane) :
    pruneExited exited remainOnExit (.leaf p) = (afterExit exited remainOnExit p).map .leaf := by
  rw [pruneExited, afterExit]
  cases p.dead <;> cases remainOnExit <;> by_cases h : p.id ∈ exited <;> simp [h]

/-- Sizes made to add up to 100. -/
def rebalance (sizes : List ℕ) : List ℕ :=
  let total := u16 sizes.sum
  if total = 0 then equalSizes sizes.length
  else if total = 100 then sizes
  else scaleSizes sizes total

theorem regroup_of_two (kind : LayoutKind) {kept : List (Node × ℕ)} (h : 2 ≤ kept.length) :
    regroup kind kept = some (.split ⟨kind, rebalance (kept.map Prod.snd)⟩ (kept.map Prod.fst)) := by
  match kept, h with
  | e :: f :: kept, _ => rw [regroup, rebalance, List.length_map] <;> simp

theorem scaleSizes_append (front : List ℕ) (last total : ℕ) :
    scaleSizes (front ++ [last]) total = (front.map fun s => u16 (s * 100 / total)) ++
      [u16 (u16 (last * 100 / total) +
        (100 - u16 ((front.map fun s => u16 (s * 100 / total)).sum + u16 (last * 100 / total))))] := by
  simp [scaleSizes]

theorem equalSizes_append (front : List ℕ) (last : ℕ) :
    ∃ rest, equalSizes (front ++ [last]).length =
      List.replicate front.length (100 / (front.length + 1)) ++ [rest] ∧
        front.length * (100 / (front.length + 1)) + rest = 100 := by
  have hle : 100 / (front.length + 1) * (front.length + 1) ≤ 100 := Nat.div_mul_le_self _ _
  rw [List.length_append, List.length_singleton, equalSizes]
  refine ⟨_, rfl, ?_⟩
  rw [Nat.succ_eq_add_one] at *
  rw [mul_comm front.length]
  rw [Nat.mul_add_one] at hle ⊢
  omega

theorem sum_equalSizes {n : ℕ} (h : n ≠ 0) : (equalSizes n).sum = 100 := by
  obtain ⟨k, rfl⟩ := Nat.exists_eq_succ_of_ne_zero h
  obtain ⟨rest, he, hsum⟩ := equalSizes_append (List.replicate k 0) 0
  rw [List.length_append, List.length_replicate, List.length_singleton] at he
  rw [List.length_replicate] at hsum
  rw [Nat.succ_eq_add_one, he, List.sum_append, List.sum_replicate, List.sum_singleton, smul_eq_mul]
  exact hsum

@[simp] theorem length_rebalance (sizes : List ℕ) : (rebalance sizes).length = sizes.length := by
  rw [rebalance]
  split
  · exact length_equalSizes _
  · split
    · rfl
    · next hzero _ =>
      refine (scaleSizes_spec ?_).1
      rintro rfl
      exact hzero rfl

theorem eq_zero_of_scaled {s total : ℕ} (h : 100 < total) (hs : u16 (s * 100 / total) = s) : s = 0 := by
  by_contra hne
  have hlt : s * 100 / total < s := by
    rw [Nat.div_lt_iff_lt_mul (by omega)]
    exact Nat.mul_lt_mul_of_pos_left h (Nat.pos_of_ne_zero hne)
  have hle : u16 (s * 100 / total) ≤ s * 100 / total := Nat.mod_le _ _
  omega

/-- Scaling by another total than 100 changes something: either the scaled sizes add up to 100,
or each is less than it was. -/
theorem scaleSizes_ne {sizes : List ℕ} (hzero : u16 sizes.sum ≠ 0) (hundred : u16 sizes.sum ≠ 100) :
    scaleSizes sizes (u16 sizes.sum) ≠ sizes := by
  obtain rfl | ⟨front, last, rfl⟩ := List.eq_nil_or_concat' sizes
  · exact absurd rfl hzero
  intro he
  have hsum : u16 (front ++ [last]).sum = u16 (front.sum + last) := by simp
  rw [hsum] at hzero hundred he
  generalize ht : u16 (front.sum + last) = total at hzero hundred he
  rw [scaleSizes_append] at he
  obtain ⟨hfront, hlast⟩ := List.append_inj' he rfl
  have hlast := List.singleton_inj.1 hlast
  rw [hfront] at hlast
  generalize hl : u16 (last * 100 / total) = l at hlast
  have hlt : l < 2 ^ 16 := hl ▸ u16_lt _
  by_cases hle : u16 (front.sum + l) ≤ 100
  · refine hundred ?_
    rw [← ht]
    simp only [u16] at hle hlast ⊢
    omega
  · have hrem : l = last := by
      simp only [u16] at hle hlast
      omega
    have htotal : 100 < total := by
      rw [← ht, ← hrem]
      omega
    have hall : ∀ s ∈ front, s = 0 := fun s hs =>
      eq_zero_of_scaled htotal (List.map_inj_left.1 (hfront.trans (List.map_id front).symm) s hs)
    have hzeros : front.sum = 0 := List.sum_eq_zero_iff.2 hall
    have hlast0 : last = 0 := eq_zero_of_scaled htotal (hl.trans hrem)
    rw [hzeros, hlast0] at ht
    exact hzero ht.symm

/-- The sizes that a prune leaves alone. -/
theorem rebalance_eq_iff {sizes : List ℕ} (hne : sizes ≠ []) : rebalance sizes = sizes ↔ u16 sizes.sum = 100 := by
  rw [rebalance]
  split
  · next hzero =>
    rw [hzero]
    refine iff_of_false (fun he => ?_) (by decide)
    have hsum := sum_equalSizes (List.length_pos_of_ne_nil hne).ne'
    rw [he] at hsum
    rw [hsum] at hzero
    contradiction
  · next hzero =>
    split
    · next hundred => exact iff_of_true rfl hundred
    · next hundred => exact iff_of_false (scaleSizes_ne hzero hundred) hundred

/-- Shares spread over the sizes that are left: in proportion, up to rounding. -/
structure Redistributed (before after : List ℕ) : Prop where
  sum : after.sum = 100
  near : before.sum ≠ 0 → List.Forall₂ (fun s t => s * 100 / before.sum ≤ t ∧
    t < s * 100 / before.sum + before.length) before after
  same : before.sum = 100 → after = before

theorem sum_scaled {sizes : List ℕ} {total : ℕ} (h : 0 < total) :
    (sizes.map fun s => s * 100 / total).sum * total ≤ sizes.sum * 100 ∧
      (sizes ≠ [] → sizes.sum * 100 < ((sizes.map fun s => s * 100 / total).sum + sizes.length) * total) := by
  induction sizes with
  | nil => simp
  | cons s sizes ih =>
    obtain ⟨hle, hlt⟩ := ih
    have hdiv : s * 100 / total * total ≤ s * 100 := Nat.div_mul_le_self _ _
    have hmod : s * 100 < (s * 100 / total + 1) * total := by
      rw [mul_comm _ total]
      exact Nat.lt_mul_div_succ _ h
    rw [List.map_cons, List.sum_cons, List.sum_cons, List.length_cons]
    generalize (sizes.map fun s => s * 100 / total).sum = scaled at hle hlt ⊢
    generalize s * 100 / total = d at hdiv hmod ⊢
    refine ⟨by rw [add_mul, add_mul]; omega, fun _ => ?_⟩
    have hrest : sizes.sum * 100 ≤ (scaled + sizes.length) * total := by
      by_cases hnil : sizes = []
      · simp [hnil]
      · exact (hlt hnil).le
    calc (s + sizes.sum) * 100
        _ = s * 100 + sizes.sum * 100 := by ring
        _ < (d + 1) * total + (scaled + sizes.length) * total := by omega
        _ = (d + scaled + (sizes.length + 1)) * total := by ring

/-- Sizes scaled without overflow: each rounded down, what is missing in the last. -/
theorem redistributed_scaleSizes {sizes : List ℕ} (hpos : 0 < sizes.sum) (hlt : sizes.sum < 2 ^ 16) :
    (scaleSizes sizes sizes.sum).sum = 100 ∧
      List.Forall₂ (fun s t => s * 100 / sizes.sum ≤ t ∧ t < s * 100 / sizes.sum + sizes.length) sizes
        (scaleSizes sizes sizes.sum) := by
  have hne : sizes ≠ [] := by
    rintro rfl
    exact absurd hpos (lt_irrefl 0)
  obtain ⟨hle, hgt⟩ := @sum_scaled sizes _ hpos
  have hgt := hgt hne
  have hscaled : (sizes.map fun s => s * 100 / sizes.sum).sum ≤ 100 := by
    refine Nat.le_of_mul_le_mul_right ?_ hpos
    rwa [mul_comm sizes.sum 100] at hle
  have hrem : 100 < (sizes.map fun s => s * 100 / sizes.sum).sum + sizes.length := by
    refine Nat.lt_of_mul_lt_mul_right (a := sizes.sum) ?_
    rwa [mul_comm sizes.sum 100] at hgt
  have hu : ∀ s ∈ sizes, u16 (s * 100 / sizes.sum) = s * 100 / sizes.sum := by
    intro s hs
    refine u16_of_lt (lt_of_le_of_lt ?_ (by decide : 100 < 2 ^ 16))
    exact (List.le_sum_of_mem (List.mem_map_of_mem (f := fun s => s * 100 / sizes.sum) hs)).trans hscaled
  generalize htotal : sizes.sum = total at hle hgt hscaled hrem hu ⊢
  obtain ⟨front, last, rfl⟩ := (List.eq_nil_or_concat' sizes).resolve_left hne
  have hfront : (front.map fun s => u16 (s * 100 / total)) = front.map fun s => s * 100 / total :=
    List.map_congr_left fun s hs => hu s (by simp [hs])
  have hlast : u16 (last * 100 / total) = last * 100 / total := hu last (by simp)
  rw [scaleSizes_append, hfront, hlast]
  simp only [List.map_append, List.map_cons, List.map_nil, List.sum_append, List.sum_cons, List.sum_nil,
    Nat.add_zero, List.length_append, List.length_cons, List.length_nil] at hscaled hrem ⊢
  generalize (front.map fun s => s * 100 / total).sum = f at hscaled hrem ⊢
  generalize hl : last * 100 / total = l at hscaled hrem ⊢
  have hf : u16 (f + l) = f + l := u16_of_lt (by omega)
  rw [hf, u16_of_lt (by omega)]
  refine ⟨by omega, List.rel_append ?_ (.cons ?_ .nil)⟩
  · exact List.forall₂_map_right_iff.2 (List.forall₂_same.2 fun s _ => ⟨le_rfl, by omega⟩)
  · rw [hl]
    omega

theorem redistributed_rebalance {sizes : List ℕ} (hne : sizes ≠ []) (hlt : sizes.sum < 2 ^ 16) :
    Redistributed sizes (rebalance sizes) := by
  rw [rebalance, u16_of_lt hlt]
  split
  · next hzero =>
    exact ⟨sum_equalSizes (List.length_pos_of_ne_nil hne).ne', fun h => absurd hzero h,
      fun h => by rw [hzero] at h; contradiction⟩
  · next hzero =>
    split
    · next hundred =>
      refine ⟨hundred, fun _ => List.forall₂_same.2 fun s _ => ?_, fun _ => rfl⟩
      have := List.length_pos_of_ne_nil hne
      rw [hundred]
      omega
    · next hundred =>
      obtain ⟨hsum, hnear⟩ := redistributed_scaleSizes (Nat.pos_of_ne_zero hzero) hlt
      exact ⟨hsum, fun _ => hnear, fun h => absurd h hundred⟩

/-- Whether the sizes, scaled, are equal shares. -/
def EvensOut (sizes : List ℕ) : Prop :=
  let total := u16 sizes.sum
  total = 0 ∨ (∀ s ∈ sizes.dropLast, u16 (s * 100 / total) = 100 / sizes.length) ∧
    u16 (sizes.map fun s => u16 (s * 100 / total)).sum ≤ 100

instance (sizes : List ℕ) : Decidable (EvensOut sizes) := inferInstanceAs (Decidable (_ ∨ _ ∧ _))

theorem scaleSizes_hundred {sizes : List ℕ} (hu : ∀ s ∈ sizes, s < 2 ^ 16) (h : u16 sizes.sum = 100) :
    scaleSizes sizes 100 = sizes := by
  obtain rfl | ⟨front, last, rfl⟩ := List.eq_nil_or_concat' sizes
  · contradiction
  have hself : ∀ s ∈ front ++ [last], u16 (s * 100 / 100) = s := fun s hs => by
    rw [Nat.mul_div_cancel s (by norm_num), u16_of_lt (hu s hs)]
  have hfront : (front.map fun s => u16 (s * 100 / 100)) = front :=
    (List.map_congr_left fun s hs => hself s (by simp [hs])).trans (List.map_id front)
  have hsum : u16 (front.sum + last) = 100 := by simpa using h
  rw [scaleSizes_append, hfront, hself last (by simp), hsum, Nat.sub_self, Nat.add_zero,
    u16_of_lt (hu last (by simp))]

theorem rebalance_even_iff {sizes : List ℕ} (hu : ∀ s ∈ sizes, s < 2 ^ 16) (hne : sizes ≠ []) :
    rebalance sizes = equalSizes sizes.length ↔ EvensOut sizes := by
  by_cases hzero : u16 sizes.sum = 0
  · rw [rebalance, EvensOut, if_pos hzero]
    exact iff_of_true rfl (.inl hzero)
  have hscaled : rebalance sizes = scaleSizes sizes (u16 sizes.sum) := by
    rw [rebalance, if_neg hzero]
    split
    · next hundred => rw [hundred, scaleSizes_hundred hu hundred]
    · rfl
  rw [hscaled, EvensOut]
  generalize u16 sizes.sum = total at hzero
  obtain ⟨front, last, rfl⟩ := (List.eq_nil_or_concat' sizes).resolve_left hne
  obtain ⟨rest, he, hrest⟩ := equalSizes_append front last
  have hlt : u16 (last * 100 / total) < 2 ^ 16 := u16_lt _
  have hlen : (front ++ [last]).length = front.length + 1 := by simp
  rw [scaleSizes_append, he, hlen, List.dropLast_concat, List.map_append, List.map_singleton, List.sum_append,
    List.sum_singleton]
  generalize 100 / (front.length + 1) = base at he hrest
  generalize u16 (last * 100 / total) = l at hlt
  simp only [hzero, false_or]
  have hall : (front.map fun s => u16 (s * 100 / total)) = List.replicate front.length base ↔
      ∀ s ∈ front, u16 (s * 100 / total) = base := by
    rw [List.eq_replicate_iff, List.length_map, List.forall_mem_map]
    exact and_iff_right rfl
  constructor
  · intro h
    obtain ⟨hfront, hlast⟩ := List.append_inj' h rfl
    have hlast := List.singleton_inj.1 hlast
    refine ⟨hall.1 hfront, ?_⟩
    rw [hfront, List.sum_replicate, smul_eq_mul] at hlast ⊢
    by_contra hgt
    simp only [u16] at hlast hgt
    omega
  · rintro ⟨hfront, hle⟩
    rw [hall.2 hfront, List.sum_replicate, smul_eq_mul] at hle ⊢
    congr 2
    simp only [u16] at hle ⊢
    omega

section prune
variable {exited : List ℕ} {remainOnExit : Bool}

/-- The children that are left, each with its size. -/
theorem pruneChildren_eq {cs : List Node} {sizes : List ℕ} (h : sizes.length = cs.length) :
    pruneChildren exited remainOnExit cs sizes = (cs.zip sizes).filterMap fun e =>
      (pruneExited exited remainOnExit e.1).map fun c => (c, e.2) := by
  induction cs generalizing sizes with
  | nil => rw [pruneChildren, List.zip_nil_left, List.filterMap_nil]
  | cons c cs ih =>
    cases sizes with
    | nil => simp at h
    | cons s sizes =>
      rw [pruneChildren, List.zip_cons_cons, List.headD_cons, List.tail_cons, ih (by simpa using h)]
      cases hc : pruneExited exited remainOnExit c with
      | none => rw [List.filterMap_cons_none (by rw [hc]; rfl)]
      | some d => rw [List.filterMap_cons_some (by rw [hc]; rfl)]

/-- What a prune makes of a tree all of whose panes it keeps. -/
def settle (exited : List ℕ) (remainOnExit : Bool) (n : Node) : Node :=
  n.map (fun a => ⟨a.kind, rebalance a.sizes⟩) fun p => (afterExit exited remainOnExit p).getD p

theorem filterMap_settle {cs : List Node} {sizes : List ℕ} (hlen : sizes.length = cs.length)
    (h : ∀ c ∈ cs, pruneExited exited remainOnExit c = some (settle exited remainOnExit c)) :
    pruneChildren exited remainOnExit cs sizes = (cs.map (settle exited remainOnExit)).zip sizes := by
  rw [pruneChildren_eq hlen]
  induction cs generalizing sizes with
  | nil => rfl
  | cons c cs ih =>
    obtain ⟨hc, hcs⟩ := List.forall_mem_cons.1 h
    cases sizes with
    | nil => simp at hlen
    | cons s sizes =>
      rw [List.zip_cons_cons, List.filterMap_cons_some (by rw [hc]; rfl), ih (by simpa using hlen) hcs,
        List.map_cons, List.zip_cons_cons]

theorem pruneExited_settle {n : Node} (hn : Formed n)
    (hkept : ∀ p ∈ leaves n, (afterExit exited remainOnExit p).isSome) :
    pruneExited exited remainOnExit n = some (settle exited remainOnExit n) := by
  induction n using tree_induction with
  | leaf p =>
    obtain ⟨q, hq⟩ := Option.isSome_iff_exists.1 (hkept p (by simp))
    rw [pruneExited_leaf, settle, map_leaf, hq]
    rfl
  | split a children ih =>
    obtain ⟨⟨htwo, hlen⟩, hall⟩ := formed_split.1 hn
    have hchildren : ∀ c ∈ children,
        pruneExited exited remainOnExit c = some (settle exited remainOnExit c) := fun c hc =>
      ih c hc (hall c hc) fun p hp => hkept p (by rw [leaves_split]; exact List.mem_flatMap.2 ⟨c, hc, hp⟩)
    have hzip : ((children.map (settle exited remainOnExit)).zip a.sizes).length = children.length := by
      rw [List.length_zip, List.length_map, hlen, min_self]
    rw [pruneExited, filterMap_settle hlen hchildren, regroup_of_two _ (by omega), settle, map_split,
      List.map_fst_zip (by simp [hlen]), List.map_snd_zip (by simp [hlen])]
    rfl

/-- The sizes of every split add up to 100. -/
def Summed (n : Node) : Prop := AllSplits (fun a _ => u16 a.sizes.sum = 100) n

theorem summed_split {a : Split} {children : List Node} :
    Summed (.split a children) ↔ u16 a.sizes.sum = 100 ∧ ∀ c ∈ children, Summed c :=
  allSplits_split

/-- Where no pane changes, the tree stays just where its sizes add up. -/
theorem settle_eq_iff {n : Node} (hn : Formed n) (h : ∀ p ∈ leaves n, afterExit exited remainOnExit p = some p) :
    settle exited remainOnExit n = n ↔ Summed n := by
  induction n using tree_induction with
  | leaf p =>
    refine iff_of_true ?_ trivial
    rw [settle, map_leaf, h p (by simp)]
    rfl
  | split a children ih =>
    obtain ⟨⟨htwo, hlen⟩, hall⟩ := formed_split.1 hn
    have hne : a.sizes ≠ [] := List.ne_nil_of_length_pos (by omega)
    have hbelow : ∀ c ∈ children, (settle exited remainOnExit c = c ↔ Summed c) := fun c hc =>
      ih c hc (hall c hc) fun p hp => h p (by rw [leaves_split]; exact List.mem_flatMap.2 ⟨c, hc, hp⟩)
    have hmap : children.map (settle exited remainOnExit) = children ↔ ∀ c ∈ children, Summed c := by
      have hid := List.map_inj_left (l := children) (f := settle exited remainOnExit) (g := id)
      rw [List.map_id] at hid
      rw [hid]
      exact forall₂_congr hbelow
    have hsplit : settle exited remainOnExit (.split a children) =
        .split ⟨a.kind, rebalance a.sizes⟩ (children.map (settle exited remainOnExit)) := by
      rw [settle, map_split]
      rfl
    rw [hsplit, summed_split, ← rebalance_eq_iff hne, ← hmap, PathTree.split.injEq]
    refine and_congr_left fun _ => ?_
    obtain ⟨k, sizes⟩ := a
    simp

end prune

end Winsmux.Layout
