import Winsmux.Layout.Cells
import Winsmux.Layout.Prune

/-!
# Taking a pane out of its tree

A kill removes a pane, a break or a join extracts it, and a reap prunes it once its
process exited. Each rebuilds the tree in its own way: a kill and an extraction give
equal shares to every split on the way to the pane, a prune makes the sizes of every split
of the tree add up to 100. What they agree on is the pane taken out and nothing else
changed.
-/
namespace Winsmux.Layout
open PathTree

/-- The pane at a path taken out: the split that loses it gets `sizes`, or gives way to its
only other child, and nothing else changes. -/
def takeOut (sizes : List ℕ) : Node → List ℕ → Node
  | .split a children, [i] =>
    match children.eraseIdx i with
    | [c] => c
    | left => .split ⟨a.kind, sizes⟩ left
  | .split a children, i :: path =>
    match children[i]? with
    | some c => .split a (children.set i (takeOut sizes c path))
    | none => .split a children
  | n, _ => n

/-- Every split above the one that loses the pane has equal shares, every other has sizes that
add up to 100, and the shares left beside the pane scale to equal ones. -/
def Even : Node → List ℕ → Prop
  | .split a children, [i] =>
    (∀ (j : ℕ) c, j ≠ i → children[j]? = some c → Summed c) ∧
      (children.length = 2 ∨ EvensOut (a.sizes.eraseIdx i))
  | .split a children, i :: path =>
    a.sizes = equalSizes children.length ∧ (∀ (j : ℕ) c, j ≠ i → children[j]? = some c → Summed c) ∧
      ∀ c, children[i]? = some c → Even c path
  | _, _ => True

/-- The three ways leave one tree, the pane taken out of it and nothing else changed. -/
def SameRemains (n : Node) (path : List ℕ) (p : Pane) : Prop :=
  ∃ sizes, removeNode n path = .ok (takeOut sizes n path) ∧
    extractNode n path = (some (takeOut sizes n path), some (.leaf p)) ∧
    pruneExited [p.id] false n = some (takeOut sizes n path)

section list
variable {α : Type*} {left right : List α} {c d : α}

theorem eraseIdx_middle (left right : List α) (c : α) :
    (left ++ c :: right).eraseIdx left.length = left ++ right := by
  simp [List.eraseIdx_append_of_length_le]

theorem set_middle (left right : List α) (c d : α) :
    (left ++ c :: right).set left.length d = left ++ d :: right := by
  simp

theorem getElem?_middle (left right : List α) (c : α) :
    (left ++ c :: right)[left.length]? = some c := by
  simp

/-- What holds of the elements but one. -/
theorem forall_others {P : α → Prop} : (∀ (j : ℕ) d, j ≠ left.length → (left ++ c :: right)[j]? = some d → P d) ↔
    ∀ d ∈ left ++ right, P d := by
  constructor
  · intro h d hd
    obtain hd | hd := List.mem_append.1 hd
    · obtain ⟨j, hj, rfl⟩ := List.getElem_of_mem hd
      exact h j _ hj.ne (by rw [List.getElem?_append_left hj, List.getElem?_eq_getElem hj])
    · obtain ⟨j, hj, rfl⟩ := List.getElem_of_mem hd
      refine h (left.length + (j + 1)) _ (by omega) ?_
      rw [List.getElem?_append_right (Nat.le_add_right _ _), Nat.add_sub_cancel_left, List.getElem?_cons_succ,
        List.getElem?_eq_getElem hj]
  · intro h j d hj hd
    obtain hlt | hlt := Nat.lt_or_gt_of_ne hj
    · rw [List.getElem?_append_left hlt] at hd
      exact h d (List.mem_append_left _ (List.mem_of_getElem? hd))
    · rw [List.getElem?_append_right hlt.le] at hd
      obtain ⟨k, hk⟩ := Nat.exists_eq_succ_of_ne_zero (Nat.sub_ne_zero_of_lt hlt)
      rw [hk, List.getElem?_cons_succ] at hd
      exact h d (List.mem_append_right _ (List.mem_of_getElem? hd))

theorem middle_inj : left ++ c :: right = left ++ d :: right ↔ c = d := by
  simp

end list

section kill
variable {a : Split} {left right : List Node} {c : Node}

theorem takeOut_last (sizes : List ℕ) (h : 2 ≤ (left ++ right).length) :
    takeOut sizes (.split a (left ++ c :: right)) [left.length] = .split ⟨a.kind, sizes⟩ (left ++ right) := by
  rw [takeOut, eraseIdx_middle]
  split
  · next d hd =>
    rw [hd] at h
    simp at h
  · rfl

theorem takeOut_last_one (sizes : List ℕ) {d : Node} (h : left ++ right = [d]) :
    takeOut sizes (.split a (left ++ c :: right)) [left.length] = d := by
  rw [takeOut, eraseIdx_middle, h]

theorem takeOut_below (sizes : List ℕ) {j : ℕ} {path : List ℕ} :
    takeOut sizes (.split a (left ++ c :: right)) (left.length :: j :: path) =
      .split a (left ++ takeOut sizes c (j :: path) :: right) := by
  rw [takeOut, getElem?_middle]
  · simp only [set_middle]
  · simp

theorem collapse_of_two (kind : LayoutKind) {children : List Node} (h : 2 ≤ children.length) :
    collapse kind children = .split ⟨kind, equalSizes children.length⟩ children := by
  rw [collapse.eq_def]
  split
  · simp at h
  · rfl

/-- The shares that a kill and an extraction leave are those of `takeOut`. -/
def EqualUp (sizes : List ℕ) : Node → List ℕ → Prop
  | .split _ children, [_] => children.length = 2 ∨ sizes = equalSizes (children.length - 1)
  | .split a children, i :: path =>
    a.sizes = equalSizes children.length ∧ ∀ c, children[i]? = some c → EqualUp sizes c path
  | _, _ => True

theorem split_inj_sizes {a : Split} {sizes : List ℕ} {cs ds : List Node} :
    (PathTree.split ⟨a.kind, sizes⟩ cs : Node) = .split a ds ↔ a.sizes = sizes ∧ cs = ds := by
  obtain ⟨k, s⟩ := a
  simp [eq_comm]

theorem remove_extract {n : Node} (hn : Formed n) {p : Pane} {path : List ℕ} (hne : path ≠ [])
    (hp : at? n path = some (.leaf p)) :
    ∃ m, removeNode n path = .ok m ∧ extractNode n path = (some m, some (.leaf p)) ∧
      ∀ sizes, m = takeOut sizes n path ↔ EqualUp sizes n path := by
  induction path generalizing n with
  | nil => contradiction
  | cons i path ih =>
    cases n with
    | leaf q => simp at hp
    | split a children =>
      obtain ⟨c, hc, hpath⟩ := Option.bind_eq_some_iff.1 (by simpa using hp)
      obtain ⟨⟨htwo, hlen⟩, hall⟩ := formed_split.1 hn
      obtain ⟨left, right, rfl, rfl⟩ := exists_append_of_getElem? hc
      have hcount : (left ++ c :: right).length = (left ++ right).length + 1 := by
        simp only [List.length_append, List.length_cons]
        omega
      have hnil : left ++ right ≠ [] := List.ne_nil_of_length_pos (by omega)
      cases path with
      | nil =>
        obtain rfl : c = .leaf p := by simpa using hpath
        refine ⟨collapse a.kind (left ++ right), ?_, ?_, fun sizes => ?_⟩
        · rw [removeNode, eraseIdx_middle, if_neg hnil]
        · simp only [extractNode, getElem?_middle, eraseIdx_middle, if_neg hnil]
        · rw [EqualUp, hcount, Nat.add_sub_cancel]
          by_cases hone : (left ++ right).length = 1
          · obtain ⟨d, hd⟩ := List.length_eq_one_iff.1 hone
            rw [takeOut_last_one sizes hd, hd]
            exact iff_of_true rfl (.inl rfl)
          · have hmore : 2 ≤ (left ++ right).length := by omega
            rw [takeOut_last sizes hmore, collapse_of_two a.kind hmore]
            rw [or_iff_right (by omega : (left ++ right).length + 1 ≠ 2)]
            simp [eq_comm]
      | cons j path =>
        obtain ⟨m, hremove, hextract, hm⟩ := ih (hall c (by simp)) (List.cons_ne_nil j path) hpath
        have hmore : 2 ≤ (left ++ m :: right).length := by simpa using htwo
        have hset : left ++ m :: right ≠ [] := by simp
        refine ⟨collapse a.kind (left ++ m :: right), ?_, ?_, fun sizes => ?_⟩
        · rw [removeNode, getElem?_middle]
          simp only [hremove, bind, Except.bind, set_middle]
        · rw [extractNode, getElem?_middle]
          simp only [hextract, set_middle, if_neg hset]
        · have hsame : (left ++ m :: right).length = (left ++ c :: right).length := by simp
          rw [collapse_of_two a.kind hmore, takeOut_below, split_inj_sizes, middle_inj, hm sizes, EqualUp, hsame,
            getElem?_middle]
          · simp
          · simp

end kill

section prune

/-- The shares that a prune leaves are those of `takeOut`. -/
def SummedUp (sizes : List ℕ) : Node → List ℕ → Prop
  | .split a children, [i] =>
    (∀ (j : ℕ) c, j ≠ i → children[j]? = some c → Summed c) ∧
      (children.length = 2 ∨ sizes = rebalance (a.sizes.eraseIdx i))
  | .split a children, i :: path =>
    u16 a.sizes.sum = 100 ∧ (∀ (j : ℕ) c, j ≠ i → children[j]? = some c → Summed c) ∧
      ∀ c, children[i]? = some c → SummedUp sizes c path
  | _, _ => True

variable {exited : List ℕ} {left right : List Node} {c : Node}

/-- A child pruned among children that keep their panes. -/
theorem pruneChildren_middle {sizes : List ℕ} (hlen : sizes.length = (left ++ c :: right).length)
    (hothers : ∀ d ∈ left ++ right, pruneExited exited false d = some (settle exited false d)) :
    pruneChildren exited false (left ++ c :: right) sizes =
      (left.map (settle exited false)).zip (sizes.take left.length) ++
        (((pruneExited exited false c).map fun d => (d, sizes.getD left.length 0)).toList ++
          (right.map (settle exited false)).zip (sizes.drop (left.length + 1))) := by
  obtain ⟨hleft, hright⟩ := List.forall_mem_append.1 hothers
  have hlt : left.length < sizes.length := by
    rw [hlen, List.length_append, List.length_cons]
    omega
  have hsizes : sizes = sizes.take left.length ++ sizes.getD left.length 0 :: sizes.drop (left.length + 1) := by
    rw [List.getD_eq_getElem?_getD, List.getElem?_eq_getElem hlt, Option.getD_some, List.cons_getElem_drop_succ,
      List.take_append_drop]
  have hl := @filterMap_settle _ _ _ (sizes.take left.length) (by simp [hlt.le]) hleft
  have hr := @filterMap_settle _ _ _ (sizes.drop (left.length + 1)) (by
    simp only [List.length_drop, hlen, List.length_append, List.length_cons]
    omega) hright
  rw [pruneChildren_eq (by simp [hlt.le])] at hl
  rw [pruneChildren_eq (by
    simp only [List.length_drop, hlen, List.length_append, List.length_cons]
    omega)] at hr
  rw [pruneChildren_eq hlen]
  conv_lhs => rw [hsizes]
  rw [List.zip_append (by simp [hlt.le]), List.zip_cons_cons, List.filterMap_append, hl]
  congr 1
  cases hc : pruneExited exited false c with
  | none => rw [List.filterMap_cons_none (by simp [hc]), hr]; rfl
  | some d => rw [List.filterMap_cons_some (b := (d, sizes.getD left.length 0)) (by simp [hc]), hr]; rfl

theorem id_ne_of_nodup {a : Split} (hids : ((leaves (.split a (left ++ c :: right))).map Pane.id).Nodup) {p q : Pane}
    (hp : p ∈ leaves c) {d : Node} (hd : d ∈ left ++ right) (hq : q ∈ leaves d) : q.id ≠ p.id := by
  rw [leaves_split, List.flatMap_append, List.flatMap_cons, List.map_append, List.map_append] at hids
  obtain ⟨-, hrest, hleft⟩ := List.nodup_append.1 hids
  obtain ⟨-, -, hright⟩ := List.nodup_append.1 hrest
  obtain hd | hd := List.mem_append.1 hd
  · exact hleft _ (List.mem_map_of_mem (List.mem_flatMap.2 ⟨d, hd, hq⟩)) _
      (List.mem_append_left _ (List.mem_map_of_mem hp))
  · exact (hright _ (List.mem_map_of_mem hp) _ (List.mem_map_of_mem (List.mem_flatMap.2 ⟨d, hd, hq⟩))).symm

/-- One pane exited, those beside its child stay. -/
theorem afterExit_other {p q : Pane} (h : q.id ≠ p.id) : afterExit [p.id] false q = some q := by
  rw [afterExit]
  simp [h]

section Middle
variable {a : Split} {p : Pane}

theorem pruneExited_other (hn : Formed (.split a (left ++ c :: right)))
    (hids : ((leaves (.split a (left ++ c :: right))).map Pane.id).Nodup) (hp : p ∈ leaves c) {d : Node}
    (hd : d ∈ left ++ right) : pruneExited [p.id] false d = some (settle [p.id] false d) ∧
      (settle [p.id] false d = d ↔ Summed d) := by
  have hformed : Formed d := (formed_split.1 hn).2 d (by
    obtain hd | hd := List.mem_append.1 hd <;> simp [hd])
  have hother (q : Pane) (hq : q ∈ leaves d) : afterExit [p.id] false q = some q :=
    afterExit_other (id_ne_of_nodup hids hp hd hq)
  exact ⟨pruneExited_settle hformed fun q hq => by rw [hother q hq]; rfl, settle_eq_iff hformed hother⟩

/-- Where one pane exited, the children beside its own stay as they are if their shares sum up. -/
theorem settle_others_eq_iff (hn : Formed (.split a (left ++ c :: right)))
    (hids : ((leaves (.split a (left ++ c :: right))).map Pane.id).Nodup) (hp : p ∈ leaves c) :
    (left ++ right).map (settle [p.id] false) = left ++ right ↔ ∀ d ∈ left ++ right, Summed d := by
  have hid := List.map_inj_left (l := left ++ right) (f := settle [p.id] false) (g := id)
  rw [List.map_id] at hid
  rw [hid]
  exact forall₂_congr fun d hd => (pruneExited_other hn hids hp hd).2

theorem length_left_settled (f : Node → Node) (hlen : a.sizes.length = (left ++ c :: right).length) :
    (left.map f).length = (a.sizes.take left.length).length := by
  simp only [List.length_map, List.length_take, hlen, List.length_append, List.length_cons]
  omega

theorem length_right_settled (f : Node → Node) (hlen : a.sizes.length = (left ++ c :: right).length) :
    (right.map f).length = (a.sizes.drop (left.length + 1)).length := by
  simp only [List.length_map, List.length_drop, hlen, List.length_append, List.length_cons]
  omega

/-- The pane that exited is a child of the split. -/
theorem prune_last (hn : Formed (.split a (left ++ .leaf p :: right))) (hdead : p.dead = false)
    (hids : ((leaves (.split a (left ++ .leaf p :: right))).map Pane.id).Nodup) :
    ∃ m, pruneExited [p.id] false (.split a (left ++ .leaf p :: right)) = some m ∧
      ∀ sizes, m = takeOut sizes (.split a (left ++ .leaf p :: right)) [left.length] ↔
        SummedUp sizes (.split a (left ++ .leaf p :: right)) [left.length] := by
  obtain ⟨⟨htwo, hlen⟩, -⟩ := formed_split.1 hn
  have hcount : (left ++ .leaf p :: right).length = (left ++ right).length + 1 := by
    simp only [List.length_append, List.length_cons]
    omega
  have hlt : left.length < a.sizes.length := by
    rw [hlen, hcount, List.length_append]
    omega
  have hp : p ∈ leaves (.leaf p : Node) := by simp
  have hsame := settle_others_eq_iff hn hids hp
  have hmiddle := pruneChildren_middle hlen fun d hd => (pruneExited_other hn hids hp hd).1
  have hgone : pruneExited [p.id] false (.leaf p) = none := by
    rw [pruneExited_leaf, afterExit]
    simp [hdead]
  rw [hgone, Option.map_none, Option.toList_none, List.nil_append,
    ← List.zip_append (length_left_settled _ hlen), ← List.map_append, ← List.eraseIdx_eq_take_drop_succ] at hmiddle
  have herase : (a.sizes.eraseIdx left.length).length = (left ++ right).length := by
    rw [List.length_eraseIdx_of_lt hlt]
    omega
  rw [pruneExited, hmiddle]
  by_cases hone : (left ++ right).length = 1
  · obtain ⟨d, hd⟩ := List.length_eq_one_iff.1 hone
    obtain ⟨s, hs⟩ := List.length_eq_one_iff.1 (herase.trans hone)
    rw [hd, hs]
    refine ⟨settle [p.id] false d, rfl, fun sizes => ?_⟩
    rw [takeOut_last_one sizes hd, SummedUp, hcount, hone, forall_others, ← hsame, hd]
    simp
  · have hmore : 2 ≤ (left ++ right).length := by omega
    rw [regroup_of_two _ (by simpa [herase] using hmore), List.map_fst_zip (by simp [herase]),
      List.map_snd_zip (by simp [herase])]
    refine ⟨_, rfl, fun sizes => ?_⟩
    rw [takeOut_last sizes hmore, SummedUp, hcount, forall_others, ← hsame,
      or_iff_right (by omega : (left ++ right).length + 1 ≠ 2), PathTree.split.injEq, Split.mk.injEq]
    simp only [true_and]
    rw [and_comm, eq_comm (a := sizes)]

/-- The pane that exited is below a child of the split, which stays. -/
theorem prune_below (hn : Formed (.split a (left ++ c :: right)))
    (hids : ((leaves (.split a (left ++ c :: right))).map Pane.id).Nodup) (hp : p ∈ leaves c) {j : ℕ}
    {path : List ℕ} {m : Node} (hm : pruneExited [p.id] false c = some m)
    (htake : ∀ sizes, m = takeOut sizes c (j :: path) ↔ SummedUp sizes c (j :: path)) :
    ∃ m, pruneExited [p.id] false (.split a (left ++ c :: right)) = some m ∧
      ∀ sizes, m = takeOut sizes (.split a (left ++ c :: right)) (left.length :: j :: path) ↔
        SummedUp sizes (.split a (left ++ c :: right)) (left.length :: j :: path) := by
  obtain ⟨⟨htwo, hlen⟩, -⟩ := formed_split.1 hn
  have hlt : left.length < a.sizes.length := by
    rw [hlen, List.length_append, List.length_cons]
    omega
  have hl := length_left_settled (settle [p.id] false) hlen
  have hr := length_right_settled (settle [p.id] false) hlen
  have hsame := settle_others_eq_iff hn hids hp
  have hmiddle := pruneChildren_middle hlen fun d hd => (pruneExited_other hn hids hp hd).1
  have hne : a.sizes ≠ [] := List.ne_nil_of_length_pos (by omega)
  rw [hm, Option.map_some, Option.toList_some] at hmiddle
  have hfst : (pruneChildren [p.id] false (left ++ c :: right) a.sizes).map Prod.fst =
      left.map (settle [p.id] false) ++ m :: right.map (settle [p.id] false) := by
    rw [hmiddle, List.map_append, List.map_append, List.map_fst_zip hl.le, List.map_fst_zip hr.le]
    rfl
  have hsnd : (pruneChildren [p.id] false (left ++ c :: right) a.sizes).map Prod.snd = a.sizes := by
    rw [hmiddle, List.map_append, List.map_append, List.map_snd_zip hl.ge, List.map_snd_zip hr.ge,
      List.map_singleton, List.getD_eq_getElem?_getD, List.getElem?_eq_getElem hlt, Option.getD_some,
      List.singleton_append, List.cons_getElem_drop_succ, List.take_append_drop]
  have hmore : 2 ≤ (pruneChildren [p.id] false (left ++ c :: right) a.sizes).length := by
    rw [← List.length_map (f := Prod.snd), hsnd, hlen]
    exact htwo
  rw [pruneExited, regroup_of_two _ hmore, hfst, hsnd]
  refine ⟨_, rfl, fun sizes => ?_⟩
  have hlists : left.map (settle [p.id] false) ++ m :: right.map (settle [p.id] false) =
      left ++ takeOut sizes c (j :: path) :: right ↔
        (left ++ right).map (settle [p.id] false) = left ++ right ∧ m = takeOut sizes c (j :: path) := by
    rw [List.map_append]
    constructor
    · intro h
      obtain ⟨hleft, hcons⟩ := List.append_inj h (List.length_map _)
      obtain ⟨hmid, hright⟩ := List.cons.inj hcons
      exact ⟨by rw [hleft, hright], hmid⟩
    · rintro ⟨h, hmid⟩
      obtain ⟨hleft, hright⟩ := List.append_inj h (List.length_map _)
      rw [hleft, hright, hmid]
  rw [takeOut_below, split_inj_sizes, SummedUp, eq_comm (a := a.sizes), rebalance_eq_iff hne, forall_others,
    ← hsame, getElem?_middle]
  · rw [hlists, htake sizes]
    simp
  · simp

end Middle

theorem prune_one {n : Node} (hn : Formed n) {p : Pane} (hdead : p.dead = false)
    (hids : ((leaves n).map Pane.id).Nodup) {path : List ℕ} (hne : path ≠ [])
    (hp : at? n path = some (.leaf p)) :
    ∃ m, pruneExited [p.id] false n = some m ∧
      ∀ sizes, m = takeOut sizes n path ↔ SummedUp sizes n path := by
  induction path generalizing n with
  | nil => contradiction
  | cons i path ih =>
    cases n with
    | leaf q => simp at hp
    | split a children =>
      obtain ⟨c, hc, hpath⟩ := Option.bind_eq_some_iff.1 (by simpa using hp)
      obtain ⟨left, right, rfl, rfl⟩ := exists_append_of_getElem? hc
      cases path with
      | nil =>
        obtain rfl : c = .leaf p := by simpa using hpath
        exact prune_last hn hdead hids
      | cons j path =>
        obtain ⟨m, hm, htake⟩ := ih ((formed_split.1 hn).2 c (by simp)) (by
          rw [leaves_split, List.flatMap_append, List.flatMap_cons, List.map_append, List.map_append] at hids
          exact (List.nodup_append.1 (List.nodup_append.1 hids).2.1).1) (List.cons_ne_nil j path) hpath
        exact prune_below hn hids (mem_leaves.2 ⟨j :: path, hpath⟩) hm htake

end prune

theorem leaves_takeOut {n : Node} {p : Pane} {path : List ℕ} (hne : path ≠ [])
    (hp : at? n path = some (.leaf p)) (sizes : List ℕ) :
    ∃ pre post, leaves n = pre ++ p :: post ∧ leaves (takeOut sizes n path) = pre ++ post := by
  induction path generalizing n with
  | nil => contradiction
  | cons i path ih =>
    cases n with
    | leaf q => simp at hp
    | split a children =>
      obtain ⟨c, hc, hpath⟩ := Option.bind_eq_some_iff.1 (by simpa using hp)
      obtain ⟨left, right, rfl, rfl⟩ := exists_append_of_getElem? hc
      cases path with
      | nil =>
        obtain rfl : c = .leaf p := by simpa using hpath
        refine ⟨left.flatMap leaves, right.flatMap leaves, by simp, ?_⟩
        rw [takeOut, eraseIdx_middle]
        split
        · next d hd =>
          rw [← List.flatMap_append, hd]
          simp
        · simp
      | cons j path =>
        obtain ⟨pre, post, hn, htake⟩ := ih (List.cons_ne_nil j path) hpath
        refine ⟨left.flatMap leaves ++ pre, post ++ right.flatMap leaves, by simp [hn], ?_⟩
        rw [takeOut_below]
        simp [htake]

/-- No split of the tree is left with one child. -/
theorem collapsed_takeOut {n : Node} (hn : Formed n) (sizes : List ℕ) (path : List ℕ) :
    AllSplits (fun _ k => 2 ≤ k) (takeOut sizes n path) := by
  have hforget : ∀ {m : Node}, Formed m → AllSplits (fun _ k => 2 ≤ k) m := fun h =>
    allSplits_iff.2 fun q a children hq => (allSplits_iff.1 h q a children hq).two
  induction path generalizing n with
  | nil =>
    cases n <;> exact hforget hn
  | cons i path ih =>
    cases n with
    | leaf q => trivial
    | split a children =>
      obtain ⟨⟨htwo, -⟩, hall⟩ := formed_split.1 hn
      cases path with
      | nil =>
        rw [takeOut]
        have hsub : ∀ d ∈ children.eraseIdx i, Formed d := fun d hd => hall d (List.mem_of_mem_eraseIdx hd)
        split
        · next d hd =>
          rw [hd] at hsub
          exact hforget (hsub d List.mem_cons_self)
        · next hone =>
          refine allSplits_split.2 ⟨?_, fun d hd => hforget (hsub d hd)⟩
          have hlen : children.length - 1 ≤ (children.eraseIdx i).length := by
            rw [List.length_eraseIdx]
            split <;> omega
          match h : children.eraseIdx i with
          | [] =>
            rw [h, List.length_nil] at hlen
            omega
          | [d] => exact absurd h (hone d)
          | d :: e :: rest => simp
      | cons j path =>
        rw [takeOut]
        · split
          · next c hc =>
            refine allSplits_split.2 ⟨by rwa [List.length_set], fun d hd => ?_⟩
            obtain hd | rfl := List.mem_or_eq_of_mem_set hd
            · exact hforget (hall d hd)
            · exact ih (hall c (List.mem_of_getElem? hc))
          · exact hforget hn
        · simp

theorem even_iff {n : Node} (hn : Formed n) (hsizes : Cells.SizesFit n) {p : Pane} {path : List ℕ}
    (hne : path ≠ []) (hp : at? n path = some (.leaf p)) :
    (∃ sizes, EqualUp sizes n path ∧ SummedUp sizes n path) ↔ Even n path := by
  induction path generalizing n with
  | nil => contradiction
  | cons i path ih =>
    cases n with
    | leaf q => simp at hp
    | split a children =>
      obtain ⟨c, hc, hpath⟩ := Option.bind_eq_some_iff.1 (by simpa using hp)
      obtain ⟨⟨htwo, hlen⟩, hall⟩ := formed_split.1 hn
      obtain ⟨hu, hbelow⟩ := allSplits_split.1 hsizes
      have hi := (List.getElem?_eq_some_iff.1 hc).1
      cases path with
      | nil =>
        have herase : (a.sizes.eraseIdx i).length = children.length - 1 := by
          rw [List.length_eraseIdx_of_lt (by omega), hlen]
        have heven := @rebalance_even_iff (a.sizes.eraseIdx i)
          (fun s hs => hu s (List.mem_of_mem_eraseIdx hs)) (List.ne_nil_of_length_pos (by omega))
        rw [herase] at heven
        rw [Even, ← heven]
        simp only [EqualUp, SummedUp]
        constructor
        · rintro ⟨sizes, hequal, hothers, hsum⟩
          refine ⟨hothers, ?_⟩
          obtain h | h := hequal
          · exact .inl h
          · obtain h' | h' := hsum
            · exact .inl h'
            · exact .inr (h'.symm.trans h)
        · rintro ⟨hothers, h⟩
          refine ⟨equalSizes (children.length - 1), .inr rfl, hothers, ?_⟩
          obtain h | h := h
          · exact .inl h
          · exact .inr h.symm
      | cons j path =>
        have hrec := ih (hall c (List.mem_of_getElem? hc)) (hbelow c (List.mem_of_getElem? hc))
          (List.cons_ne_nil j path) hpath
        have hone : ∀ {P : Node → Prop}, (∀ d, children[i]? = some d → P d) ↔ P c := fun {P} =>
          ⟨fun h => h c hc, fun h d hd => Option.some.inj (hc.symm.trans hd) ▸ h⟩
        have hsum : a.sizes = equalSizes children.length → u16 a.sizes.sum = 100 := fun h => by
          rw [h, sum_equalSizes (by omega)]
          rfl
        rw [Even, hone, ← hrec]
        · simp only [EqualUp, SummedUp, hone]
          constructor
          · rintro ⟨sizes, ⟨hequal, hup⟩, -, hothers, hdown⟩
            exact ⟨hequal, hothers, sizes, hup, hdown⟩
          · rintro ⟨hequal, hothers, sizes, hup, hdown⟩
            exact ⟨sizes, ⟨hequal, hup⟩, hsum hequal, hothers, hdown⟩
        · simp

/-- A kill, an extraction and a prune take a pane out in the same way just where the pane is not
already marked dead and the sizes are even. -/
theorem same_remains_iff {n : Node} (hn : Formed n) (hsizes : Cells.SizesFit n)
    (hids : ((leaves n).map Pane.id).Nodup) (htwo : 2 ≤ countPanes n) {path : List ℕ} {p : Pane}
    (hp : at? n path = some (.leaf p)) :
    (∀ sizes, (∃ pre post, leaves n = pre ++ p :: post ∧ leaves (takeOut sizes n path) = pre ++ post) ∧
      AllSplits (fun _ k => 2 ≤ k) (takeOut sizes n path)) ∧
    (SameRemains n path p ↔ p.dead = false ∧ Even n path) := by
  have hne : path ≠ [] := by
    rintro rfl
    obtain rfl : n = .leaf p := by simpa using hp
    simp [countPanes] at htwo
  refine ⟨fun sizes => ⟨leaves_takeOut hne hp sizes, collapsed_takeOut hn sizes path⟩, ?_⟩
  obtain ⟨m, hremove, hextract, hm⟩ := remove_extract hn hne hp
  rw [SameRemains, ← even_iff hn hsizes hne hp]
  by_cases hdead : p.dead = false
  · obtain ⟨m', hprune, hm'⟩ := prune_one hn hdead hids hne hp
    rw [hremove, hextract, hprune]
    simp only [Except.ok.injEq, Prod.mk.injEq, Option.some_inj, and_true, hm, hm', hdead, true_and,
      and_self_left]
  · -- a pane marked dead is not pruned, so it is still there
    refine iff_of_false ?_ fun h => hdead h.1
    rintro ⟨sizes, -, -, hprune⟩
    obtain ⟨pre, post, hleaves, htake⟩ := leaves_takeOut hne hp sizes
    have hkept : ∀ q ∈ leaves n, (afterExit [p.id] false q).isSome := by
      intro q hq
      by_cases hid : q.id = p.id
      · rw [List.inj_on_of_nodup_map hids hq (mem_leaves.2 ⟨path, hp⟩) hid, afterExit]
        simp [hdead]
      · rw [afterExit_other hid]
        rfl
    rw [pruneExited_settle hn hkept, Option.some_inj] at hprune
    have hcount := congrArg (fun m => (leaves m).length) hprune
    simp only [settle, leaves_map, htake, hleaves, List.length_map, List.length_append, List.length_cons] at hcount
    omega

section sample

/-- A pane beside two stacked ones. -/
def besideStack (left right : ℕ) : Node :=
  .split ⟨.horizontal, [left, right]⟩
    [.leaf ⟨1, false⟩, .split ⟨.vertical, [50, 50]⟩ [.leaf ⟨2, false⟩, .leaf ⟨3, false⟩]]

theorem same_remains_halves : SameRemains (besideStack 50 50) [1, 0] ⟨2, false⟩ := by
  refine (same_remains_iff ?_ ?_ ?_ ?_ ?_).2.2 ⟨rfl, ?_⟩
  · refine formed_split.2 ⟨⟨le_rfl, rfl⟩, ?_⟩
    simp only [List.forall_mem_cons]
    exact ⟨trivial, formed_split.2 ⟨⟨le_rfl, rfl⟩, by simp [Formed]⟩, by simp⟩
  · simp [Cells.SizesFit, besideStack, allSplits_split]
  · decide
  · decide
  · rfl
  · refine ⟨rfl, ?_, ?_⟩
    · rintro (_ | _ | j) c hj hc
      · obtain rfl : PathTree.leaf ⟨1, false⟩ = c := by simpa using hc
        trivial
      · contradiction
      · simp at hc
    · rintro c hc
      obtain rfl := Option.some.inj hc
      refine ⟨?_, .inl rfl⟩
      rintro (_ | _ | j) d hj hd
      · contradiction
      · obtain rfl : PathTree.leaf ⟨3, false⟩ = d := by simpa using hd
        trivial
      · simp at hd

/-- The split above the two panes lost nothing, and killing one of them makes its 70 and 30 halves. -/
theorem kill_resizes_above :
    removeNode (besideStack 70 30) [1, 0] =
        .ok (.split ⟨.horizontal, [50, 50]⟩ [.leaf ⟨1, false⟩, .leaf ⟨3, false⟩]) ∧
      pruneExited [2] false (besideStack 70 30) =
        some (.split ⟨.horizontal, [70, 30]⟩ [.leaf ⟨1, false⟩, .leaf ⟨3, false⟩]) ∧
      ¬SameRemains (besideStack 70 30) [1, 0] ⟨2, false⟩ := by
  refine ⟨rfl, rfl, ?_⟩
  rintro ⟨sizes, hremove, -, hprune⟩
  have hkill : removeNode (besideStack 70 30) [1, 0] =
      .ok (.split ⟨.horizontal, [50, 50]⟩ [.leaf ⟨1, false⟩, .leaf ⟨3, false⟩]) := rfl
  have hreap : pruneExited [2] false (besideStack 70 30) =
      some (.split ⟨.horizontal, [70, 30]⟩ [.leaf ⟨1, false⟩, .leaf ⟨3, false⟩]) := rfl
  have hsame := (Except.ok.inj (hkill.symm.trans hremove)).trans (Option.some.inj (hreap.symm.trans hprune)).symm
  simp at hsame

end sample

end Winsmux.Layout
