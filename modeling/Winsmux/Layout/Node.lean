import Winsmux.PathTree

/-!
# The pane tree of a window

A window's panes hang in a tree of splits; a split has a direction, a list of shares and
a list of children, which nothing keeps at one length. Panes are found by the path of
child indices from the root. A pane is its id and whether it is kept after its process
exited; the process itself, its screen and its size are left out.
-/
namespace Winsmux.Layout
open PathTree

inductive LayoutKind where
  | horizontal
  | vertical
  deriving DecidableEq

structure Pane where
  id : ℕ
  dead : Bool
  deriving DecidableEq

/-- What a split has beside its children. -/
structure Split where
  kind : LayoutKind
  sizes : List ℕ
  deriving DecidableEq

abbrev Node := PathTree Split Pane

/-- How a command can panic. -/
inductive Panic where
  /-- No window at the active index. -/
  | windowIndex
  /-- A child index beyond the children of a split. -/
  | childIndex
  /-- An index beyond the sizes of a split. -/
  | sizeIndex
  | divideByZero
  /-- A `clamp` with its bounds the wrong way round. -/
  | clampRange
  deriving DecidableEq

/-- What is left of a number in 16 bits. -/
def u16 (n : ℕ) : ℕ := n % 2 ^ 16

/-- `100` in `n` equal shares, the remainder in the last. -/
def equalSizes (n : ℕ) : List ℕ :=
  match n with
  | 0 => []
  | k + 1 => List.replicate k (100 / n) ++ [100 / n + (100 - 100 / n * n)]

@[simp] theorem length_equalSizes (n : ℕ) : (equalSizes n).length = n := by
  cases n <;> simp [equalSizes]

/-- The pane a write goes to: the path must end at its leaf. -/
def activePaneMut (n : Node) (path : List ℕ) : Option Pane :=
  match at? n path with
  | some (.leaf p) => some p
  | _ => none

/-- The pane at the end of the first children. -/
def firstPaneId : Node → Option ℕ
  | .leaf p => some p.id
  | .split _ [] => none
  | .split _ (c :: _) => firstPaneId c

/-- The pane a read takes: a path that goes astray or stops early goes on along the
first children. -/
def getActivePaneId : Node → List ℕ → Option ℕ
  | .leaf p, _ => some p.id
  | .split _ children, [] => children.head?.bind firstPaneId
  | .split _ children, i :: path =>
    match children[i]? with
    | some c => getActivePaneId c path
    | none => children.head?.bind firstPaneId

def pathExists (n : Node) (path : List ℕ) : Bool := (at? n path).isSome

/-- The leaf paths in traversal order. -/
def collectPanePaths (n : Node) : List (List ℕ) := (leavesAt n).map Prod.fst

def collectPaneIds (n : Node) : List ℕ := (leaves n).map Pane.id

def countPanes (n : Node) : ℕ := (leaves n).length

def collectLeaves (n : Node) : List Node := (leaves n).map .leaf

def firstLeafPath (n : Node) : List ℕ := (leavesAt n).head?.elim [] Prod.fst

def findPathById (n : Node) (id : ℕ) : Option (List ℕ) :=
  ((leavesAt n).find? fun l => l.2.id = id).map Prod.fst

def hasAnyExited (exited : List ℕ) (n : Node) : Bool :=
  (leaves n).any fun p => !p.dead && p.id ∈ exited

/-- The new leaf joins what is at the path in a split of its own; a path through a leaf
kills the new leaf. -/
def replaceLeafWithSplit (kind : LayoutKind) (newLeaf : Node) : Node → List ℕ → Except Panic Node
  | n, [] => .ok (.split ⟨kind, [50, 50]⟩ [n, newLeaf])
  | .leaf p, _ :: _ => .ok (.leaf p)
  | .split a children, i :: path =>
    match children[i]? with
    | none => .error .childIndex
    | some c => do
      let c ← replaceLeafWithSplit kind newLeaf c path
      .ok (.split a (children.set i c))

/-- The children that are left, one alone in place of the split. -/
def collapse (kind : LayoutKind) : List Node → Node
  | [c] => c
  | children => .split ⟨kind, equalSizes children.length⟩ children

/-- The tree without what is at the path. -/
def removeNode : Node → List ℕ → Except Panic Node
  | .leaf p, _ => .ok (.leaf p)
  | .split a children, [] => .ok (.split a children)
  | .split a children, [i] =>
    if children.eraseIdx i = [] then .error .divideByZero
    else .ok (collapse a.kind (children.eraseIdx i))
  | .split a children, i :: j :: path =>
    match children[i]? with
    | none => if children = [] then .error .divideByZero else .ok (collapse a.kind children)
    | some c => do
      let c ← removeNode c (j :: path)
      .ok (collapse a.kind (children.set i c))

/-- The tree without what is at the path, and what was there. -/
def extractNode : Node → List ℕ → Option Node × Option Node
  | root, [] => (none, some root)
  | .leaf p, _ :: _ => (some (.leaf p), none)
  | .split a children, i :: path =>
    match children[i]? with
    | none => (some (.split a children), none)
    | some c =>
      let (remaining, extracted) := extractNode c path
      let children :=
        match remaining with
        | some r => children.set i r
        | none => children.eraseIdx i
      (if children = [] then none else some (collapse a.kind children), extracted)

/-- Shares scaled to a sum of 100, the remainder in the last. -/
def scaleSizes (sizes : List ℕ) (total : ℕ) : List ℕ :=
  let scaled := sizes.map fun s => u16 (s * 100 / total)
  let rem := 100 - u16 scaled.sum
  scaled.dropLast ++ (scaled.getLast?.map fun s => u16 (s + rem)).toList

/-- The children that are left with their shares. -/
def regroup (kind : LayoutKind) : List (Node × ℕ) → Option Node
  | [] => none
  | [c] => some c.1
  | kept =>
    let sizes := kept.map Prod.snd
    let total := u16 sizes.sum
    let sizes :=
      if total = 0 then equalSizes kept.length
      else if total = 100 then sizes
      else scaleSizes sizes total
    some (.split ⟨kind, sizes⟩ (kept.map Prod.fst))

mutual

/-- The tree without the panes that exited, or with them marked. -/
def pruneExited (exited : List ℕ) (remainOnExit : Bool) : Node → Option Node
  | .leaf p =>
    if p.dead then some (.leaf p)
    else if p.id ∈ exited then
      if remainOnExit then some (.leaf { p with dead := true }) else none
    else some (.leaf p)
  | .split a children => regroup a.kind (pruneChildren exited remainOnExit children a.sizes)

def pruneChildren (exited : List ℕ) (remainOnExit : Bool) : List Node → List ℕ → List (Node × ℕ)
  | [], _ => []
  | c :: cs, sizes =>
    match pruneExited exited remainOnExit c with
    | some c => (c, sizes.headD 0) :: pruneChildren exited remainOnExit cs sizes.tail
    | none => pruneChildren exited remainOnExit cs sizes.tail

end

theorem activePaneMut_eq_some {n : Node} {path : List ℕ} {p : Pane} :
    activePaneMut n path = some p ↔ at? n path = some (.leaf p) := by
  rw [activePaneMut]
  split
  · next q hq => rw [hq]; simp
  · next h => exact iff_of_false (by simp) fun hp => h p hp

theorem getActivePaneId_of_leaf {n : Node} {path : List ℕ} {p : Pane}
    (h : at? n path = some (.leaf p)) : getActivePaneId n path = some p.id := by
  induction path generalizing n with
  | nil =>
    obtain rfl : n = .leaf p := by simpa using h
    rfl
  | cons i path ih =>
    cases n with
    | leaf q => simp at h
    | split a children =>
      obtain ⟨c, hc, hp⟩ := Option.bind_eq_some_iff.1 (by simpa using h)
      rw [getActivePaneId, hc]
      exact ih hp

theorem mem_collectPanePaths {n : Node} {path : List ℕ} :
    path ∈ collectPanePaths n ↔ ∃ p, at? n path = some (.leaf p) := by
  simp only [collectPanePaths, List.mem_map, Prod.exists, exists_and_right, exists_eq_right,
    mem_leavesAt]

theorem findPathById_eq_some {n : Node} {id : ℕ} {path : List ℕ} (h : findPathById n id = some path) :
    ∃ p, at? n path = some (.leaf p) ∧ p.id = id := by
  obtain ⟨⟨q, p⟩, hf, rfl⟩ := Option.map_eq_some_iff.1 h
  exact ⟨p, mem_leavesAt.1 (List.mem_of_find?_eq_some hf), by simpa using List.find?_some hf⟩

theorem findPathById_isSome {n : Node} {path : List ℕ} {p : Pane} (h : at? n path = some (.leaf p)) :
    (findPathById n p.id).isSome := by
  rw [findPathById, Option.isSome_map, List.find?_isSome]
  exact ⟨(path, p), mem_leavesAt.2 h, by simp⟩

theorem firstLeafPath_leaf {n : Node} (h : leaves n ≠ []) :
    ∃ p, at? n (firstLeafPath n) = some (.leaf p) := by
  cases hl : leavesAt n with
  | nil => simp [leaves, hl] at h
  | cons l ls =>
    refine ⟨l.2, ?_⟩
    rw [firstLeafPath, hl]
    exact mem_leavesAt.1 (by rw [hl]; exact List.mem_cons_self)

/-- Whether a path goes on below a leaf. -/
def throughLeaf : Node → List ℕ → Bool
  | _, [] => false
  | .leaf _, _ :: _ => true
  | .split _ children, i :: path =>
    match children[i]? with
    | some c => throughLeaf c path
    | none => false

theorem throughLeaf_of_at? {n u : Node} {path : List ℕ} (h : at? n path = some u) :
    throughLeaf n path = false := by
  induction path generalizing n with
  | nil => cases n <;> rfl
  | cons i path ih =>
    cases n with
    | leaf p => simp at h
    | split a children =>
      obtain ⟨c, hc, hp⟩ := Option.bind_eq_some_iff.1 (by simpa using h)
      rw [throughLeaf, hc]
      exact ih hp

/-- The three ends of a graft: lost, done, panicked. -/
theorem replaceLeafWithSplit_eq (kind : LayoutKind) (new n : Node) (path : List ℕ) :
    replaceLeafWithSplit kind new n path =
      if throughLeaf n path then .ok n
      else
        match at? n path with
        | some _ => .ok (modifyAt (fun u => .split ⟨kind, [50, 50]⟩ [u, new]) path n)
        | none => .error .childIndex := by
  induction path generalizing n with
  | nil => cases n <;> rfl
  | cons i path ih =>
    cases n with
    | leaf p => rfl
    | split a children =>
      cases hc : children[i]? with
      | none => simp only [replaceLeafWithSplit, throughLeaf, at?_split_cons, hc, Option.bind_none,
          Bool.false_eq_true, if_false]
      | some c =>
        rw [modifyAt_cons_split hc]
        simp only [replaceLeafWithSplit, throughLeaf, at?_split_cons, hc, Option.bind_some, ih c]
        obtain ⟨hi, rfl⟩ := List.getElem?_eq_some_iff.1 hc
        split
        · simp only [bind, Except.bind, List.set_getElem_self]
        · split <;> rfl

theorem replaceLeafWithSplit_eq_ok {kind : LayoutKind} {new n m : Node} {path : List ℕ}
    (h : replaceLeafWithSplit kind new n path = .ok m) :
    throughLeaf n path = true ∧ m = n ∨
      ∃ u, at? n path = some u ∧
        m = modifyAt (fun u => .split ⟨kind, [50, 50]⟩ [u, new]) path n := by
  rw [replaceLeafWithSplit_eq] at h
  split at h
  · next ht => exact .inl ⟨ht, (Except.ok.inj h).symm⟩
  · split at h
    · next u hu => exact .inr ⟨u, hu, (Except.ok.inj h).symm⟩
    · contradiction

theorem leaves_graft {kind : LayoutKind} {new n u : Node} {path : List ℕ} (h : at? n path = some u) :
    (leaves (modifyAt (fun u => .split ⟨kind, [50, 50]⟩ [u, new]) path n)).Perm
      (leaves new ++ leaves n) := by
  obtain ⟨pre, post, hn, hf⟩ := leaves_modifyAt h
  rw [hf, hn]
  simp only [leaves_split, List.flatMap_cons, List.flatMap_nil, List.append_nil]
  calc pre ++ (leaves u ++ leaves new) ++ post
      _ = (pre ++ leaves u) ++ (leaves new ++ post) := by simp only [List.append_assoc]
      _ |>.Perm (leaves new ++ (pre ++ leaves u ++ post)) := by
        rw [← List.append_assoc, ← List.append_assoc]
        exact List.perm_append_comm.append_right post

@[simp] theorem leaves_collapse (kind : LayoutKind) (children : List Node) :
    leaves (collapse kind children) = children.flatMap leaves := by
  rw [collapse.eq_def]
  split <;> simp

theorem flatMap_leaves_set {children : List Node} {i : ℕ} {c : Node} (h : children[i]? = some c)
    (d : Node) : ∃ pre post, children.flatMap leaves = pre ++ leaves c ++ post ∧
      (children.set i d).flatMap leaves = pre ++ leaves d ++ post ∧
      (children.eraseIdx i).flatMap leaves = pre ++ post := by
  obtain ⟨left, right, rfl, rfl⟩ := exists_append_of_getElem? h
  exact ⟨left.flatMap leaves, right.flatMap leaves, by simp, by simp,
    by simp [List.eraseIdx_append_of_length_le]⟩

/-- A removal below a split: the child is gone, astray or edited in its place. -/
theorem removeNode_eq_ok {a : Split} {children : List Node} {i : ℕ} {path : List ℕ} {m : Node}
    (h : removeNode (.split a children) (i :: path) = .ok m) :
    ∃ left, m = collapse a.kind left ∧ left ≠ [] ∧
      (path = [] ∧ left = children.eraseIdx i ∨
        path ≠ [] ∧ children[i]? = none ∧ left = children ∨
        ∃ c d, path ≠ [] ∧ children[i]? = some c ∧ removeNode c path = .ok d ∧
          left = children.set i d) := by
  cases path with
  | nil =>
    rw [removeNode] at h
    split at h
    · contradiction
    · next hne => exact ⟨_, (Except.ok.inj h).symm, hne, .inl ⟨rfl, rfl⟩⟩
  | cons j path =>
    rw [removeNode] at h
    split at h
    · next hc =>
      split at h
      · contradiction
      · next hne =>
        exact ⟨_, (Except.ok.inj h).symm, hne, .inr (.inl ⟨List.cons_ne_nil j path, hc, rfl⟩)⟩
    · next c hc =>
      simp only [bind, Except.bind] at h
      split at h
      · contradiction
      · next d hd =>
        have hne : children.set i d ≠ [] := by
          rw [ne_eq, List.set_eq_nil_iff]
          rintro rfl
          simp at hc
        exact ⟨_, (Except.ok.inj h).symm, hne,
          .inr (.inr ⟨c, d, List.cons_ne_nil j path, hc, hd, rfl⟩)⟩

theorem removeNode_leaf (p : Pane) (path : List ℕ) :
    removeNode (.leaf p) path = .ok (.leaf p) := by
  rw [removeNode]

theorem leaves_removeNode {n m : Node} {path : List ℕ} (h : removeNode n path = .ok m) :
    (leaves m).Sublist (leaves n) := by
  induction path generalizing n m with
  | nil =>
    cases n with
    | leaf p =>
      rw [removeNode_leaf] at h
      rw [Except.ok.inj h]
    | split a children => rw [← Except.ok.inj h]
  | cons i path ih =>
    cases n with
    | leaf p =>
      rw [removeNode_leaf] at h
      rw [Except.ok.inj h]
    | split a children =>
      obtain ⟨left, rfl, -, hleft⟩ := removeNode_eq_ok h
      rw [leaves_collapse, leaves_split]
      obtain ⟨-, rfl⟩ | ⟨-, -, rfl⟩ | ⟨c, d, -, hc, hd, rfl⟩ := hleft
      · exact (List.eraseIdx_sublist ..).flatMap _
      · exact List.Sublist.refl _
      · obtain ⟨pre, post, h1, h2, -⟩ := flatMap_leaves_set hc d
        rw [h1, h2]
        exact ((ih hd).append_left pre).append_right post

/-- The leaves of a tree that may be gone. -/
def leavesOf (n : Option Node) : List Pane := n.elim [] leaves

theorem extractNode_snd (n : Node) (path : List ℕ) : (extractNode n path).2 = at? n path := by
  induction path generalizing n with
  | nil => cases n <;> rfl
  | cons i path ih =>
    cases n with
    | leaf p => rfl
    | split a children =>
      rw [at?_split_cons]
      cases hc : children[i]? with
      | none => simp only [extractNode, hc, Option.bind_none]
      | some c => simp only [extractNode, hc, Option.bind_some, ih c]

theorem leaves_extractNode (n : Node) (path : List ℕ) :
    (leaves n).Perm (leavesOf (extractNode n path).1 ++ leavesOf (extractNode n path).2) := by
  induction path generalizing n with
  | nil => cases n <;> simp [extractNode, leavesOf]
  | cons i path ih =>
    cases n with
    | leaf p => simp [extractNode, leavesOf]
    | split a children =>
      cases hc : children[i]? with
      | none => simp only [extractNode, hc, leavesOf, Option.elim, List.append_nil, List.Perm.refl]
      | some c =>
        have hleft : ∀ cs : List Node, leavesOf (if cs = [] then none else some (collapse a.kind cs)) =
            cs.flatMap leaves := by
          intro cs
          by_cases h : cs = []
          · simp [h, leavesOf]
          · simp [h, leavesOf]
        have hcs := ih c
        simp only [extractNode, hc, leaves_split, hleft]
        cases hr : (extractNode c path).1 with
        | none =>
          rw [hr] at hcs
          obtain ⟨pre, post, h1, -, h3⟩ := flatMap_leaves_set hc c
          simp only [h1, h3]
          calc pre ++ leaves c ++ post
              _ |>.Perm (pre ++ leavesOf (extractNode c path).2 ++ post) := by
                simpa [leavesOf] using (hcs.append_left pre).append_right post
              _ |>.Perm (pre ++ post ++ leavesOf (extractNode c path).2) := by
                simpa using List.perm_append_comm.append_left pre
        | some r =>
          rw [hr] at hcs
          obtain ⟨pre, post, h1, h2, -⟩ := flatMap_leaves_set hc r
          simp only [h1, h2]
          calc pre ++ leaves c ++ post
              _ |>.Perm (pre ++ (leaves r ++ leavesOf (extractNode c path).2) ++ post) := by
                simpa [leavesOf] using (hcs.append_left pre).append_right post
              _ |>.Perm (pre ++ leaves r ++ post ++ leavesOf (extractNode c path).2) := by
                simpa using List.perm_append_comm.append_left (pre ++ leaves r)

theorem leavesOf_regroup (kind : LayoutKind) (kept : List (Node × ℕ)) :
    leavesOf (regroup kind kept) = (kept.map Prod.fst).flatMap leaves := by
  rw [regroup.eq_def]
  split
  · rfl
  · simp [leavesOf]
  · simp [leavesOf]

end Winsmux.Layout
