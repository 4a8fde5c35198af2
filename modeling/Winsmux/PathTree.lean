import Mathlib.Tactic

/-!
# Trees addressed by paths

Trees whose inner nodes carry a label and an ordered list of children, whose
leaves carry a value, and whose nodes are named by paths: lists of child indices
from the root. The children may be any list, the empty one included, so a tree
need not have a leaf.
-/
namespace Winsmux

inductive PathTree (α β : Type*) where
  | leaf (b : β)
  | split (a : α) (children : List (PathTree α β))

namespace PathTree
variable {α β : Type*}

/-- Induction on trees: a split from its children. -/
theorem tree_induction {motive : PathTree α β → Prop} (leaf : ∀ b, motive (.leaf b))
    (split : ∀ a children, (∀ c ∈ children, motive c) → motive (.split a children)) : ∀ t, motive t
  | .leaf b => leaf b
  | .split a children => split a children fun c _ => tree_induction leaf split c

theorem exists_append_of_getElem? {γ : Type*} {l : List γ} {i : ℕ} {c : γ} (h : l[i]? = some c) :
    ∃ pre post, l = pre ++ c :: post ∧ pre.length = i := by
  obtain ⟨hi, hc⟩ := List.getElem?_eq_some_iff.1 h
  refine ⟨l.take i, l.drop (i + 1), ?_, by simp [hi.le]⟩
  rw [← hc, List.cons_getElem_drop_succ, List.take_append_drop]

/-- The subtree at a path. -/
def at? : PathTree α β → List ℕ → Option (PathTree α β)
  | t, [] => some t
  | .leaf _, _ :: _ => none
  | .split _ children, i :: p => children[i]?.bind fun c => at? c p

@[simp] theorem at?_nil (t : PathTree α β) : at? t [] = some t := by
  cases t <;> rfl

@[simp] theorem at?_leaf_cons (b : β) (i : ℕ) (p : List ℕ) :
    at? (.leaf b : PathTree α β) (i :: p) = none := rfl

@[simp] theorem at?_split_cons (a : α) (children : List (PathTree α β)) (i : ℕ) (p : List ℕ) :
    at? (.split a children) (i :: p) = children[i]?.bind fun c => at? c p := rfl

mutual

/-- The leaves from left to right, each with its path. -/
def leavesAt : PathTree α β → List (List ℕ × β)
  | .leaf b => [([], b)]
  | .split _ children => leavesFrom 0 children

/-- The leaves of the children, the first of which is child `i`. -/
def leavesFrom (i : ℕ) : List (PathTree α β) → List (List ℕ × β)
  | [] => []
  | c :: cs => (leavesAt c).map (fun l => (i :: l.1, l.2)) ++ leavesFrom (i + 1) cs

end

def leaves (t : PathTree α β) : List β := (leavesAt t).map Prod.snd

theorem map_snd_leavesFrom (i : ℕ) (cs : List (PathTree α β)) :
    (leavesFrom i cs).map Prod.snd = cs.flatMap leaves := by
  induction cs generalizing i with
  | nil => rfl
  | cons c cs ih =>
    rw [leavesFrom, List.map_append, ih, List.flatMap_cons, List.map_map]
    rfl

@[simp] theorem leaves_leaf (b : β) : leaves (.leaf b : PathTree α β) = [b] := rfl

@[simp] theorem leaves_split (a : α) (children : List (PathTree α β)) :
    leaves (.split a children) = children.flatMap leaves := map_snd_leavesFrom 0 children

theorem mem_leavesFrom {i : ℕ} {cs : List (PathTree α β)} {p : List ℕ} {b : β} :
    (p, b) ∈ leavesFrom i cs ↔
      ∃ j c q, cs[j]? = some c ∧ p = (i + j) :: q ∧ (q, b) ∈ leavesAt c := by
  induction cs generalizing i with
  | nil => simp [leavesFrom]
  | cons c cs ih =>
    rw [leavesFrom, List.mem_append, List.mem_map, ih]
    constructor
    · rintro (⟨l, hl, he⟩ | ⟨j, d, q, hd, hp, hq⟩)
      · obtain ⟨rfl, rfl⟩ := Prod.mk.inj he
        exact ⟨0, c, l.1, rfl, rfl, hl⟩
      · exact ⟨j + 1, d, q, by simpa using hd, by rw [hp, Nat.add_right_comm, Nat.add_assoc], hq⟩
    · rintro ⟨j, d, q, hd, hp, hq⟩
      cases j with
      | zero =>
        obtain rfl : c = d := by simpa using hd
        exact .inl ⟨(q, b), hq, by rw [hp, Nat.add_zero]⟩
      | succ j =>
        exact .inr ⟨j, d, q, by simpa using hd, by rw [hp, Nat.add_right_comm, Nat.add_assoc], hq⟩

/-- The leaves listed are the ones that the paths lead to. -/
theorem mem_leavesAt {t : PathTree α β} {p : List ℕ} {b : β} :
    (p, b) ∈ leavesAt t ↔ at? t p = some (.leaf b) := by
  induction p generalizing t with
  | nil =>
    cases t with
    | leaf c => simp [leavesAt, eq_comm]
    | split a children => simp [leavesAt, mem_leavesFrom]
  | cons i p ih =>
    cases t with
    | leaf c => simp [leavesAt]
    | split a children =>
      rw [leavesAt, mem_leavesFrom, at?_split_cons]
      constructor
      · rintro ⟨j, c, q, hc, hp, hq⟩
        obtain ⟨hi, rfl⟩ := List.cons.inj hp
        rw [Nat.zero_add] at hi
        rw [hi, hc]
        exact ih.1 hq
      · intro h
        obtain ⟨c, hc, hp⟩ := Option.bind_eq_some_iff.1 h
        exact ⟨i, c, p, hc, by rw [Nat.zero_add], ih.2 hp⟩

theorem mem_leaves {t : PathTree α β} {b : β} : b ∈ leaves t ↔ ∃ p, at? t p = some (.leaf b) := by
  simp only [leaves, List.mem_map, Prod.exists, exists_eq_right, mem_leavesAt]

theorem nodup_paths_from {cs : List (PathTree α β)}
    (h : ∀ c ∈ cs, ((leavesAt c).map Prod.fst).Nodup) (i : ℕ) :
    ((leavesFrom i cs).map Prod.fst).Nodup := by
  induction cs generalizing i with
  | nil => exact List.nodup_nil
  | cons c cs ih =>
    obtain ⟨hc, hcs⟩ := List.forall_mem_cons.1 h
    rw [leavesFrom, List.map_append, List.map_map]
    refine List.nodup_append.2 ⟨?_, ih hcs (i + 1), ?_⟩
    · have hcons := hc.map (f := fun p => i :: p) fun p q hpq => (List.cons.inj hpq).2
      rwa [List.map_map] at hcons
    · intro p hp q hq hpq
      obtain ⟨l, -, rfl⟩ := List.mem_map.1 hp
      obtain ⟨⟨q', b⟩, hl, rfl⟩ := List.mem_map.1 hq
      obtain ⟨j, d, r, -, hj, -⟩ := mem_leavesFrom.1 hl
      rw [hj] at hpq
      obtain ⟨hi, -⟩ := List.cons.inj hpq
      omega

/-- No path leads to two leaves. -/
theorem nodup_paths (t : PathTree α β) : ((leavesAt t).map Prod.fst).Nodup := by
  induction t using tree_induction with
  | leaf b => simp [leavesAt]
  | split a children ih => exact nodup_paths_from ih 0

/-- Where the values are distinct, a leaf has one path. -/
theorem path_unique {γ : Type*} {f : β → γ} {t : PathTree α β} (hn : ((leaves t).map f).Nodup)
    {p q : List ℕ} {b c : β} (hp : at? t p = some (.leaf b)) (hq : at? t q = some (.leaf c))
    (hbc : f b = f c) : p = q := by
  rw [leaves, List.map_map] at hn
  exact congrArg Prod.fst (List.inj_on_of_nodup_map hn (mem_leavesAt.2 hp) (mem_leavesAt.2 hq) hbc)

/-- `f` applied to the subtree at a path; a path that leads nowhere changes nothing. -/
def modifyAt (f : PathTree α β → PathTree α β) : List ℕ → PathTree α β → PathTree α β
  | [], t => f t
  | _ :: _, .leaf b => .leaf b
  | i :: p, .split a children =>
    match children[i]? with
    | none => .split a children
    | some c => .split a (children.set i (modifyAt f p c))

@[simp] theorem modifyAt_nil (f : PathTree α β → PathTree α β) (t : PathTree α β) :
    modifyAt f [] t = f t := by
  cases t <;> rfl

@[simp] theorem modifyAt_cons_leaf (f : PathTree α β → PathTree α β) (i : ℕ) (p : List ℕ) (b : β) :
    modifyAt f (i :: p) (.leaf b) = .leaf b := rfl

theorem modifyAt_cons_split {f : PathTree α β → PathTree α β} {i : ℕ} {p : List ℕ} {a : α}
    {children : List (PathTree α β)} {c : PathTree α β} (h : children[i]? = some c) :
    modifyAt f (i :: p) (.split a children) = .split a (children.set i (modifyAt f p c)) := by
  simp only [modifyAt, h]

theorem modifyAt_of_at?_eq_none {f : PathTree α β → PathTree α β} {t : PathTree α β} {p : List ℕ}
    (h : at? t p = none) : modifyAt f p t = t := by
  induction p generalizing t with
  | nil => simp at h
  | cons i p ih =>
    cases t with
    | leaf b => rfl
    | split a children =>
      cases hc : children[i]? with
      | none => simp only [modifyAt, hc]
      | some c =>
        rw [at?_split_cons, hc] at h
        rw [modifyAt_cons_split hc, ih h]
        obtain ⟨hi, rfl⟩ := List.getElem?_eq_some_iff.1 hc
        rw [List.set_getElem_self]

theorem at?_modifyAt {f : PathTree α β → PathTree α β} {t u : PathTree α β} {p : List ℕ}
    (h : at? t p = some u) (q : List ℕ) : at? (modifyAt f p t) (p ++ q) = at? (f u) q := by
  induction p generalizing t with
  | nil =>
    rw [at?_nil] at h
    rw [modifyAt_nil, List.nil_append, Option.some.inj h]
  | cons i p ih =>
    cases t with
    | leaf b => simp at h
    | split a children =>
      obtain ⟨c, hc, hp⟩ := Option.bind_eq_some_iff.1 (by simpa using h)
      rw [modifyAt_cons_split hc, List.cons_append, at?_split_cons,
        List.getElem?_set_self (List.getElem?_eq_some_iff.1 hc).1]
      exact ih hp

/-- An edit splits the row of leaves: what stands left and right of it stays. -/
theorem leaves_modifyAt {t u : PathTree α β} {p : List ℕ} (h : at? t p = some u) :
    ∃ pre post, leaves t = pre ++ leaves u ++ post ∧
      ∀ f, leaves (modifyAt f p t) = pre ++ leaves (f u) ++ post := by
  induction p generalizing t with
  | nil =>
    obtain rfl : t = u := by simpa using h
    exact ⟨[], [], by simp, fun f => by simp⟩
  | cons i p ih =>
    cases t with
    | leaf b => simp at h
    | split a children =>
      obtain ⟨c, hc, hp⟩ := Option.bind_eq_some_iff.1 (by simpa using h)
      obtain ⟨pre, post, hcpre, hf⟩ := ih hp
      obtain ⟨left, right, rfl, rfl⟩ := exists_append_of_getElem? hc
      refine ⟨left.flatMap leaves ++ pre, post ++ right.flatMap leaves, ?_, fun f => ?_⟩
      · simp [hcpre]
      · rw [modifyAt_cons_split hc]
        simp [hf]

/-- `g` applied to the label at a path. -/
def relabelAt (g : α → α) : List ℕ → PathTree α β → PathTree α β :=
  modifyAt fun
    | .leaf b => .leaf b
    | .split a children => .split (g a) children

mutual

/-- The tree without its labels. -/
def shape : PathTree α β → PathTree Unit β
  | .leaf b => .leaf b
  | .split _ children => .split () (shapes children)

def shapes : List (PathTree α β) → List (PathTree Unit β)
  | [] => []
  | c :: cs => shape c :: shapes cs

end

theorem shapes_eq (cs : List (PathTree α β)) : shapes cs = cs.map shape := by
  induction cs with
  | nil => rfl
  | cons c cs ih => rw [shapes, ih, List.map_cons]

@[simp] theorem shape_leaf (b : β) : shape (.leaf b : PathTree α β) = .leaf b := rfl

@[simp] theorem shape_split (a : α) (children : List (PathTree α β)) :
    shape (.split a children) = .split () (children.map shape) := by
  rw [shape, shapes_eq]

theorem at?_shape (t : PathTree α β) (p : List ℕ) : at? (shape t) p = (at? t p).map shape := by
  induction p generalizing t with
  | nil => simp
  | cons i p ih =>
    cases t with
    | leaf b => rfl
    | split a children =>
      rw [shape_split, at?_split_cons, at?_split_cons, List.getElem?_map]
      cases children[i]? with
      | none => rfl
      | some c => exact ih c

theorem leavesFrom_shape {cs : List (PathTree α β)}
    (h : ∀ c ∈ cs, leavesAt (shape c) = leavesAt c) (i : ℕ) :
    leavesFrom i (cs.map shape) = leavesFrom i cs := by
  induction cs generalizing i with
  | nil => rfl
  | cons c cs ih =>
    rw [List.map_cons, leavesFrom, leavesFrom, h c List.mem_cons_self,
      ih fun d hd => h d (List.mem_cons_of_mem c hd)]

@[simp] theorem leavesAt_shape (t : PathTree α β) : leavesAt (shape t) = leavesAt t := by
  induction t using tree_induction with
  | leaf b => rfl
  | split a children ih => rw [shape_split, leavesAt, leavesAt, leavesFrom_shape ih]

/-- Trees of one shape have the same leaves at the same paths. -/
theorem leavesAt_eq_of_shape {t u : PathTree α β} (h : shape t = shape u) :
    leavesAt t = leavesAt u := by
  rw [← leavesAt_shape t, h, leavesAt_shape]

theorem leaves_eq_of_shape {t u : PathTree α β} (h : shape t = shape u) : leaves t = leaves u := by
  rw [leaves, leaves, leavesAt_eq_of_shape h]

theorem at?_leaf_iff_of_shape {t u : PathTree α β} (h : shape t = shape u) {p : List ℕ} {b : β} :
    at? t p = some (.leaf b) ↔ at? u p = some (.leaf b) := by
  rw [← mem_leavesAt, ← mem_leavesAt, leavesAt_eq_of_shape h]

@[simp] theorem shape_relabelAt (g : α → α) (p : List ℕ) (t : PathTree α β) :
    shape (relabelAt g p t) = shape t := by
  induction p generalizing t with
  | nil => cases t <;> simp [relabelAt]
  | cons i p ih =>
    cases t with
    | leaf b => rfl
    | split a children =>
      cases hc : children[i]? with
      | none => simp only [relabelAt, modifyAt, hc]
      | some c =>
        obtain ⟨left, right, rfl, rfl⟩ := exists_append_of_getElem? hc
        have hs := ih c
        rw [relabelAt] at hs ⊢
        rw [modifyAt_cons_split hc]
        simp [hs]

/-- The label of the split that a path leads to. -/
def labelAt (t : PathTree α β) (p : List ℕ) : Option α :=
  match at? t p with
  | some (.split a _) => some a
  | _ => none

theorem labelAt_eq_some {t : PathTree α β} {p : List ℕ} {a : α} :
    labelAt t p = some a ↔ ∃ children, at? t p = some (.split a children) := by
  rw [labelAt]
  split
  · next b children h => rw [h]; simp
  · next h => exact iff_of_false (by simp) fun ⟨children, hp⟩ => h a children hp

@[simp] theorem labelAt_leaf (b : β) (p : List ℕ) : labelAt (.leaf b : PathTree α β) p = none := by
  cases p <;> rfl

@[simp] theorem labelAt_split_nil (a : α) (children : List (PathTree α β)) :
    labelAt (.split a children) [] = some a := rfl

@[simp] theorem labelAt_split_cons (a : α) (children : List (PathTree α β)) (i : ℕ) (p : List ℕ) :
    labelAt (.split a children) (i :: p) = children[i]?.bind fun c => labelAt c p := by
  rw [labelAt, at?_split_cons]
  cases children[i]? with
  | none => rfl
  | some c => rfl

/-- A relabelling is seen at its path and nowhere else. -/
theorem labelAt_relabelAt (g : α → α) (p q : List ℕ) (t : PathTree α β) :
    labelAt (relabelAt g p t) q = if q = p then (labelAt t p).map g else labelAt t q := by
  induction p generalizing t q with
  | nil =>
    cases t with
    | leaf b => simp [relabelAt]
    | split a children => cases q <;> simp [relabelAt]
  | cons i p ih =>
    cases t with
    | leaf b => simp [relabelAt]
    | split a children =>
      rw [relabelAt]
      cases hc : children[i]? with
      | none =>
        have ht : at? (.split a children) (i :: p) = none := by rw [at?_split_cons, hc]; rfl
        rw [modifyAt_of_at?_eq_none ht, labelAt_split_cons, hc, Option.bind_none, Option.map_none]
        split
        · next h => rw [h, labelAt_split_cons, hc, Option.bind_none]
        · rfl
      | some c =>
        rw [modifyAt_cons_split hc]
        cases q with
        | nil => simp
        | cons j q =>
          rw [labelAt_split_cons, labelAt_split_cons, labelAt_split_cons, hc, Option.bind_some]
          by_cases hj : i = j
          · subst hj
            rw [List.getElem?_set_self (List.getElem?_eq_some_iff.1 hc).1, Option.bind_some, hc,
              Option.bind_some, ← relabelAt, ih]
            simp
          · rw [List.getElem?_set_ne hj, if_neg (fun h => hj (List.cons.inj h).1.symm)]

/-- A relabelling that finds its label in place changes nothing. -/
theorem relabelAt_of_eq {g : α → α} {p : List ℕ} {t : PathTree α β}
    (h : ∀ a, labelAt t p = some a → g a = a) : relabelAt g p t = t := by
  induction p generalizing t with
  | nil =>
    cases t with
    | leaf b => rfl
    | split a children => simp [relabelAt, h a rfl]
  | cons i p ih =>
    cases t with
    | leaf b => rfl
    | split a children =>
      rw [relabelAt]
      cases hc : children[i]? with
      | none => exact modifyAt_of_at?_eq_none (by rw [at?_split_cons, hc]; rfl)
      | some c =>
        have hkept : modifyAt _ p c = c := ih fun a' ha' => h a' (by rw [labelAt_split_cons, hc]; exact ha')
        rw [modifyAt_cons_split hc, hkept]
        obtain ⟨hi, rfl⟩ := List.getElem?_eq_some_iff.1 hc
        rw [List.set_getElem_self]

section map
variable {γ δ : Type*}

mutual

/-- The tree with other labels and other values at its leaves. -/
def map (f : α → γ) (g : β → δ) : PathTree α β → PathTree γ δ
  | .leaf b => .leaf (g b)
  | .split a children => .split (f a) (maps f g children)

def maps (f : α → γ) (g : β → δ) : List (PathTree α β) → List (PathTree γ δ)
  | [] => []
  | c :: cs => map f g c :: maps f g cs

end

variable (f : α → γ) (g : β → δ)

theorem maps_eq (cs : List (PathTree α β)) : maps f g cs = cs.map (map f g) := by
  induction cs with
  | nil => rfl
  | cons c cs ih => rw [maps, ih, List.map_cons]

@[simp] theorem map_leaf (b : β) : map f g (.leaf b) = .leaf (g b) := rfl

@[simp] theorem map_split (a : α) (children : List (PathTree α β)) :
    map f g (.split a children) = .split (f a) (children.map (map f g)) := by
  rw [map, maps_eq]

theorem leaves_map (t : PathTree α β) : leaves (map f g t) = (leaves t).map g := by
  induction t using tree_induction with
  | leaf b => rfl
  | split a children ih =>
    rw [map_split, leaves_split, leaves_split, List.flatMap_map, List.map_flatMap]
    exact List.flatMap_congr ih

end map

mutual

/-- Every split has a child. -/
def full : PathTree α β → Bool
  | .leaf _ => true
  | .split _ children => !children.isEmpty && allFull children

def allFull : List (PathTree α β) → Bool
  | [] => true
  | c :: cs => full c && allFull cs

end

theorem allFull_iff {cs : List (PathTree α β)} : allFull cs = true ↔ ∀ c ∈ cs, full c = true := by
  induction cs with
  | nil => simp [allFull]
  | cons c cs ih => rw [allFull, Bool.and_eq_true, ih, List.forall_mem_cons]

theorem full_split {a : α} {children : List (PathTree α β)} :
    full (.split a children) = true ↔ children ≠ [] ∧ ∀ c ∈ children, full c = true := by
  rw [full, Bool.and_eq_true, allFull_iff, Bool.not_eq_true', List.isEmpty_eq_false_iff]

theorem full_shape (t : PathTree α β) : full (shape t) = true ↔ full t = true := by
  induction t using tree_induction with
  | leaf b => rfl
  | split a children ih =>
    rw [shape_split, full_split, full_split, List.forall_mem_map, ne_eq, List.map_eq_nil_iff]
    exact and_congr_right fun _ => forall₂_congr fun c hc => ih c hc

theorem leaves_ne_nil_of_full {t : PathTree α β} (h : full t = true) : leaves t ≠ [] := by
  induction t using tree_induction with
  | leaf b => simp
  | split a children ih =>
    obtain ⟨hne, hall⟩ := full_split.1 h
    obtain ⟨c, cs, rfl⟩ := List.exists_cons_of_ne_nil hne
    have hc := ih c List.mem_cons_self (hall c List.mem_cons_self)
    rw [leaves_split, List.flatMap_cons]
    exact fun he => hc (List.append_eq_nil_iff.1 he).1

/-- How many children the split at a path has. -/
def arity (t : PathTree α β) (p : List ℕ) : Option ℕ :=
  match at? t p with
  | some (.split _ children) => some children.length
  | _ => none

theorem arity_of_at? {t : PathTree α β} {p : List ℕ} {a : α} {children : List (PathTree α β)}
    (h : at? t p = some (.split a children)) : arity t p = some children.length := by
  rw [arity, h]

theorem arity_shape (t : PathTree α β) (p : List ℕ) : arity (shape t) p = arity t p := by
  rw [arity, arity, at?_shape]
  cases at? t p with
  | none => rfl
  | some u =>
    cases u with
    | leaf b => rfl
    | split a children => simp

theorem arity_eq_of_shape {t u : PathTree α β} (h : shape t = shape u) (p : List ℕ) :
    arity t p = arity u p := by
  rw [← arity_shape t, h, arity_shape]

section AllSplits
variable {P : α → ℕ → Prop}

mutual

/-- `P` holds of the label and the number of children of every split. -/
def AllSplits (P : α → ℕ → Prop) : PathTree α β → Prop
  | .leaf _ => True
  | .split a children => P a children.length ∧ AllSplitsIn P children

def AllSplitsIn (P : α → ℕ → Prop) : List (PathTree α β) → Prop
  | [] => True
  | c :: cs => AllSplits P c ∧ AllSplitsIn P cs

end

theorem allSplitsIn_iff {cs : List (PathTree α β)} : AllSplitsIn P cs ↔ ∀ c ∈ cs, AllSplits P c := by
  induction cs with
  | nil => simp [AllSplitsIn]
  | cons c cs ih => rw [AllSplitsIn, ih, List.forall_mem_cons]

@[simp] theorem allSplits_leaf (b : β) : AllSplits P (.leaf b : PathTree α β) := trivial

theorem allSplits_split {a : α} {children : List (PathTree α β)} :
    AllSplits P (.split a children) ↔ P a children.length ∧ ∀ c ∈ children, AllSplits P c := by
  rw [AllSplits, allSplitsIn_iff]

theorem AllSplits.at? {t u : PathTree α β} {p : List ℕ} (h : AllSplits P t)
    (hu : at? t p = some u) : AllSplits P u := by
  induction p generalizing t with
  | nil =>
    obtain rfl : t = u := by simpa using hu
    exact h
  | cons i p ih =>
    cases t with
    | leaf b => simp at hu
    | split a children =>
      obtain ⟨c, hc, hp⟩ := Option.bind_eq_some_iff.1 hu
      exact ih ((allSplits_split.1 h).2 c (List.mem_of_getElem? hc)) hp

/-- The splits of a tree are those that the paths lead to. -/
theorem allSplits_iff {t : PathTree α β} :
    AllSplits P t ↔ ∀ p a children, PathTree.at? t p = some (.split a children) → P a children.length := by
  constructor
  · intro h p a children hp
    exact (allSplits_split.1 (h.at? hp)).1
  · intro h
    induction t using tree_induction with
    | leaf b => trivial
    | split a children ih =>
      refine allSplits_split.2 ⟨h [] a children (at?_nil _), fun c hc => ih c hc fun p b cs hp => ?_⟩
      obtain ⟨i, hi⟩ := List.getElem?_of_mem hc
      exact h (i :: p) b cs (by rw [at?_split_cons, hi]; exact hp)

theorem AllSplits.modifyAt {f : PathTree α β → PathTree α β} {t : PathTree α β} {p : List ℕ}
    (h : AllSplits P t) (hf : ∀ u, PathTree.at? t p = some u → AllSplits P u → AllSplits P (f u)) :
    AllSplits P (modifyAt f p t) := by
  induction p generalizing t with
  | nil =>
    rw [modifyAt_nil]
    exact hf t (at?_nil t) h
  | cons i p ih =>
    cases t with
    | leaf b => exact h
    | split a children =>
      obtain ⟨ha, hall⟩ := allSplits_split.1 h
      cases hc : children[i]? with
      | none => simp only [PathTree.modifyAt, hc, h]
      | some c =>
        rw [modifyAt_cons_split hc]
        have hedit : AllSplits P (PathTree.modifyAt f p c) := by
          refine ih (hall c (List.mem_of_getElem? hc)) fun u hu hPu => hf u ?_ hPu
          rw [at?_split_cons, hc]
          exact hu
        refine allSplits_split.2 ⟨by rwa [List.length_set], fun d hd => ?_⟩
        obtain hd | rfl := List.mem_or_eq_of_mem_set hd
        · exact hall d hd
        · exact hedit

theorem AllSplits.relabelAt {g : α → α} {t : PathTree α β} {p : List ℕ} (h : AllSplits P t)
    (hg : ∀ a k, arity t p = some k → P a k → P (g a) k) : AllSplits P (relabelAt g p t) := by
  refine h.modifyAt fun u hu hPu => ?_
  cases u with
  | leaf b => trivial
  | split a children =>
    obtain ⟨ha, hall⟩ := allSplits_split.1 hPu
    exact allSplits_split.2 ⟨hg a _ (arity_of_at? hu) ha, hall⟩

end AllSplits

end PathTree
end Winsmux
