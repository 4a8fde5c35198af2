import Mathlib.Data.List.Induction

/-!
# Hash chains

A chain starts from a seed and links one entry after another. Where the link is
injective on the pairs that two chains link, and never gives the seed, equal ends
mean equal entries, in chains of any two lengths.
-/
namespace Winsmux.HashChain
variable {δ ε : Type*} (link : δ → ε → δ)

/-- The end of the chain that starts at `seed`. -/
def root (seed : δ) (entries : List ε) : δ := entries.foldl link seed

/-- The pairs that the chain links. -/
def links (seed : δ) : List ε → List (δ × ε)
  | [] => []
  | e :: es => (seed, e) :: links (link seed e) es

/-- The link has no collision among `pairs`. -/
def InjectiveOn (pairs : List (δ × ε)) : Prop :=
  ∀ p ∈ pairs, ∀ q ∈ pairs, link p.1 p.2 = link q.1 q.2 → p = q

variable {link} {seed : δ} {xs ys : List ε} {x : ε}

@[simp] theorem root_nil : root link seed [] = seed := rfl

@[simp] theorem root_cons : root link seed (x :: xs) = root link (link seed x) xs := rfl

theorem root_append : root link seed (xs ++ ys) = root link (root link seed xs) ys :=
  List.foldl_append

theorem links_append :
    links link seed (xs ++ ys) = links link seed xs ++ links link (root link seed xs) ys := by
  induction xs generalizing seed with
  | nil => rfl
  | cons x xs ih => simp [links, ih]

theorem InjectiveOn.mono {ps qs : List (δ × ε)} (h : InjectiveOn link qs) (hs : ps ⊆ qs) :
    InjectiveOn link ps := fun p hp q hq => h p (hs hp) q (hs hq)

/-- The end of a chain determines its entries. -/
theorem root_injective (hinj : InjectiveOn link (links link seed xs ++ links link seed ys))
    (hseed : ∀ p ∈ links link seed xs ++ links link seed ys, link p.1 p.2 ≠ seed)
    (h : root link seed xs = root link seed ys) : xs = ys := by
  induction xs using List.reverseRecOn generalizing ys with
  | nil =>
    cases ys using List.reverseRecOn with
    | nil => rfl
    | append_singleton ys y =>
      refine absurd ?_ (hseed (root link seed ys, y) (by simp [links_append, links]))
      simpa [root_append] using h.symm
  | append_singleton xs x ih =>
    cases ys using List.reverseRecOn with
    | nil =>
      refine absurd ?_ (hseed (root link seed xs, x) (by simp [links_append, links]))
      simpa [root_append] using h
    | append_singleton ys y =>
      simp only [root_append, root_cons, root_nil] at h
      have heq : (root link seed xs, x) = (root link seed ys, y) :=
        hinj _ (by simp [links_append, links]) _ (by simp [links_append, links]) h
      obtain ⟨hroot, rfl⟩ := Prod.mk.inj heq
      have hsub : links link seed xs ++ links link seed ys ⊆
          links link seed (xs ++ [x]) ++ links link seed (ys ++ [x]) := by
        rw [links_append, links_append]
        intro p hp
        simp only [List.mem_append] at hp ⊢
        tauto
      rw [ih (hinj.mono hsub) (fun p hp => hseed p (hsub hp)) hroot]

end Winsmux.HashChain
