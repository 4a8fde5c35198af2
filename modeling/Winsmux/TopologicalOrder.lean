import Mathlib.Order.WellFoundedSet
import Mathlib.Tactic

/-!
# The least topological order

Elements that need others to come first, `r d v` for `v` needs `d`. Taking the least element whose needs
are met, again and again, gives the lexicographically least list in which every element comes behind what
it needs, and every element is taken exactly when no element needs itself in the end.
-/
namespace Winsmux.TopologicalOrder
open Relation

variable {α : Type*} {r : α → α → Prop} {V : Set α} {l : List α}

/-- An element that may come next. -/
structure Ready (r : α → α → Prop) (V : Set α) (done : List α) (v : α) : Prop where
  mem : v ∈ V
  new : v ∉ done
  met : ∀ d, r d v → d ∈ done

/-- All elements, each once and behind what it needs. -/
structure Schedule (r : α → α → Prop) (V : Set α) (l : List α) : Prop where
  nodup : l.Nodup
  mem_iff : ∀ v, v ∈ l ↔ v ∈ V
  behind : ∀ front v rest, l = front ++ v :: rest → ∀ d, r d v → d ∈ front

theorem Schedule.ready (h : Schedule r V l) {front rest : List α} {v : α} (hl : l = front ++ v :: rest) :
    Ready r V front v := by
  refine ⟨?_, ?_, h.behind front v rest hl⟩
  · rw [← h.mem_iff, hl]
    exact List.mem_append_right _ List.mem_cons_self
  · intro hmem
    have hnodup := h.nodup
    rw [hl] at hnodup
    exact (List.nodup_append.1 hnodup).2.2 v hmem v List.mem_cons_self rfl

theorem Schedule.perm (h : Schedule r V l) {l' : List α} (h' : Schedule r V l') : l.Perm l' := by
  rw [List.perm_ext_iff_of_nodup h.nodup h'.nodup]
  intro v
  rw [h.mem_iff, h'.mem_iff]

/-- No element of a schedule needs itself in the end. -/
theorem Schedule.acyclic (h : Schedule r V l) (hr : ∀ d v, r d v → v ∈ V) (v : α) : ¬ TransGen r v v := by
  classical
  have hlt : ∀ d w, r d w → l.idxOf d < l.idxOf w := by
    intro d w hdw
    obtain ⟨front, rest, hl⟩ := List.append_of_mem ((h.mem_iff w).2 (hr d w hdw))
    have hd : d ∈ front := h.behind front w rest hl d hdw
    have hw : w ∉ front := (h.ready hl).new
    rw [hl, List.idxOf_append_of_mem hd, List.idxOf_append_of_notMem hw]
    have := List.idxOf_lt_length_of_mem hd
    omega
  intro hcycle
  have hself : TransGen (· < ·) (l.idxOf v) (l.idxOf v) := hcycle.lift l.idxOf hlt
  rw [transGen_eq_self] at hself
  exact lt_irrefl _ hself

section
variable [LinearOrder α]

/-- Each element is the least of those that may come next. -/
def Greedy (r : α → α → Prop) (V : Set α) (l : List α) : Prop :=
  ∀ front v rest, l = front ++ v :: rest → Ready r V front v ∧ ∀ w, Ready r V front w → v ≤ w

theorem greedy_nil : Greedy r V [] := fun front v rest h => absurd h (by simp)

theorem Greedy.concat (h : Greedy r V l) {v : α} (hv : Ready r V l v) (hleast : ∀ w, Ready r V l w → v ≤ w) :
    Greedy r V (l ++ [v]) := by
  intro front w rest heq
  rcases List.eq_nil_or_concat' rest with rfl | ⟨rest, x, rfl⟩
  · obtain ⟨rfl, hlast⟩ := List.append_inj' heq rfl
    obtain rfl := List.singleton_inj.1 hlast
    exact ⟨hv, hleast⟩
  · rw [← List.cons_append, ← List.append_assoc] at heq
    exact h front w rest (List.append_inj' heq rfl).1

theorem Greedy.nodup (h : Greedy r V l) : l.Nodup := by
  induction l using List.reverseRecOn with
  | nil => exact List.nodup_nil
  | append_singleton l v ih =>
    have hready := (h l v [] rfl).1
    refine List.nodup_append.2 ⟨ih fun front w rest heq => ?_, List.nodup_singleton v, ?_⟩
    · exact h front w (rest ++ [v]) (by simp [heq])
    · intro a ha b hb hab
      rw [List.mem_singleton.1 hb] at hab
      exact hready.new (hab ▸ ha)

theorem Greedy.mem (h : Greedy r V l) {v : α} (hv : v ∈ l) : v ∈ V := by
  obtain ⟨front, rest, hl⟩ := List.append_of_mem hv
  exact (h front v rest hl).1.mem

/-- What an element that was taken needs was taken before. -/
theorem Greedy.needs (h : Greedy r V l) {d v : α} (hv : v ∈ l) (hdv : r d v) : d ∈ l := by
  obtain ⟨front, rest, hl⟩ := List.append_of_mem hv
  rw [hl]
  exact List.mem_append_left _ ((h front v rest hl).1.met d hdv)

theorem Greedy.schedule (h : Greedy r V l) (hall : ∀ v ∈ V, v ∈ l) : Schedule r V l :=
  ⟨h.nodup, fun v => ⟨h.mem, hall v⟩, fun front v rest hl => (h front v rest hl).1.met⟩

/-- Behind a common front the greedy schedule goes on with the lesser element. -/
theorem Greedy.rest_lex (h : Greedy r V l) {l' : List α} (h' : Schedule r V l') (front : List α)
    {rest rest' : List α} (hl : l = front ++ rest) (hl' : l' = front ++ rest')
    (hlen : rest.length = rest'.length) : rest = rest' ∨ List.Lex (· < ·) rest rest' := by
  induction rest generalizing front rest' with
  | nil => exact .inl (List.length_eq_zero_iff.1 hlen.symm).symm
  | cons v rest ih =>
    cases rest' with
    | nil => cases hlen
    | cons w rest' =>
      rcases ((h front v rest hl).2 w (h'.ready hl')).lt_or_eq with hlt | rfl
      · exact .inr (.rel hlt)
      · have hrest := ih (front ++ [v]) (by simp [hl]) (by simp [hl']) (Nat.succ.inj hlen)
        rcases hrest with rfl | hlex
        · exact .inl rfl
        · exact .inr (.cons hlex)

/-- The greedy schedule is the least one. -/
theorem Greedy.least (h : Greedy r V l) (hs : Schedule r V l) {l' : List α} (h' : Schedule r V l') :
    l = l' ∨ List.Lex (· < ·) l l' :=
  h.rest_lex h' [] rfl rfl (hs.perm h').length_eq

/-- There is one greedy schedule. -/
theorem Greedy.unique (h : Greedy r V l) (hs : Schedule r V l) {l' : List α} (h' : Greedy r V l')
    (hs' : Schedule r V l') : l = l' := by
  rcases h.least hs hs' with heq | hlt
  · exact heq
  rcases h'.least hs' hs with heq | hgt
  · exact heq.symm
  exact absurd hgt (List.lex_asymm lt_asymm hlt)

end

/-- Without a cycle, some element may come next as long as one is left. -/
theorem exists_ready (hfinite : V.Finite) (hr : ∀ d v, r d v → d ∈ V) (hacyclic : ∀ v, ¬ TransGen r v v)
    {v : α} (hv : v ∈ V) (hnew : v ∉ l) : ∃ w, Ready r V l w := by
  have horder : IsStrictOrder α (TransGen r) :=
    { irrefl := hacyclic, trans := fun _ _ _ => TransGen.trans }
  have hleft : (V ∩ {w | w ∉ l}).WellFoundedOn (TransGen r) := (hfinite.inter_of_left _).wellFoundedOn
  obtain ⟨⟨w, hw, hwnew⟩, -, hmin⟩ := hleft.has_min Set.univ ⟨⟨v, hv, hnew⟩, trivial⟩
  refine ⟨w, hw, hwnew, fun d hdw => ?_⟩
  by_contra hd
  exact hmin ⟨d, hr d w hdw, hd⟩ trivial (TransGen.single hdw)

end Winsmux.TopologicalOrder
