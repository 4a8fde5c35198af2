import Winsmux.Format.Expand
import Mathlib.Computability.Language

/-!
# Patterns with stars

The texts that a pattern stands for, and those that the matcher takes. The matcher compares bytes
before it looks for a star, so that a star of the pattern in front of a star of the text stands for
this one byte. It goes back to the last star only; what earlier stars could still come to, the last
one comes to as well.
-/
namespace Winsmux.Format
open CharText

/-- `glob_match_impl` -/
def globMatchImpl (pattern text : List UInt8) : Bool := globLoop none pattern text

/-- What one byte of a pattern stands for: a star for every text. -/
def meaning (x : UInt8) : Language UInt8 :=
  {w | x = 0x2a ∨ ∃ c, w = [c] ∧ (x = 0x3f ∨ x = c)}

/-- The bytes of a pattern stand for texts one behind the other. -/
def language (pattern : List UInt8) : Language UInt8 := (pattern.map meaning).prod

/-- The text can be divided among the bytes of the pattern in such a way that a star in front of a
star stands for this one byte. -/
def Divides : List UInt8 → List UInt8 → Prop
  | [], text => text = []
  | x :: pattern, text => ∃ w rest, text = w ++ rest ∧ w ∈ meaning x ∧
      (x = 0x2a → text.head? = some 0x2a → w = [0x2a]) ∧ Divides pattern rest

theorem mem_meaning_star (w : List UInt8) : w ∈ meaning 0x2a := .inl rfl

theorem mem_meaning {x : UInt8} (hx : x ≠ 0x2a) {w : List UInt8} :
    w ∈ meaning x ↔ ∃ c, w = [c] ∧ (x = 0x3f ∨ x = c) :=
  or_iff_right hx

theorem mem_language_cons {x : UInt8} {pattern text : List UInt8} :
    text ∈ language (x :: pattern) ↔
      ∃ w rest, text = w ++ rest ∧ w ∈ meaning x ∧ rest ∈ language pattern := by
  rw [language, List.map_cons, List.prod_cons, Language.mem_mul]
  constructor
  · rintro ⟨w, hw, rest, hrest, rfl⟩
    exact ⟨w, rest, rfl, hw, hrest⟩
  · rintro ⟨w, rest, rfl, hw, hrest⟩
    exact ⟨w, hw, rest, hrest, rfl⟩

/-- A division shows that the text is in the language. -/
theorem Divides.mem_language {pattern text : List UInt8} (h : Divides pattern text) :
    text ∈ language pattern := by
  induction pattern generalizing text with
  | nil =>
    obtain rfl : text = [] := h
    exact Language.nil_mem_one
  | cons x pattern ih =>
    obtain ⟨w, rest, htext, hw, -, hrest⟩ := h
    exact mem_language_cons.2 ⟨w, rest, htext, hw, ih hrest⟩

/-- Without a star in the text the two are the same. -/
theorem divides_of_mem_language {pattern text : List UInt8} (hstar : 0x2a ∉ text)
    (h : text ∈ language pattern) : Divides pattern text := by
  induction pattern generalizing text with
  | nil => exact Language.mem_one _ |>.1 h
  | cons x pattern ih =>
    obtain ⟨w, rest, rfl, hw, hrest⟩ := mem_language_cons.1 h
    refine ⟨w, rest, rfl, hw, fun _ hhead => ?_, ih (fun hmem => hstar ?_) hrest⟩
    · exact absurd (List.mem_of_mem_head? hhead) hstar
    · exact List.mem_append_right _ hmem

section
variable {x c : UInt8} {p t : List UInt8}

/-- A byte that may stand for the one in front of it stands for this byte alone. -/
theorem divides_cons_single (h : x = 0x3f ∨ x = c) : Divides (x :: p) (c :: t) ↔ Divides p t := by
  constructor
  · rintro ⟨w, rest, htext, hw, hstar, hrest⟩
    by_cases hx : x = 0x2a
    · obtain rfl : x = c := h.resolve_left (by rw [hx]; decide)
      rw [hstar hx (by rw [hx]; rfl), List.singleton_append] at htext
      obtain ⟨-, rfl⟩ := List.cons.inj htext
      exact hrest
    · obtain ⟨d, rfl, -⟩ := (mem_meaning hx).1 hw
      obtain ⟨-, rfl⟩ := List.cons.inj htext
      exact hrest
  · intro hrest
    refine ⟨[c], t, rfl, .inr ⟨c, rfl, h⟩, ?_, hrest⟩
    rintro rfl -
    rw [← h.resolve_left (by decide)]

theorem not_divides_cons (h : ¬ (x = 0x3f ∨ x = c)) (hx : x ≠ 0x2a) : ¬ Divides (x :: p) (c :: t) := by
  rintro ⟨w, rest, htext, hw, -, -⟩
  obtain ⟨d, rfl, hd⟩ := (mem_meaning hx).1 hw
  obtain ⟨rfl, -⟩ := List.cons.inj htext
  exact h hd

theorem not_divides_nil_cons {b : UInt8} {text : List UInt8} : ¬ Divides [] (b :: text) := by
  intro h
  cases h

/-- A star in front of another byte leaves any rest of the text. -/
theorem divides_star_iff (ht : t.head? ≠ some 0x2a) : Divides (0x2a :: p) t ↔ ∃ u, u <:+ t ∧ Divides p u := by
  constructor
  · rintro ⟨w, rest, rfl, -, -, hrest⟩
    exact ⟨rest, List.suffix_append w rest, hrest⟩
  · rintro ⟨u, ⟨w, rfl⟩, hu⟩
    exact ⟨w, u, rfl, mem_meaning_star w, fun _ hhead => absurd hhead ht, hu⟩

theorem Divides.suffix_of_star (h : Divides (0x2a :: p) t) : ∃ u, u <:+ t ∧ Divides p u := by
  obtain ⟨w, rest, rfl, -, -, hrest⟩ := h
  exact ⟨rest, List.suffix_append w rest, hrest⟩

theorem divides_nil_iff : Divides p [] ↔ p.all (· = 0x2a) = true := by
  induction p with
  | nil => simp [Divides]
  | cons x p ih =>
    rw [List.all_cons, Bool.and_eq_true, ← ih, decide_eq_true_eq]
    constructor
    · intro h
      by_cases hx : x = 0x2a
      · subst hx
        obtain ⟨u, hu, hrest⟩ := h.suffix_of_star
        obtain rfl := List.suffix_nil.1 hu
        exact ⟨rfl, hrest⟩
      · obtain ⟨w, rest, htext, hw, -, -⟩ := h
        obtain ⟨c, rfl, -⟩ := (mem_meaning hx).1 hw
        cases htext
    · rintro ⟨rfl, h⟩
      exact (divides_star_iff (by simp)).2 ⟨[], List.suffix_rfl, h⟩

end

/-- Where the loop goes on if neither the byte nor a star helps. -/
def retry : Option (List UInt8 × List UInt8) → Bool
  | some (p, _ :: t) => globLoop (some (p, t)) p t
  | _ => false

theorem globLoop_cons (star : Option (List UInt8 × List UInt8)) (c b : UInt8) (pattern text : List UInt8) :
    globLoop star (c :: pattern) (b :: text) =
      if c = 0x3f ∨ c = b then globLoop star pattern text
      else if c = 0x2a then globLoop (some (pattern, b :: text)) pattern (b :: text)
      else retry star := by
  rw [globLoop.eq_def]
  rfl

theorem globLoop_nil (star : Option (List UInt8 × List UInt8)) (b : UInt8) (text : List UInt8) :
    globLoop star [] (b :: text) = retry star := by
  rw [globLoop.eq_def]
  rcases star with _ | ⟨p, _ | ⟨a, t⟩⟩ <;> rfl

/-- What the matcher has passed since the last star, byte by byte. -/
def Passed (star : Option (List UInt8 × List UInt8)) (pattern text : List UInt8) : Prop :=
  ∀ s ∈ star, ∃ front passed, s.1 = front ++ pattern ∧ s.2 = passed ++ text ∧
    List.Forall₂ (fun x c => x = 0x3f ∨ x = c) front passed

/-- What has been passed byte by byte is passed from any later place as well, and not before the
place that was reached. -/
theorem Divides.pass {front passed p t u : List UInt8}
    (hpass : List.Forall₂ (fun x c : UInt8 => x = 0x3f ∨ x = c) front passed) (hu : u <:+ passed ++ t)
    (h : Divides (front ++ p) u) : ∃ v, v <:+ t ∧ Divides p v := by
  induction hpass generalizing u with
  | nil => exact ⟨u, hu, h⟩
  | @cons x c front passed hc _ ih =>
    rw [List.cons_append] at hu h
    by_cases hx : x = 0x2a
    · rcases List.suffix_cons_iff.1 hu with rfl | hu
      · exact ih List.suffix_rfl ((divides_cons_single hc).1 h)
      · subst hx
        obtain ⟨v, hv, hrest⟩ := h.suffix_of_star
        exact ih (hv.trans hu) hrest
    · obtain ⟨w, rest, rfl, hw, -, hrest⟩ := h
      obtain ⟨d, rfl, -⟩ := (mem_meaning hx).1 hw
      refine ih ?_ hrest
      rcases List.suffix_cons_iff.1 hu with heq | hu
      · rw [List.singleton_append] at heq
        rw [(List.cons.inj heq).2]
      · exact (List.suffix_append [d] rest).trans hu

/-- What the matcher can still come to from its last star. -/
def Again (star : Option (List UInt8 × List UInt8)) : Prop :=
  ∃ s ∈ star, ∃ u, u <:+ s.2.tail ∧ Divides s.1 u

theorem Again.pass {star : Option (List UInt8 × List UInt8)} {pattern text : List UInt8}
    (h : Passed star pattern text) (hagain : Again star) : ∃ v, v <:+ text ∧ Divides pattern v := by
  obtain ⟨s, hs, u, hu, hdiv⟩ := hagain
  obtain ⟨front, passed, hpattern, htext, hpass⟩ := h s hs
  rw [hpattern] at hdiv
  exact hdiv.pass hpass (htext ▸ hu.trans (List.tail_suffix s.2))

theorem suffix_iff_tail {t : List UInt8} {P : List UInt8 → Prop} :
    (∃ u, u <:+ t ∧ P u) ↔ P t ∨ ∃ u, u <:+ t.tail ∧ P u := by
  cases t with
  | nil => simp
  | cons c t => simp only [List.suffix_cons_iff, List.tail_cons, or_and_right, exists_or, exists_eq_left]

theorem again_some {pattern text : List UInt8} :
    Again (some (pattern, text)) ↔ ∃ u, u <:+ text.tail ∧ Divides pattern u := by
  simp [Again]

/-- Nothing has been passed yet where the loop goes on from a star. -/
theorem passed_self (pattern text : List UInt8) : Passed (some (pattern, text)) pattern text := by
  rintro s ⟨⟩
  exact ⟨[], [], rfl, rfl, .nil⟩

theorem eq_none_of_passed {star : Option (List UInt8 × List UInt8)} {pattern text : List UInt8} {b : UInt8}
    (h : Passed star pattern (b :: text)) (hstar : ∀ p a t, star ≠ some (p, a :: t)) : star = none := by
  rcases star with _ | ⟨p, _ | ⟨a, t⟩⟩
  · rfl
  · obtain ⟨front, passed, -, htext, -⟩ := h _ rfl
    cases passed <;> cases htext
  · exact absurd rfl (hstar p a t)

theorem not_again_none : ¬ Again none := nofun

/-- The loop finds what is ahead of it and what its last star can come to. -/
theorem globLoop_iff {star : Option (List UInt8 × List UInt8)} {pattern text : List UInt8}
    (h : Passed star pattern text) :
    globLoop star pattern text = true ↔ Divides pattern text ∨ Again star := by
  induction star, pattern, text using globLoop.induct with
  | case1 star pattern =>
    rw [globLoop, ← divides_nil_iff]
    refine ⟨.inl, fun hor => hor.elim id fun hagain => ?_⟩
    obtain ⟨v, hv, hdiv⟩ := hagain.pass h
    rwa [List.suffix_nil.1 hv] at hdiv
  | case2 star c pattern b text hc ih =>
    rw [globLoop_cons, if_pos hc, divides_cons_single hc]
    refine ih fun s hs => ?_
    obtain ⟨front, passed, hpattern, htext, hpass⟩ := h s hs
    refine ⟨front ++ [c], passed ++ [b], ?_, ?_, List.rel_append hpass (.cons hc .nil)⟩
    · rw [hpattern, List.append_assoc, List.singleton_append]
    · rw [htext, List.append_assoc, List.singleton_append]
  | case3 star pattern b text hc ih =>
    have hb : (b :: text).head? ≠ some 0x2a := fun hb => hc (.inr (Option.some.inj hb).symm)
    rw [globLoop_cons, if_neg hc, if_pos rfl, ih (passed_self _ _), divides_star_iff hb, suffix_iff_tail,
      again_some]
    refine ⟨.inl, fun hor => hor.elim id fun hagain => ?_⟩
    obtain ⟨v, hv, hdiv⟩ := hagain.pass h
    obtain ⟨u, hu, hrest⟩ := hdiv.suffix_of_star
    exact suffix_iff_tail.1 ⟨u, hu.trans hv, hrest⟩
  | case4 c pattern b text hc hstar p a t ih =>
    rw [globLoop_cons, if_neg hc, if_neg hstar, retry, ih (passed_self p t), again_some, again_some,
      List.tail_cons, ← suffix_iff_tail]
    exact (or_iff_right (not_divides_cons hc hstar)).symm
  | case5 star c pattern b text hc hstar hnone =>
    obtain rfl := eq_none_of_passed h hnone
    rw [globLoop_cons, if_neg hc, if_neg hstar]
    exact iff_of_false Bool.false_ne_true (not_or.2 ⟨not_divides_cons hc hstar, not_again_none⟩)
  | case6 p a t b text ih =>
    rw [globLoop_nil, retry, ih (passed_self p t), again_some, again_some, List.tail_cons,
      ← suffix_iff_tail]
    exact (or_iff_right not_divides_nil_cons).symm
  | case7 star b text hnone =>
    obtain rfl := eq_none_of_passed h hnone
    rw [globLoop_nil]
    exact iff_of_false Bool.false_ne_true (not_or.2 ⟨not_divides_nil_cons, not_again_none⟩)

theorem globMatchImpl_iff_divides (pattern text : List UInt8) :
    globMatchImpl pattern text = true ↔ Divides pattern text := by
  rw [globMatchImpl, globLoop_iff (fun s hs => by cases hs)]
  exact or_iff_left not_again_none

/-- The matcher tells whether the text is in the language of the pattern if and only if the text is not
in it or can be divided with each star in front of a star of the text standing for this one byte. -/
theorem globMatchImpl_iff (pattern text : List UInt8) :
    (globMatchImpl pattern text = true ↔ text ∈ language pattern) ↔
      (text ∈ language pattern → Divides pattern text) := by
  rw [globMatchImpl_iff_divides]
  exact ⟨Iff.mpr, fun h => ⟨Divides.mem_language, h⟩⟩

/-- The pattern `*` and the text `*a`: the star is taken for the star of the text, and the rest is left
over. -/
theorem star_loses_star :
    ¬ (globMatchImpl [0x2a] [0x2a, 0x61] = true ↔ [0x2a, 0x61] ∈ language [0x2a]) := by
  intro h
  have hmem : [0x2a, 0x61] ∈ language [0x2a] :=
    mem_language_cons.2 ⟨_, [], (List.append_nil _).symm, mem_meaning_star _, Language.nil_mem_one⟩
  have hloop := h.2 hmem
  rw [globMatchImpl, globLoop_cons, if_pos (.inr rfl), globLoop_nil] at hloop
  cases hloop

end Winsmux.Format
