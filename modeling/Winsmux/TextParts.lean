import Winsmux.TextLines

/-!
# Trimmed texts and the parts of a text

A trimmed text stays as it is under trimming, and so do its fronts and its ends. The parts
of a text between separators, by where they stand in it.
-/
namespace Winsmux.Json

/-- Both directions of trimming, by the whitespace characters as the direction meets them. -/
@[grind =] def trimFront (two : UInt8 → UInt8 → Bool) (three : UInt8 → UInt8 → UInt8 → Bool) : Text → Text
  | [] => []
  | [a] => if space1 a then [] else [a]
  | [a, b] => if space1 a then trimFront two three [b] else if two a b then [] else [a, b]
  | a :: b :: c :: t =>
    if space1 a then trimFront two three (b :: c :: t)
    else if two a b then trimFront two three (c :: t)
    else if three a b c then trimFront two three t
    else a :: b :: c :: t

theorem trimStart_eq (t : Text) : trimStart t = trimFront space2 space3 t := by
  fun_induction trimStart t <;> simp_all [trimFront]

theorem trimReversed_eq (t : Text) :
    trimReversed t = trimFront (fun b a => space2 a b) (fun c b a => space3 a b c) t := by
  fun_induction trimReversed t <;> simp_all [trimFront]

section Trimming
variable {two : UInt8 → UInt8 → Bool} {three : UInt8 → UInt8 → UInt8 → Bool} {s t : Text}

/-- No whitespace character at the front. -/
def FrontKept (two : UInt8 → UInt8 → Bool) (three : UInt8 → UInt8 → UInt8 → Bool) (t : Text) :
    Prop :=
  (∀ a, [a] <+: t → space1 a = false) ∧ (∀ a b, [a, b] <+: t → two a b = false) ∧
    ∀ a b c, [a, b, c] <+: t → three a b c = false

theorem FrontKept.of_isPrefix (h : FrontKept two three t) (hs : s <+: t) : FrontKept two three s :=
  ⟨fun a ha => h.1 a (ha.trans hs), fun a b ha => h.2.1 a b (ha.trans hs),
    fun a b c ha => h.2.2 a b c (ha.trans hs)⟩

theorem FrontKept.trimFront_eq (h : FrontKept two three t) : trimFront two three t = t := by
  obtain ⟨h1, h2, h3⟩ := h
  match t with
  | [] => rfl
  | [a] => simp [trimFront, h1 a (by simp)]
  | [a, b] => simp [trimFront, h1 a (by simp), h2 a b (by simp)]
  | a :: b :: c :: t =>
    simp [trimFront, h1 a (by simp), h2 a b (by simp), h3 a b c (by simp)]

theorem frontKept_trimFront (t : Text) : FrontKept two three (trimFront two three t) := by
  fun_induction trimFront two three t with
  | case1 => simp [FrontKept]
  | case2 a h => simp [FrontKept]
  | case3 a h => simpa [FrontKept] using h
  | case4 a b h ih => exact ih
  | case5 a b h1 h2 => simp [FrontKept]
  | case6 a b h1 h2 => simp_all [FrontKept]
  | case7 a b c t h ih => exact ih
  | case8 a b c t h1 h2 ih => exact ih
  | case9 a b c t h1 h2 h3 ih => exact ih
  | case10 a b c t h1 h2 h3 => simp_all [FrontKept]

theorem trimFront_suffix (t : Text) : trimFront two three t <:+ t := by
  fun_induction trimFront two three t with
  | case1 | case3 | case6 | case10 => exact List.suffix_refl _
  | case2 | case5 => exact List.nil_suffix
  | case4 a b h ih => exact ih.trans (List.suffix_cons _ _)
  | case7 a b c t h ih => exact ih.trans (List.suffix_cons _ _)
  | case8 a b c t h1 h2 ih =>
    exact ih.trans ((List.suffix_cons _ _).trans (List.suffix_cons _ _))
  | case9 a b c t h1 h2 h3 ih =>
    exact ih.trans ((List.suffix_cons _ _).trans
      ((List.suffix_cons _ _).trans (List.suffix_cons _ _)))

end Trimming

/-- No whitespace at the start or the end. -/
structure Trimmed (t : Text) : Prop where
  start : FrontKept space2 space3 t
  finish : FrontKept (fun b a => space2 a b) (fun c b a => space3 a b c) t.reverse

theorem Trimmed.trim_eq {t : Text} (h : Trimmed t) : trim t = t := by
  rw [trim, trimStart_eq, h.start.trimFront_eq, trimReversed_eq, h.finish.trimFront_eq,
    List.reverse_reverse]

theorem trimmed_trim (t : Text) : Trimmed (trim t) := by
  rw [trim, trimStart_eq, trimReversed_eq]
  refine ⟨?_, ?_⟩
  · refine (frontKept_trimFront t).of_isPrefix ?_
    rw [← List.reverse_suffix, List.reverse_reverse]
    exact trimFront_suffix _
  · rw [List.reverse_reverse]
    exact frontKept_trimFront _

theorem splitOn_cons_eq {sep c : UInt8} {t : Text} (h : c ≠ sep) {piece : Text}
    {pieces : List Text} (ht : splitOn sep t = piece :: pieces) :
    splitOn sep (c :: t) = (c :: piece) :: pieces := by
  rw [splitOn, if_neg h, ht]

theorem exists_splitOn (sep : UInt8) (t : Text) :
    ∃ piece pieces, splitOn sep t = piece :: pieces := by
  cases h : splitOn sep t with
  | nil =>
    cases t with
    | nil => cases h
    | cons c t =>
      rw [splitOn] at h
      split at h
      · cases h
      · split at h <;> cases h
  | cons piece pieces => exact ⟨piece, pieces, rfl⟩

/-- The first part of a text: the front of it up to a separator or the end. -/
theorem splitOn_head_iff {sep : UInt8} {t part : Text} :
    (splitOn sep t).head? = some part ↔
      sep ∉ part ∧ (t = part ∨ ∃ rest, t = part ++ sep :: rest) := by
  induction t generalizing part with
  | nil => cases part <;> simp [splitOn]
  | cons c t ih =>
    by_cases hc : c = sep
    · subst hc
      cases part with
      | nil => simp [splitOn]
      | cons d part =>
        simp only [splitOn, if_true, List.head?_cons, Option.some.injEq, List.cons_append,
          List.cons.injEq, List.mem_cons, not_or]
        constructor
        · intro h
          cases h
        · rintro ⟨⟨h, -⟩, ⟨rfl, -⟩ | ⟨rest, rfl, -⟩⟩
          · exact absurd rfl h
          · exact absurd rfl h
    · obtain ⟨piece, pieces, ht⟩ := exists_splitOn sep t
      rw [splitOn_cons_eq hc ht]
      rw [ht] at ih
      cases part with
      | nil =>
        simp [hc]
      | cons d part =>
        have h := @ih part
        simp only [List.head?_cons, Option.some.injEq] at h
        simp only [List.head?_cons, Option.some.injEq, List.cons_append, List.cons.injEq,
          List.mem_cons, not_or, h]
        constructor
        · rintro ⟨rfl, hpart, ht⟩
          refine ⟨⟨Ne.symm hc, hpart⟩, ?_⟩
          obtain rfl | ⟨rest, rfl⟩ := ht
          · exact .inl ⟨rfl, rfl⟩
          · exact .inr ⟨rest, rfl, rfl⟩
        · rintro ⟨⟨-, hpart⟩, ⟨rfl, rfl⟩ | ⟨rest, rfl, rfl⟩⟩
          · exact ⟨rfl, hpart, .inl rfl⟩
          · exact ⟨rfl, hpart, .inr ⟨rest, rfl⟩⟩

theorem mem_splitOn_head_tail {sep : UInt8} {t part : Text} :
    part ∈ splitOn sep t ↔
      (splitOn sep t).head? = some part ∨ part ∈ (splitOn sep t).tail := by
  obtain ⟨piece, pieces, ht⟩ := exists_splitOn sep t
  rw [ht, List.mem_cons, List.head?_cons, Option.some.injEq, eq_comm (a := part), List.tail_cons]

/-- Every other part follows a separator. -/
theorem mem_splitOn_tail_iff {sep : UInt8} {t part : Text} :
    part ∈ (splitOn sep t).tail ↔
      ∃ front rest, t = front ++ sep :: rest ∧ (splitOn sep rest).head? = some part := by
  induction t with
  | nil => simp [splitOn]
  | cons c t ih =>
    by_cases hc : c = sep
    · subst hc
      rw [splitOn, if_pos rfl, List.tail_cons, mem_splitOn_head_tail, ih]
      constructor
      · rintro (h | ⟨front, rest, rfl, h⟩)
        · exact ⟨[], t, rfl, h⟩
        · exact ⟨c :: front, rest, rfl, h⟩
      · rintro ⟨front, rest, heq, h⟩
        cases front with
        | nil =>
          obtain ⟨-, rfl⟩ := List.cons.inj heq
          exact .inl h
        | cons d front =>
          obtain ⟨-, rfl⟩ := List.cons.inj heq
          exact .inr ⟨front, rest, rfl, h⟩
    · obtain ⟨piece, pieces, ht⟩ := exists_splitOn sep t
      have htail : (splitOn sep (c :: t)).tail = (splitOn sep t).tail := by
        rw [splitOn_cons_eq hc ht, ht, List.tail_cons, List.tail_cons]
      rw [htail, ih]
      constructor
      · rintro ⟨front, rest, rfl, h⟩
        exact ⟨c :: front, rest, rfl, h⟩
      · rintro ⟨front, rest, heq, h⟩
        cases front with
        | nil => exact absurd (List.cons.inj heq).1 hc
        | cons d front =>
          obtain ⟨-, rfl⟩ := List.cons.inj heq
          exact ⟨front, rest, rfl, h⟩

/-- A part of a text stands between separators or the ends of the text. -/
theorem mem_splitOn_iff {sep : UInt8} {t part : Text} :
    part ∈ splitOn sep t ↔ sep ∉ part ∧
      ((t = part ∨ ∃ rest, t = part ++ sep :: rest) ∨ ∃ front,
        t = front ++ sep :: part ∨ ∃ rest, t = front ++ sep :: (part ++ sep :: rest)) := by
  rw [mem_splitOn_head_tail, splitOn_head_iff, mem_splitOn_tail_iff]
  constructor
  · rintro (⟨hpart, h⟩ | ⟨front, rest, rfl, h⟩)
    · exact ⟨hpart, .inl h⟩
    · obtain ⟨hpart, rfl | ⟨rest, rfl⟩⟩ := splitOn_head_iff.mp h
      · exact ⟨hpart, .inr ⟨front, .inl rfl⟩⟩
      · exact ⟨hpart, .inr ⟨front, .inr ⟨rest, rfl⟩⟩⟩
  · rintro ⟨hpart, h | ⟨front, rfl | ⟨rest, rfl⟩⟩⟩
    · exact .inl ⟨hpart, h⟩
    · exact .inr ⟨front, part, rfl, splitOn_head_iff.mpr ⟨hpart, .inl rfl⟩⟩
    · exact .inr ⟨front, _, rfl, splitOn_head_iff.mpr ⟨hpart, .inr ⟨rest, rfl⟩⟩⟩

end Winsmux.Json
