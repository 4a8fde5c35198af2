import Winsmux.Format.Syntax

/-!
# The pieces of a format

Whatever the parser cuts out of a text is a part of it: the parts between delimiters with
the delimiters put back are the text, and an expression with its braces is a part of the
format. So the pieces are shorter than what they were cut from. The tokens of two texts in
a row are those of the first and those of the second, if the first ends outside of braces
and not in the middle of a shorthand.
-/
namespace Winsmux.Format
open CharText

theorem splitFrom_ne_nil (delim : Char) (depth : ℕ) (inStyle : Bool) (s : Chars) :
    splitFrom delim depth inStyle s ≠ [] := by
  have hglue : ∀ (front : Chars) (parts : List Chars), glue front parts ≠ [] := by
    intro front parts
    cases parts <;> exact List.cons_ne_nil _ _
  fun_cases splitFrom delim depth inStyle s <;> simp [hglue]

theorem intercalate_glue (delim : Char) (front : Chars) {parts : List Chars} (h : parts ≠ []) :
    [delim].intercalate (glue front parts) = front ++ [delim].intercalate parts := by
  match parts with
  | [part] => simp [glue]
  | part :: part' :: rest => simp [glue]

/-- The parts with the delimiters between them are the text. -/
theorem intercalate_splitFrom (delim : Char) (depth : ℕ) (inStyle : Bool) (s : Chars) :
    [delim].intercalate (splitFrom delim depth inStyle s) = s := by
  have hne := splitFrom_ne_nil delim
  fun_induction splitFrom delim depth inStyle s with
  | case1 => rfl
  | case2 depth inStyle c h => simp [h.1]
  | case3 => simp
  | case9 depth inStyle c d s _ _ _ _ _ h ih =>
    rw [List.intercalate_cons_of_ne_nil (hne _ _ _), ih, h.1]
    rfl
  | case4 _ _ _ _ _ _ ih | case5 _ _ _ _ _ _ _ ih | case6 _ _ _ _ _ _ _ _ ih
    | case7 _ _ _ _ _ _ _ _ _ ih | case8 _ _ _ _ _ _ _ _ _ _ ih | case10 _ _ _ _ _ _ _ _ _ _ _ ih =>
    rw [intercalate_glue _ _ (hne _ _ _), ih]
    rfl

theorem length_le_of_mem_intercalate {sep part : Chars} {parts : List Chars} (h : part ∈ parts) :
    part.length ≤ (sep.intercalate parts).length := by
  induction parts with
  | nil => cases h
  | cons p parts ih =>
    rcases List.mem_cons.1 h with rfl | h
    · cases parts <;> simp
    · have hpart := ih h
      rw [List.intercalate_cons_of_ne_nil (List.ne_nil_of_mem h)]
      simp only [List.length_append]
      omega

theorem length_le_of_mem_splitAtDepth0 {delim : Char} {s part : Chars} (h : part ∈ splitAtDepth0 s delim) :
    part.length ≤ s.length := by
  have hpart := @length_le_of_mem_intercalate [delim] _ _ h
  rwa [splitAtDepth0, intercalate_splitFrom] at hpart

/-- A conditional is longer than each of its parts. -/
theorem length_splitConditional (s : Chars) :
    (splitConditional s).1.length ≤ s.length ∧ (splitConditional s).2.1.length ≤ s.length ∧
      (splitConditional s).2.2.length ≤ s.length := by
  have hs := intercalate_splitFrom ',' 0 false s
  rw [splitConditional, splitAtDepth0]
  match h : splitFrom ',' 0 false s with
  | [] => exact ⟨Nat.zero_le _, Nat.zero_le _, Nat.zero_le _⟩
  | [cond] =>
    rw [h, List.intercalate_singleton] at hs
    exact ⟨le_of_eq (by rw [hs]), Nat.zero_le _, Nat.zero_le _⟩
  | [cond, yes] =>
    rw [h] at hs
    have hlen := congrArg List.length hs
    simp at hlen
    simp only [List.length_nil]
    omega
  | cond :: yes :: no :: rest =>
    rw [h, List.intercalate_cons_cons, List.intercalate_cons_cons] at hs
    have hlen := congrArg List.length hs
    simp only [List.length_append, List.length_cons, List.length_nil] at hlen
    simp only
    omega

theorem length_modifierColonFrom {depth : ℕ} {s a b : Chars} (h : modifierColonFrom depth s = some (a, b)) :
    a.length + b.length + 1 = s.length := by
  fun_induction modifierColonFrom depth s generalizing a b with
  | case1 => cases h
  | case2 depth s ih | case4 depth c s _ _ ih =>
    obtain ⟨⟨a', b'⟩, hr, hab⟩ := Option.map_eq_some_iff.1 h
    cases hab
    have := ih hr
    simp only [List.length_cons]
    omega
  | case3 depth c s =>
    cases h
    simp

theorem length_operatorFrom {op : Chars} {depth : ℕ} {before s a b : Chars}
    (h : operatorFrom op depth before s = some (a, b)) : a.length + b.length ≤ before.length + s.length := by
  fun_induction operatorFrom op depth before s with
  | case1 => cases h
  | case2 depth before s ih | case3 depth before c s _ _ ih | case5 depth before c s _ _ _ ih =>
    have := ih h
    simp only [List.length_append, List.length_cons, List.length_nil] at this ⊢
    omega
  | case4 depth before c s =>
    cases h
    rw [List.length_drop]
    omega

/-- The sides of a comparison are parts of the condition. -/
theorem length_findComparisonInCond {cond lhs rhs : Chars} {op : CompareOp}
    (h : findComparisonInCond cond = some (lhs, op, rhs)) :
    lhs.length ≤ cond.length ∧ rhs.length ≤ cond.length := by
  obtain ⟨op', -, hop⟩ := List.exists_of_findSome?_eq_some h
  obtain ⟨⟨a, b⟩, hr, hab⟩ := Option.map_eq_some_iff.1 hop
  cases hab
  have := length_operatorFrom hr
  dsimp only
  simp only [List.length_nil] at this
  omega

theorem length_findMatchingBrace {depth : ℕ} {s a b : Chars} (h : findMatchingBrace depth s = some (a, b)) :
    a.length + b.length + 1 = s.length := by
  fun_induction findMatchingBrace depth s generalizing a b with
  | case1 => cases h
  | case2 depth s ih | case4 depth c s _ _ ih =>
    obtain ⟨⟨a', b'⟩, hr, hab⟩ := Option.map_eq_some_iff.1 h
    cases hab
    have := ih hr
    simp only [List.length_cons]
    omega
  | case3 depth c s =>
    cases h
    simp

theorem length_stripPrefix {front s rest : Chars} (h : stripPrefix front s = some rest) :
    rest.length ≤ s.length := by
  rw [stripPrefix] at h
  split at h
  · cases h
    rw [List.length_drop]
    omega
  · cases h

theorem length_loopOf {expr fmt : Chars} {kind : Char} (h : loopOf expr = some (kind, fmt)) :
    fmt.length ≤ expr.length := by
  fun_cases loopOf expr with
  | case1 c d s hc =>
    rw [loopOf, if_pos hc] at h
    cases h
    simp
  | case2 c d s hc =>
    rw [loopOf, if_neg hc] at h
    cases h
  | case3 =>
    rw [loopOf] at h
    · cases h
    · assumption

theorem length_special {d : Char} {s rest : Chars} {token : Token} (h : special d s = some (token, rest)) :
    rest.length ≤ s.length := by
  rw [special] at h
  split at h
  · obtain ⟨⟨a, b⟩, hr, hab⟩ := Option.map_eq_some_iff.1 h
    cases hab
    have := length_findMatchingBrace hr
    dsimp only
    omega
  · split at h
    · have := (List.dropWhile_sublist (· ≠ ')') (l := s)).length_le
      split at h
      · cases h
      · rename_i hs
        cases h
        rw [hs, List.length_cons] at this
        omega
    · split at h
      · cases h
        exact le_rfl
      · cases h

/-- An expression is shorter than the format by its braces. -/
theorem length_of_mem_lex {n : ℕ} {s inner : Chars} (h : .expr inner ∈ lex n s) :
    inner.length + 3 ≤ s.length := by
  fun_induction lex n s with
  | case1 => cases h
  | case2 => cases h
  | case3 n c ih =>
    rcases List.mem_cons.1 h with h | h
    · cases h
    · cases ih h
  | case4 n d s token rest hs ih =>
    rcases List.mem_cons.1 h with h | h
    · subst h
      rw [special] at hs
      split at hs
      · obtain ⟨⟨a, b⟩, hr, hab⟩ := Option.map_eq_some_iff.1 hs
        cases hab
        have := length_findMatchingBrace hr
        simp only [List.length_cons]
        omega
      · split at hs
        · split at hs <;> cases hs
        · split at hs <;> cases hs
    · have := ih h
      have := length_special hs
      simp only [List.length_cons]
      omega
  | case5 n d s hs ih =>
    rcases List.mem_cons.1 h with h | h
    · cases h
    · have := ih h
      simp only [List.length_cons] at this ⊢
      omega
  | case6 n c d s hc ih =>
    rcases List.mem_cons.1 h with h | h
    · cases h
    · have := ih h
      simp only [List.length_cons] at this ⊢
      omega

theorem length_of_mem_tokens {fmt inner : Chars} (h : .expr inner ∈ tokens fmt) :
    inner.length + 3 ≤ fmt.length := length_of_mem_lex h

/-- Fuel beyond the length of the text changes nothing. -/
theorem lex_of_le {n : ℕ} {s : Chars} (h : s.length ≤ n) : lex n s = tokens s := by
  have hall : ∀ (n k : ℕ) (s : Chars), s.length ≤ n → s.length ≤ k → lex n s = lex k s := by
    intro n
    induction n with
    | zero =>
      intro k s hn _
      rw [List.length_eq_zero_iff.1 (Nat.le_zero.1 hn)]
      cases k <;> rfl
    | succ n ih =>
      intro k s hn hk
      match k, s, hk with
      | 0, [], _ => rfl
      | k + 1, [], _ => rfl
      | k + 1, [c], hk => rw [lex, lex, ih k [] (Nat.zero_le _) (Nat.zero_le _)]
      | k + 1, c :: d :: s, hk =>
        simp only [List.length_cons] at hn hk
        have hrest := ih k (d :: s) (by simp only [List.length_cons]; omega)
          (by simp only [List.length_cons]; omega)
        rw [lex, lex]
        cases hs : special d s with
        | none => dsimp only; rw [hrest]
        | some r =>
          have := @length_special _ _ r.2 r.1 hs
          dsimp only
          rw [ih k r.2 (by omega) (by omega), hrest]
  exact hall n s.length s h le_rfl

theorem tokens_singleton (c : Char) : tokens [c] = [.char c] := rfl

theorem tokens_cons_cons (c d : Char) (s : Chars) :
    tokens (c :: d :: s) =
      if c = '#' then
        match special d s with
        | some (token, rest) => token :: tokens rest
        | none => .char c :: tokens (d :: s)
      else .char c :: tokens (d :: s) := by
  rw [tokens, List.length_cons, lex, lex_of_le le_rfl]
  cases hs : special d s with
  | none => rfl
  | some r =>
    have := @length_special _ _ r.2 r.1 hs
    dsimp only
    rw [lex_of_le (by rw [List.length_cons]; omega)]

theorem tokens_cons {c : Char} (h : c ≠ '#') (s : Chars) : tokens (c :: s) = .char c :: tokens s := by
  cases s with
  | nil => rfl
  | cons d s => rw [tokens_cons_cons, if_neg h]

/-- How many braces of expressions are open at the end of a text. -/
@[grind =] def braceDepth : ℕ → Chars → ℕ
  | depth, [] => depth
  | depth, '#' :: '{' :: s => braceDepth (depth + 1) s
  | depth, c :: s => braceDepth (if c = '}' then depth - 1 else depth) s

theorem braceDepth_cons_cons (depth : ℕ) (s : Chars) :
    braceDepth depth ('#' :: '{' :: s) = braceDepth (depth + 1) s := by rw [braceDepth]

theorem braceDepth_cons {depth : ℕ} {c : Char} {s : Chars} (h : ∀ t, c = '#' → s ≠ '{' :: t) :
    braceDepth depth (c :: s) = braceDepth (if c = '}' then depth - 1 else depth) s := by
  rw [braceDepth]
  exact h

theorem braceDepth_mono {d e : ℕ} (h : d ≤ e) (s : Chars) : braceDepth d s ≤ braceDepth e s := by
  fun_induction braceDepth e s generalizing d with
  | case1 => exact h
  | case2 e s ih =>
    rw [braceDepth]
    exact ih (Nat.succ_le_succ h)
  | case3 e c s hc ih =>
    rw [braceDepth_cons hc]
    refine ih ?_
    split <;> omega

theorem braceDepth_tail_le (c : Char) (s : Chars) : braceDepth 0 s ≤ braceDepth 0 (c :: s) := by
  by_cases h : ∃ t, c = '#' ∧ s = '{' :: t
  · obtain ⟨t, rfl, rfl⟩ := h
    rw [braceDepth_cons_cons, braceDepth_cons (by simp)]
    exact braceDepth_mono (Nat.zero_le _) t
  · rw [braceDepth_cons fun t hc hs => h ⟨t, hc, hs⟩]
    simp

/-- Where the braces open before a text are all closed in it, the first of them is. -/
theorem findMatchingBrace_append {depth : ℕ} {s : Chars} (hs : braceDepth depth s = 0) (hd : 0 < depth)
    (g : Chars) :
    ∃ a b, findMatchingBrace depth s = some (a, b) ∧ findMatchingBrace depth (s ++ g) = some (a, b ++ g) ∧
      braceDepth 0 b = 0 ∧ b <:+ s := by
  fun_induction findMatchingBrace depth s with
  | case1 depth =>
    rw [braceDepth] at hs
    omega
  | case2 depth s ih =>
    rw [braceDepth] at hs
    obtain ⟨a, b, h, hg, hb, hsuf⟩ := ih hs (Nat.succ_pos _)
    refine ⟨'#' :: '{' :: a, b, by rw [h]; rfl, ?_, hb, ?_⟩
    · rw [List.cons_append, List.cons_append, findMatchingBrace, hg]
      rfl
    · exact hsuf.trans ((List.suffix_cons _ _).trans (List.suffix_cons _ _))
  | case3 depth c s hc h =>
    obtain ⟨rfl, rfl⟩ := h
    rw [braceDepth_cons hc] at hs
    exact ⟨[], s, rfl, by rw [List.cons_append, findMatchingBrace, if_pos ⟨rfl, rfl⟩]; simp, hs,
      List.suffix_cons _ _⟩
  | case4 depth c s hc h ih =>
    rw [braceDepth_cons hc] at hs
    have hpos : 0 < if c = '}' then depth - 1 else depth := by
      split
      · have : depth ≠ 1 := fun hd => h ⟨‹_›, hd⟩
        omega
      · exact hd
    obtain ⟨a, b, hm, hg, hb, hsuf⟩ := ih hs hpos
    refine ⟨c :: a, b, by rw [hm]; rfl, ?_, hb, hsuf.trans (List.suffix_cons _ _)⟩
    rw [List.cons_append, findMatchingBrace, if_neg h, hg]
    · rfl
    · intro t hc' hst
      cases s with
      | nil =>
        rw [braceDepth] at hs
        omega
      | cons d s =>
        cases hst
        exact hc s hc' rfl

/-- A text that ends outside of braces and of shorthands and holds no command. -/
structure Whole (f : Chars) : Prop where
  balanced : braceDepth 0 f = 0
  last : f.getLast? ≠ some '#'
  noShell : ¬['#', '('] <:+: f

namespace Whole

theorem of_suffix {f b : Chars} (h : Whole f) (hb : b <:+ f) (hbal : braceDepth 0 b = 0) : Whole b where
  balanced := hbal
  last hlast := by
    obtain ⟨a, rfl⟩ := hb
    refine h.last ?_
    rw [List.getLast?_append, hlast]
    rfl
  noShell hs := h.noShell (hs.trans hb.isInfix)

theorem tail {c : Char} {f : Chars} (h : Whole (c :: f)) : Whole f := by
  refine h.of_suffix (List.suffix_cons c f) ?_
  have := braceDepth_tail_le c f
  rw [h.balanced] at this
  omega

/-- What a `#` begins is over before the next text. -/
theorem special_append {d : Char} {s : Chars} (h : Whole ('#' :: d :: s)) (g : Chars) :
    (special d s = none ∧ special d (s ++ g) = none) ∨
      ∃ token b, special d s = some (token, b) ∧ special d (s ++ g) = some (token, b ++ g) ∧ Whole b := by
  have hshell : d ≠ '(' := by
    rintro rfl
    exact h.noShell ⟨[], s, rfl⟩
  simp only [special, if_neg hshell]
  by_cases hd : d = '{'
  · subst hd
    have hbal := h.balanced
    rw [braceDepth_cons_cons] at hbal
    obtain ⟨a, b, hs, hg, hb, hsuf⟩ := findMatchingBrace_append hbal Nat.one_pos g
    refine .inr ⟨.expr a, b, by rw [if_pos rfl, hs]; rfl, by rw [if_pos rfl, hg]; rfl, ?_⟩
    exact h.of_suffix (hsuf.trans ((List.suffix_cons _ _).trans (List.suffix_cons _ _))) hb
  · by_cases hshort : d ∈ shorthands
    · refine .inr ⟨.short d, s, ?_, ?_, h.tail.tail⟩ <;> rw [if_neg hd, if_pos hshort]
    · refine .inl ⟨?_, ?_⟩ <;> rw [if_neg hd, if_neg hshort]

/-- The tokens of two texts in a row. -/
theorem tokens_append {f : Chars} (h : Whole f) (g : Chars) : tokens (f ++ g) = tokens f ++ tokens g := by
  induction hn : f.length using Nat.strong_induction_on generalizing f with
  | _ n ih =>
    match f, h with
    | [], _ => rfl
    | [c], h =>
      have hc : c ≠ '#' := fun hc => h.last (by rw [hc]; rfl)
      rw [List.singleton_append, tokens_cons hc, tokens_singleton, List.singleton_append]
    | c :: d :: s, h =>
      have htail := ih (d :: s).length (by rw [← hn]; exact Nat.lt_succ_self _) h.tail rfl
      by_cases hc : c = '#'
      · subst hc
        rw [List.cons_append, List.cons_append, tokens_cons_cons, tokens_cons_cons, if_pos rfl, if_pos rfl]
        obtain ⟨hs, hg⟩ | ⟨token, b, hs, hg, hb⟩ := h.special_append g
        · rw [hs, hg]
          exact congrArg _ htail
        · have hlen := length_special hs
          rw [hs, hg]
          refine congrArg _ (ih b.length ?_ hb rfl)
          rw [← hn, List.length_cons, List.length_cons]
          omega
      · rw [List.cons_append, tokens_cons hc, htail, tokens_cons hc]
        rfl

end Whole

end Winsmux.Format
