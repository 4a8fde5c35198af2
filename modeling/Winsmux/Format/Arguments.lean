import Winsmux.Format.Expand
import Winsmux.Format.Pieces

/-!
# Arguments of modifiers

A match or a sum expands its two arguments, joins the values with a comma and splits the
joined text again. The two values come back exactly if the scan for commas passes over both
of them without finding one and leaves the first as it began; the values of variables can
hold anything, so they need not. Numbers always come back.
-/
namespace Winsmux.Format
open CharText

/-- Where the scan for commas stands after a text: how many expressions are open, and
whether a style is; none where it found a comma. -/
def scan : ℕ → Bool → Chars → Option (ℕ × Bool)
  | depth, inStyle, [] => some (depth, inStyle)
  | depth, inStyle, [c] =>
    if c = '}' ∧ depth > 0 then some (depth - 1, inStyle)
    else if c = ']' ∧ inStyle then some (depth, false)
    else if c = ',' ∧ depth = 0 ∧ !inStyle then none
    else some (depth, inStyle)
  | depth, inStyle, c :: d :: s =>
    if c = '#' ∧ d = '{' then scan (depth + 1) inStyle s
    else if c = '}' ∧ depth > 0 then scan (depth - 1) inStyle (d :: s)
    else if c = '#' ∧ d = '[' ∧ !inStyle then scan depth true s
    else if c = ']' ∧ inStyle then scan depth false (d :: s)
    else if c = '#' ∧ d = ',' ∧ depth = 0 then scan depth inStyle s
    else if c = ',' ∧ depth = 0 ∧ !inStyle then none
    else scan depth inStyle (d :: s)

theorem glue_eq_cons {front a : Chars} {parts rest : List Chars} (h : parts ≠ []) :
    glue front parts = (front ++ a) :: rest ↔ parts = a :: rest := by
  cases parts with
  | nil => exact absurd rfl h
  | cons part parts => simp [glue]

/-- A text in which the scan finds no comma is one part. -/
theorem splitFrom_eq_singleton_iff (depth : ℕ) (inStyle : Bool) (s : Chars) :
    splitFrom ',' depth inStyle s = [s] ↔ (scan depth inStyle s).isSome := by
  have hne := splitFrom_ne_nil ','
  fun_induction scan depth inStyle s with
  | case1 => simp [splitFrom]
  | case2 depth inStyle c h => simp [splitFrom, h.1]
  | case3 depth inStyle c _ h => simp [splitFrom, h.1]
  | case4 depth inStyle c _ _ h => simp [splitFrom, h]
  | case5 depth inStyle c _ _ h => simpa [splitFrom] using h
  | case11 depth inStyle c d s h₁ h₂ h₃ h₄ h₅ h₆ =>
    rw [splitFrom, if_neg h₁, if_neg h₂, if_neg h₃, if_neg h₄, if_neg h₅, if_pos h₆]
    simp
  | case6 depth inStyle c d s h ih =>
    rw [splitFrom, if_pos h]
    exact (glue_eq_cons (hne _ _ _)).trans ih
  | case7 depth inStyle c d s h₁ h ih =>
    rw [splitFrom, if_neg h₁, if_pos h]
    exact (@glue_eq_cons [c] _ _ _ (hne _ _ _)).trans ih
  | case8 depth inStyle c d s h₁ h₂ h ih =>
    rw [splitFrom, if_neg h₁, if_neg h₂, if_pos h]
    exact (glue_eq_cons (hne _ _ _)).trans ih
  | case9 depth inStyle c d s h₁ h₂ h₃ h ih =>
    rw [splitFrom, if_neg h₁, if_neg h₂, if_neg h₃, if_pos h]
    exact (@glue_eq_cons [c] _ _ _ (hne _ _ _)).trans ih
  | case10 depth inStyle c d s h₁ h₂ h₃ h₄ h ih =>
    rw [splitFrom, if_neg h₁, if_neg h₂, if_neg h₃, if_neg h₄, if_pos h]
    exact (glue_eq_cons (hne _ _ _)).trans ih
  | case12 depth inStyle c d s h₁ h₂ h₃ h₄ h₅ h₆ ih =>
    rw [splitFrom, if_neg h₁, if_neg h₂, if_neg h₃, if_neg h₄, if_neg h₅, if_neg h₆]
    exact (@glue_eq_cons [c] _ _ _ (hne _ _ _)).trans ih

/-- The scan at a comma. -/
theorem splitFrom_comma (depth : ℕ) (inStyle : Bool) (b : Chars) :
    splitFrom ',' depth inStyle (',' :: b) =
      if depth = 0 ∧ !inStyle then [] :: splitFrom ',' depth inStyle b
      else glue [','] (splitFrom ',' depth inStyle b) := by
  cases b with
  | nil => simp [splitFrom, glue]
  | cons d b => simp [splitFrom]

theorem splitFrom_comma_eq_cons_iff (depth : ℕ) (inStyle : Bool) (b : Chars) (rest : List Chars) :
    splitFrom ',' depth inStyle (',' :: b) = [] :: rest ↔
      (depth, inStyle) = (0, false) ∧ rest = splitFrom ',' 0 false b := by
  rw [splitFrom_comma]
  split
  · rename_i h
    obtain ⟨rfl, hst⟩ := h
    simp only [Bool.not_eq_true'] at hst
    subst hst
    simp [eq_comm]
  · rename_i h
    have hglue : glue [','] (splitFrom ',' depth inStyle b) ≠ [] :: rest := by
      cases splitFrom ',' depth inStyle b <;> simp [glue]
    refine iff_of_false hglue fun hb => h ?_
    cases hb.1
    exact ⟨rfl, rfl⟩

theorem getLast_pair_ne_hash {c d : Char} (h : d ≠ '#') (s : Chars) :
    (c :: d :: s).getLast? ≠ some '#' ↔ s.getLast? ≠ some '#' := by
  cases s with
  | nil => simp [h]
  | cons e s => rfl

/-- The first part ends before the comma put after a text, if the scan leaves the text as it
began a format and the comma is not escaped. -/
theorem splitFrom_append_iff (depth : ℕ) (inStyle : Bool) (a b : Chars) (rest : List Chars) :
    splitFrom ',' depth inStyle (a ++ ',' :: b) = a :: rest ↔
      scan depth inStyle a = some (0, false) ∧ a.getLast? ≠ some '#' ∧ rest = splitFrom ',' 0 false b := by
  have hne := splitFrom_ne_nil ','
  fun_induction scan depth inStyle a with
  | case1 depth inStyle =>
    rw [List.nil_append, splitFrom_comma_eq_cons_iff]
    simp
  | case2 depth inStyle c h =>
    rw [List.singleton_append, splitFrom, if_neg (by simp [h.1]), if_pos h]
    refine (@glue_eq_cons [c] [] _ _ (hne _ _ _)).trans ?_
    rw [splitFrom_comma_eq_cons_iff]
    simp [h.1]
  | case3 depth inStyle c h₁ h =>
    rw [List.singleton_append, splitFrom, if_neg (by simp [h.1]), if_neg h₁, if_neg (by simp [h.1]), if_pos h]
    refine (@glue_eq_cons [c] [] _ _ (hne _ _ _)).trans ?_
    rw [splitFrom_comma_eq_cons_iff]
    simp [h.1]
  | case4 depth inStyle c h₁ h₂ h =>
    rw [List.singleton_append, splitFrom, if_neg (by simp [h.1]), if_neg h₁, if_neg (by simp [h.1]), if_neg h₂,
      if_neg (by simp [h.1]), if_pos h]
    simp
  | case5 depth inStyle c h₁ h₂ h₃ =>
    rw [List.singleton_append, splitFrom, if_neg (by simp), if_neg h₁, if_neg (by simp), if_neg h₂]
    split
    · -- an escaped comma is no end of the part
      rename_i h
      refine iff_of_false ?_ fun hb => hb.2.1 (by rw [h.1]; rfl)
      cases splitFrom ',' depth inStyle b <;> simp [glue]
    · rename_i h
      refine (@glue_eq_cons [c] [] _ _ (hne _ _ _)).trans ?_
      rw [splitFrom_comma_eq_cons_iff]
      refine ⟨fun hb => ⟨congrArg some hb.1, fun hlast => h ?_, hb.2⟩, fun hb => ⟨Option.some.inj hb.1, hb.2.2⟩⟩
      cases hlast
      cases hb.1
      exact ⟨rfl, rfl, rfl⟩
  | case11 depth inStyle c d s h₁ h₂ h₃ h₄ h₅ h₆ =>
    rw [List.cons_append, List.cons_append, splitFrom, if_neg h₁, if_neg h₂, if_neg h₃, if_neg h₄, if_neg h₅,
      if_pos h₆]
    simp
  | case6 depth inStyle c d s h ih =>
    rw [List.cons_append, List.cons_append, splitFrom, if_pos h, getLast_pair_ne_hash (by simp [h.2])]
    exact (@glue_eq_cons [c, d] _ _ _ (hne _ _ _)).trans ih
  | case7 depth inStyle c d s h₁ h ih =>
    rw [List.cons_append, List.cons_append, splitFrom, if_neg h₁, if_pos h, List.getLast?_cons_cons]
    exact (@glue_eq_cons [c] _ _ _ (hne _ _ _)).trans ih
  | case8 depth inStyle c d s h₁ h₂ h ih =>
    rw [List.cons_append, List.cons_append, splitFrom, if_neg h₁, if_neg h₂, if_pos h,
      getLast_pair_ne_hash (by simp [h.2.1])]
    exact (@glue_eq_cons [c, d] _ _ _ (hne _ _ _)).trans ih
  | case9 depth inStyle c d s h₁ h₂ h₃ h ih =>
    rw [List.cons_append, List.cons_append, splitFrom, if_neg h₁, if_neg h₂, if_neg h₃, if_pos h,
      List.getLast?_cons_cons]
    exact (@glue_eq_cons [c] _ _ _ (hne _ _ _)).trans ih
  | case10 depth inStyle c d s h₁ h₂ h₃ h₄ h ih =>
    rw [List.cons_append, List.cons_append, splitFrom, if_neg h₁, if_neg h₂, if_neg h₃, if_neg h₄, if_pos h,
      getLast_pair_ne_hash (by simp [h.2.1])]
    exact (@glue_eq_cons [c, d] _ _ _ (hne _ _ _)).trans ih
  | case12 depth inStyle c d s h₁ h₂ h₃ h₄ h₅ h₆ ih =>
    rw [List.cons_append, List.cons_append, splitFrom, if_neg h₁, if_neg h₂, if_neg h₃, if_neg h₄, if_neg h₅,
      if_neg h₆, List.getLast?_cons_cons]
    exact (@glue_eq_cons [c] _ _ _ (hne _ _ _)).trans ih

/-- Values that a comma can be put between: the first leaves no expression and no style open
and does not end in `#`, and a comma in either of them is inside of those or escaped. -/
structure Separable (a b : Chars) : Prop where
  first : scan 0 false a = some (0, false)
  last : a.getLast? ≠ some '#'
  second : (scan 0 false b).isSome

/-- The two values come back as the first two parts. -/
theorem splitAtDepth0_join_iff (a b : Chars) :
    (∃ rest, splitAtDepth0 (a ++ ',' :: b) ',' = a :: b :: rest) ↔ Separable a b := by
  have hb : ∀ rest, b :: rest = splitFrom ',' 0 false b ↔ rest = [] ∧ splitFrom ',' 0 false b = [b] := by
    intro rest
    refine ⟨fun h => ?_, fun h => by rw [h.1, h.2]⟩
    have hjoin := intercalate_splitFrom ',' 0 false b
    rw [← h] at hjoin ⊢
    cases rest with
    | nil => exact ⟨rfl, rfl⟩
    | cons part parts =>
      have hlen := congrArg List.length hjoin
      rw [List.intercalate_cons_cons] at hlen
      simp only [List.length_append, List.length_singleton] at hlen
      omega
  simp only [splitAtDepth0, splitFrom_append_iff, hb]
  constructor
  · rintro ⟨rest, hscan, hlast, -, hs⟩
    exact ⟨hscan, hlast, (splitFrom_eq_singleton_iff _ _ _).1 hs⟩
  · intro h
    exact ⟨[], h.first, h.last, rfl, (splitFrom_eq_singleton_iff _ _ _).2 h.second⟩

/-- What a modifier with two arguments computes from them, and what it gives without two. -/
def twoArguments {α : Type} (otherwise : α) (compute : Chars → Chars → α) (value : Chars) : α :=
  match splitAtDepth0 value ',' with
  | a :: b :: _ => compute a b
  | _ => otherwise

theorem twoArguments_of_separable {α : Type} {a b : Chars} (h : Separable a b) (otherwise : α)
    (compute : Chars → Chars → α) : twoArguments otherwise compute (a ++ ',' :: b) = compute a b := by
  obtain ⟨rest, hs⟩ := (splitAtDepth0_join_iff a b).2 h
  rw [twoArguments, hs]

theorem twoArguments_eq_iff (a b : Chars) :
    (∀ compute, twoArguments ['0'] compute (a ++ ',' :: b) = compute a b) ↔ Separable a b := by
  refine ⟨fun h => (splitAtDepth0_join_iff a b).1 ?_, fun h => twoArguments_of_separable h ['0']⟩
  -- a computation that gives both of its arguments away
  have hfirst := h fun x y => if x = a ∧ y = b then ['1'] else []
  rw [if_pos ⟨rfl, rfl⟩, twoArguments] at hfirst
  match hs : splitAtDepth0 (a ++ ',' :: b) ',' with
  | [] => rw [hs] at hfirst; cases hfirst
  | [_] => rw [hs] at hfirst; cases hfirst
  | x :: y :: rest =>
    rw [hs] at hfirst
    dsimp only at hfirst
    split at hfirst
    · rename_i hxy
      rw [hxy.1, hxy.2]
      exact ⟨rest, rfl⟩
    · cases hfirst

/-- Plain text neither opens anything nor separates. -/
theorem scan_of_plain {s : Chars} (h : ∀ c ∈ s, c ≠ '#' ∧ c ≠ ',') : scan 0 false s = some (0, false) := by
  induction s with
  | nil => rfl
  | cons c s ih =>
    have hc := h c List.mem_cons_self
    have hs := ih fun d hd => h d (List.mem_cons_of_mem c hd)
    cases s with
    | nil => simp [scan, hc.2]
    | cons d s => simpa [scan, hc.1, hc.2] using hs

theorem Separable.of_plain {a b : Chars} (ha : ∀ c ∈ a, c ≠ '#' ∧ c ≠ ',') (hb : ∀ c ∈ b, c ≠ '#' ∧ c ≠ ',') :
    Separable a b where
  first := scan_of_plain ha
  last h := (ha '#' (List.mem_of_getLast? h)).1 rfl
  second := by
    rw [scan_of_plain hb]
    rfl

theorem isDigit_of_digits {s : Chars} {n : ℕ} (h : digits s = some n) : ∀ c ∈ s, c.isDigit := by
  rw [digits] at h
  split at h
  · cases h
  · rename_i hs
    simpa using fun hall => hs (.inr hall)

/-- A number is digits after a sign. -/
theorem plain_of_parseSigned {bits : ℕ} {s : Chars} {z : ℤ} (h : parseSigned bits s = some z) :
    ∀ c ∈ s, c ≠ '#' ∧ c ≠ ',' := by
  have hdigit : ∀ {t : Chars} {n : ℕ}, digits t = some n → ∀ c ∈ t, c ≠ '#' ∧ c ≠ ',' := by
    intro t n ht c hc
    have hcd := isDigit_of_digits ht c hc
    refine ⟨?_, ?_⟩ <;> rintro rfl <;> exact absurd hcd (by decide)
  have hsigned : ∀ {t : Chars} {f : ℕ → ℤ} {sign : Char}, sign ≠ '#' ∧ sign ≠ ',' →
      (digits t).map f = some z → ∀ c ∈ sign :: t, c ≠ '#' ∧ c ≠ ',' := by
    intro t f sign hsign hmap c hc
    obtain ⟨n, hn, -⟩ := Option.map_eq_some_iff.1 hmap
    rcases List.mem_cons.1 hc with rfl | hc
    · exact hsign
    · exact hdigit hn c hc
  obtain ⟨hz, -⟩ := Option.filter_eq_some_iff.1 h
  split at hz
  · exact hsigned (by decide) hz
  · exact hsigned (by decide) hz
  · obtain ⟨n, hn, -⟩ := Option.map_eq_some_iff.1 hz
    exact hdigit hn

section
variable {m : Type → Type} [Monad m] [LawfulMonad m] (fx : Effects m) (outside : Outside) (app : App)
  (nested again : Chars → ℕ → m Chars)

theorem parseModifierChain_match : parseModifierChain fx ['m'] = pure [.match false false] := by
  have hsplit : splitAtDepth0 ['m'] ';' = [['m']] := rfl
  simp [parseModifierChain, hsplit, parseSingleModifier, afterFirstByte]

theorem parseModifierChain_math {op : Char} (h : op ∈ ['+', '-', '*', '/', 'm']) :
    parseModifierChain fx ['e', '|', op] = pure [.mathExpr op false 0] := by
  have hsplit : splitAtDepth0 ['e', '|', op] ';' = [['e', '|', op]] := by
    fin_cases h <;> rfl
  fin_cases h <;> simp [parseModifierChain, hsplit, parseSingleModifier, afterFirstByte, splitn]

/-- A chain of one modifier with two arguments. -/
theorem expandChain_two {first : Char} {body spec A B : Chars} {modifier : Modifier} (winIdx : ℕ)
    (hstart : first ∈ modifierStarts) (hliteral : first ≠ 'l')
    (hcolon : findModifierColon (first :: body) = some (spec, A ++ ',' :: B))
    (hparse : parseModifierChain fx spec = pure [modifier]) (hraw : modifier.needsRawTarget = true)
    (hsplit : splitAtDepth0 (A ++ ',' :: B) ',' = [A, B]) :
    expandChain fx outside app nested again (first :: body) winIdx = (do
      let a ← expandVarOrFormat fx outside app nested A winIdx
      let b ← expandVarOrFormat fx outside app nested B winIdx
      applyModifier fx outside app again modifier (a ++ ',' :: b) winIdx) := by
  rw [expandChain, tryExpandModifierChain, if_neg (by simpa using hstart), hcolon]
  dsimp only
  rw [if_neg (by simpa using hliteral), hparse]
  simp [expandTarget, hraw, hsplit, applyModifiers]

theorem expandExpression_match {A B : Chars} (winIdx : ℕ)
    (hsplit : splitAtDepth0 (A ++ ',' :: B) ',' = [A, B]) :
    expandExpression fx outside app nested again ('m' :: ':' :: (A ++ ',' :: B)) winIdx = (do
      let a ← expandVarOrFormat fx outside app nested A winIdx
      let b ← expandVarOrFormat fx outside app nested B winIdx
      pure (matchExpr outside false false (a ++ ',' :: b))) := by
  have hcolon : findModifierColon ('m' :: ':' :: (A ++ ',' :: B)) = some (['m'], A ++ ',' :: B) := by
    simp [findModifierColon, modifierColonFrom]
  have hloop : loopOf ('m' :: ':' :: (A ++ ',' :: B)) = none := by
    cases A <;> rfl
  have hchain := expandChain_two fx outside app nested again winIdx (by decide) (by decide) hcolon
    (parseModifierChain_match fx) rfl hsplit
  rw [expandExpression, if_neg (by decide), hloop]
  exact hchain

theorem expandExpression_math {op : Char} (hop : op ∈ ['+', '-', '*', '/', 'm']) {A B : Chars} (winIdx : ℕ)
    (hsplit : splitAtDepth0 (A ++ ',' :: B) ',' = [A, B]) :
    expandExpression fx outside app nested again ('e' :: '|' :: op :: ':' :: (A ++ ',' :: B)) winIdx = (do
      let a ← expandVarOrFormat fx outside app nested A winIdx
      let b ← expandVarOrFormat fx outside app nested B winIdx
      mathExpr fx outside op false 0 (a ++ ',' :: b)) := by
  have hcolon : findModifierColon ('e' :: '|' :: op :: ':' :: (A ++ ',' :: B)) =
      some (['e', '|', op], A ++ ',' :: B) := by
    fin_cases hop <;> simp [findModifierColon, modifierColonFrom]
  have hchain := expandChain_two fx outside app nested again winIdx (by decide) (by decide) hcolon
    (parseModifierChain_math fx hop) rfl hsplit
  have hloop : loopOf ('e' :: '|' :: op :: ':' :: (A ++ ',' :: B)) = none := rfl
  rw [expandExpression, if_neg (by decide), hloop]
  exact hchain

end

/-- What a match, and an operation on integers, get from the values of their arguments. -/
theorem values_are_arguments_iff (outside : Outside) (app : App) (n : ℕ) {A B : Chars}
    (hsplit : splitAtDepth0 (A ++ ',' :: B) ',' = [A, B]) (winIdx : ℕ) {s s₁ s₂ : Option ℕ} {a b : Chars}
    (ha : (expandVarOrFormat running outside app (expandFormatForWindow running outside app n) A winIdx).run s =
      .ok (a, s₁))
    (hb : (expandVarOrFormat running outside app (expandFormatForWindow running outside app n) B winIdx).run s₁ =
      .ok (b, s₂)) :
    (expandExpression running outside app (expandFormatForWindow running outside app n)
        (expandFormatForWindow running outside app n) ('m' :: ':' :: (A ++ ',' :: B)) winIdx).run s =
      .ok (twoArguments ['0'] (fun pattern subject => flag (globMatch outside pattern subject false))
        (a ++ ',' :: b), s₂) ∧
    (∀ op ∈ ['+', '-', '*', '/', 'm'],
      (expandExpression running outside app (expandFormatForWindow running outside app n)
          (expandFormatForWindow running outside app n) ('e' :: '|' :: op :: ':' :: (A ++ ',' :: B)) winIdx).run s =
        (twoArguments (pure ['0']) (fun x y => do
          let r ← intMath running outside op ((parseSigned 64 x).getD 0) ((parseSigned 64 y).getD 0)
          pure (decimalInt r)) (a ++ ',' :: b)).run s₂) ∧
    ((∀ compute, twoArguments ['0'] compute (a ++ ',' :: b) = compute a b) ↔ Separable a b) ∧
    ((parseSigned 64 a).isSome → (parseSigned 64 b).isSome → Separable a b) := by
  refine ⟨?_, fun op hop => ?_, twoArguments_eq_iff a b, fun hx hy => ?_⟩
  · rw [expandExpression_match running outside app _ _ winIdx hsplit, run_bind_ok ha, run_bind_ok hb]
    rfl
  · rw [expandExpression_math running outside app _ _ hop winIdx hsplit, run_bind_ok ha, run_bind_ok hb]
    rfl
  · obtain ⟨x, hx⟩ := Option.isSome_iff_exists.1 hx
    obtain ⟨y, hy⟩ := Option.isSome_iff_exists.1 hy
    exact .of_plain (plain_of_parseSigned hx) (plain_of_parseSigned hy)

/-- The name of a window that ends in `#` does not match itself: the comma after it is taken
as escaped. -/
theorem value_is_no_argument :
    (expandFormatForWindow running .bare (.sample "C#".toList fun _ => none) 3
      "#{m:#{window_name},#{window_name}}".toList 0).run none = .ok (['0'], none) ∧
    globMatch .bare "C#".toList "C#".toList false = true := by
  have hbytes : Json.utf8 "C#" = [0x43, 0x23] := by decide
  refine ⟨by decide, ?_⟩
  change globLoop none (Json.utf8 "C#") (Json.utf8 "C#") = true
  rw [hbytes]
  simp [globLoop]

/-- Plain names are given as they are. -/
theorem values_are_arguments_plain :
    (expandExpression running .bare (.sample "C".toList fun _ => none)
        (expandFormatForWindow running .bare (.sample "C".toList fun _ => none) 1)
        (expandFormatForWindow running .bare (.sample "C".toList fun _ => none) 1)
        "m:C,#{window_name}".toList 0).run none =
      .ok (twoArguments ['0'] (fun pattern subject => flag (globMatch .bare pattern subject false))
        "C,C".toList, none) :=
  (@values_are_arguments_iff .bare (.sample "C".toList fun _ => none) 1 ['C']
    "#{window_name}".toList (by decide) 0 none none none ['C'] ['C'] (by decide) (by decide)).1

end Winsmux.Format
