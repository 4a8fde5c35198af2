import Mathlib.Tactic

/-!
# Texts by their bytes

Texts are lists of characters. Where the program counts bytes, so do the lengths and the
offsets here: the first place a text holds another, the text from an offset on, and the
lower case of a text, which differs in length from the text.
-/
namespace Winsmux.CopyMode

/-- `str::len`. -/
def byteLen (t : List Char) : ℕ := (t.map Char.utf8Size).sum

@[simp] theorem byteLen_nil : byteLen [] = 0 := rfl

@[simp] theorem byteLen_cons (c : Char) (t : List Char) : byteLen (c :: t) = c.utf8Size + byteLen t := rfl

@[simp] theorem byteLen_append (s t : List Char) : byteLen (s ++ t) = byteLen s + byteLen t := by
  simp [byteLen]

theorem length_le_byteLen (t : List Char) : t.length ≤ byteLen t := by
  induction t with
  | nil => rfl
  | cons c t ih =>
    have hpos := c.utf8Size_pos
    rw [List.length_cons, byteLen_cons]
    omega

theorem byteLen_eq_length_iff {t : List Char} : byteLen t = t.length ↔ ∀ c ∈ t, c.utf8Size = 1 := by
  induction t with
  | nil => simp
  | cons c t ih =>
    have hpos := c.utf8Size_pos
    have hle := length_le_byteLen t
    rw [byteLen_cons, List.length_cons, List.forall_mem_cons, ← ih]
    omega

/-- `str::find`: the offset of the first place. -/
@[grind =] def find (needle : List Char) : List Char → Option ℕ
  | [] => if needle.isPrefixOf [] then some 0 else none
  | c :: t => if needle.isPrefixOf (c :: t) then some 0 else (find needle t).map (c.utf8Size + ·)

/-- `&text[start..]`, which fails where no character begins. -/
@[grind =] def sliceFrom : ℕ → List Char → Option (List Char)
  | 0, t => some t
  | _ + 1, [] => none
  | n + 1, c :: t => if c.utf8Size ≤ n + 1 then sliceFrom (n + 1 - c.utf8Size) t else none

theorem le_byteLen_of_sliceFrom {n : ℕ} {t rest : List Char} (h : sliceFrom n t = some rest) : n ≤ byteLen t := by
  fun_induction sliceFrom n t with
  | case1 t => exact Nat.zero_le _
  | case2 n => cases h
  | case3 n c t hle ih =>
    have hih := ih h
    rw [byteLen_cons]
    omega
  | case4 n c t hlt => cases h

theorem sliceFrom_append (front rest : List Char) : sliceFrom (byteLen front) (front ++ rest) = some rest := by
  induction front with
  | nil => simp [sliceFrom]
  | cons c front ih =>
    have hpos := c.utf8Size_pos
    obtain ⟨n, hn⟩ : ∃ n, byteLen (c :: front) = n + 1 := ⟨byteLen (c :: front) - 1, by rw [byteLen_cons]; omega⟩
    have hrest : n + 1 - c.utf8Size = byteLen front := by rw [byteLen_cons] at hn; omega
    rw [hn, List.cons_append, sliceFrom, if_pos (by rw [byteLen_cons] at hn; omega), hrest, ih]

/-- One byte into a longer character. -/
theorem sliceFrom_inside (front rest : List Char) {c : Char} (hc : 1 < c.utf8Size) :
    sliceFrom (byteLen front + 1) (front ++ c :: rest) = none := by
  induction front with
  | nil =>
    rw [byteLen_nil, List.nil_append, Nat.zero_add, sliceFrom, if_neg (by omega)]
  | cons d front ih =>
    have hpos := d.utf8Size_pos
    have hrest : byteLen (d :: front) + 1 - d.utf8Size = byteLen front + 1 := by rw [byteLen_cons]; omega
    rw [List.cons_append, sliceFrom, if_pos (by rw [byteLen_cons]; omega), hrest, ih]

/-- What the case tables say of a character. -/
structure CaseTable where
  lower : Char → List Char
  cased : Char → Bool
  caseIgnorable : Char → Bool
  lower_ne_nil : ∀ c, lower c ≠ []

/-- The tables where only the letters of ASCII have a case. -/
def asciiCase : CaseTable where
  lower c := [c.toLower]
  cased := Char.isAlpha
  caseIgnorable c := c ∈ ['\'', '.', ':', '^', '\x60']
  lower_ne_nil _ := List.cons_ne_nil _ _

namespace CaseTable
variable (table : CaseTable)

def caseIgnorableThenCased (chars : List Char) : Bool :=
  ((chars.dropWhile table.caseIgnorable).head?).any table.cased

/-- A sigma ends a word where a letter stands before it, and none behind it. -/
def mapUppercaseSigma (before after : List Char) : Char :=
  if table.caseIgnorableThenCased before && !table.caseIgnorableThenCased after then 'ς' else 'σ'

/-- The lower case of each character; `before` are the characters in front, from the last one. -/
def lowerPieces (before : List Char) : List Char → List (List Char)
  | [] => []
  | c :: t =>
    (if c = 'Σ' then [table.mapUppercaseSigma before t] else table.lower c) :: lowerPieces (c :: before) t

/-- `str::to_lowercase`. -/
def toLowercase (t : List Char) : List Char := (table.lowerPieces [] t).flatten

@[simp] theorem length_lowerPieces (before t : List Char) : (table.lowerPieces before t).length = t.length := by
  induction t generalizing before with
  | nil => rfl
  | cons c t ih => rw [lowerPieces, List.length_cons, ih, List.length_cons]

theorem ne_nil_of_mem_lowerPieces {before t piece : List Char} (h : piece ∈ table.lowerPieces before t) :
    piece ≠ [] := by
  induction t generalizing before with
  | nil => cases h
  | cons c t ih =>
    rcases List.mem_cons.1 h with rfl | h
    · split
      · exact List.cons_ne_nil _ _
      · exact table.lower_ne_nil c
    · exact ih h

theorem toLowercase_ne_nil {t : List Char} (h : t ≠ []) : table.toLowercase t ≠ [] := by
  cases t with
  | nil => exact absurd rfl h
  | cons c t =>
    have hpiece := @ne_nil_of_mem_lowerPieces table [] (c :: t) _ List.mem_cons_self
    rw [toLowercase, lowerPieces, List.flatten_cons]
    exact List.append_ne_nil_of_left_ne_nil hpiece _

end CaseTable

example : asciiCase.toLowercase "AÉ Σ ΑΣ.".toList = "aÉ σ Ασ.".toList := by decide

/-- The places, counted in characters. -/
def occurrences (needle text : List Char) : List ℕ :=
  (List.range text.length).filter fun k => needle.isPrefixOf (text.drop k)

theorem mem_occurrences {needle text : List Char} {k : ℕ} :
    k ∈ occurrences needle text ↔ k < text.length ∧ needle <+: text.drop k := by
  simp [occurrences]

theorem occurrences_cons (needle : List Char) (c : Char) (t : List Char) :
    occurrences needle (c :: t) =
      (if needle.isPrefixOf (c :: t) then [0] else []) ++ (occurrences needle t).map (· + 1) := by
  rw [occurrences, List.length_cons, List.range_succ_eq_map, List.filter_cons, List.filter_map]
  split <;> simp_all [occurrences, Function.comp_def]

end Winsmux.CopyMode
