import Winsmux.Decimal

/-!
# Lines of a text

Blank text, byte order marks, and the lines of a text: a line ends at a newline,
with the carriage return before it; the last one need not end.
-/
namespace Winsmux.Json

/-- A whitespace character of one byte, of two and of three. -/
def space1 (a : UInt8) : Bool := 0x09 ≤ a && a ≤ 0x0d || a = 0x20

def space2 (a b : UInt8) : Bool := a = 0xc2 && (b = 0x85 || b = 0xa0)

def space3 (a b c : UInt8) : Bool :=
  a = 0xe1 && b = 0x9a && c = 0x80 ||
    a = 0xe2 && b = 0x80 && (0x80 ≤ c && c ≤ 0x8a || c = 0xa8 || c = 0xa9 || c = 0xaf) ||
    a = 0xe2 && b = 0x81 && c = 0x9f ||
    a = 0xe3 && b = 0x80 && c = 0x80

@[grind =] def trimStart : Text → Text
  | [] => []
  | [a] => if space1 a then [] else [a]
  | [a, b] => if space1 a then trimStart [b] else if space2 a b then [] else [a, b]
  | a :: b :: c :: t =>
    if space1 a then trimStart (b :: c :: t)
    else if space2 a b then trimStart (c :: t)
    else if space3 a b c then trimStart t
    else a :: b :: c :: t

/-- `trimStart` on the bytes in reverse. -/
def trimReversed : Text → Text
  | [] => []
  | [a] => if space1 a then [] else [a]
  | [b, a] => if space1 b then trimReversed [a] else if space2 a b then [] else [b, a]
  | c :: b :: a :: t =>
    if space1 c then trimReversed (b :: a :: t)
    else if space2 b c then trimReversed (a :: t)
    else if space3 a b c then trimReversed t
    else c :: b :: a :: t

def trim (t : Text) : Text := (trimReversed (trimStart t).reverse).reverse

def toAsciiLowercase (t : Text) : Text :=
  t.map fun c => if 0x41 ≤ c && c ≤ 0x5a then c + 0x20 else c

def eqIgnoreAsciiCase (s t : Text) : Bool := toAsciiLowercase s = toAsciiLowercase t

/-- Nothing but whitespace. -/
def isBlank (t : Text) : Bool := trimStart t = []

/-- A byte of a character that is printed and is no space. -/
def isGraphic (c : UInt8) : Bool := 0x21 ≤ c && c ≤ 0x7e

theorem isGraphic_not_space {c : UInt8} (h : isGraphic c = true) :
    space1 c = false ∧ (∀ b, space2 c b = false ∧ space2 b c = false) ∧
      ∀ a b, space3 c a b = false ∧ space3 a b c = false := by
  simp only [isGraphic, Bool.and_eq_true, decide_eq_true_eq, UInt8.le_iff_toNat_le] at h
  have hlt : c.toNat ≤ 126 := h.2
  have hne : ∀ d : UInt8, 126 < d.toNat → c ≠ d := by
    rintro d hd rfl
    omega
  have h1 : space1 c = false := by
    have hlo : 33 ≤ c.toNat := h.1
    have hspace : c ≠ 0x20 := by rintro rfl; exact absurd hlo (by decide)
    simp only [space1, Bool.or_eq_false_iff, Bool.and_eq_false_iff, decide_eq_false_iff_not,
      UInt8.le_iff_toNat_le, hspace, not_false_eq_true, and_true]
    right
    exact fun hle => absurd (hlo.trans hle) (by decide)
  refine ⟨h1, fun b => ⟨?_, ?_⟩, fun a b => ⟨?_, ?_⟩⟩
  · simp [space2, hne 0xc2 (by decide)]
  · simp [space2, hne 0x85 (by decide), hne 0xa0 (by decide)]
  · simp [space3, hne 0xe1 (by decide), hne 0xe2 (by decide), hne 0xe3 (by decide)]
  · have hhigh : ¬(0x80 : UInt8) ≤ c := by
      rw [UInt8.le_iff_toNat_le]
      exact fun hle => absurd (hle.trans hlt) (by decide)
    simp [space3, hhigh, hne 0x80 (by decide), hne 0xa8 (by decide), hne 0xa9 (by decide),
      hne 0xaf (by decide), hne 0x9f (by decide)]

theorem trimStart_graphic {c : UInt8} (h : isGraphic c = true) (t : Text) :
    trimStart (c :: t) = c :: t := by
  obtain ⟨h1, h2, h3⟩ := isGraphic_not_space h
  match t with
  | [] => simp [trimStart, h1]
  | [b] => simp [trimStart, h1, (h2 b).1]
  | b :: d :: t => simp [trimStart, h1, (h2 b).1, (h3 b d).1]

theorem trimReversed_graphic {c : UInt8} (h : isGraphic c = true) (t : Text) :
    trimReversed (c :: t) = c :: t := by
  obtain ⟨h1, h2, h3⟩ := isGraphic_not_space h
  match t with
  | [] => simp [trimReversed, h1]
  | [b] => simp [trimReversed, h1, (h2 b).2]
  | b :: d :: t => simp [trimReversed, h1, (h2 b).2, (h3 d b).2]

theorem trim_graphic {t : Text} (h : ∀ c ∈ t, isGraphic c = true) : trim t = t := by
  have hstart : trimStart t = t := by
    cases t with
    | nil => rfl
    | cons c t => exact trimStart_graphic (h c List.mem_cons_self) t
  have hend : trimReversed t.reverse = t.reverse := by
    cases hr : t.reverse with
    | nil => rfl
    | cons c u => exact trimReversed_graphic (h c (List.mem_reverse.1 (by rw [hr]; exact List.mem_cons_self))) u
  rw [trim, hstart, hend, List.reverse_reverse]

theorem isGraphic_of_isDigit {c : UInt8} (h : isDigit c = true) : isGraphic c = true := by
  simp only [isDigit, isGraphic, Bool.and_eq_true, decide_eq_true_eq, UInt8.le_iff_toNat_le] at h ⊢
  exact ⟨le_trans (by decide) h.1, h.2.trans (by decide)⟩

theorem trim_decimal (n : ℕ) : trim (decimal n) = decimal n :=
  trim_graphic fun _ hc => isGraphic_of_isDigit (isDigit_of_mem_decimal hc)

/-- The text without the byte order marks at its start. -/
def trimBom : Text → Text
  | 0xef :: 0xbb :: 0xbf :: t => trimBom t
  | t => t

abbrev newline : UInt8 := 0x0a

abbrev carriageReturn : UInt8 := 0x0d

/-- A text cut behind each newline. -/
@[grind =] def segments : Text → List Text
  | [] => []
  | c :: t =>
    if c = newline then [c] :: segments t
    else
      match segments t with
      | [] => [[c]]
      | s :: ss => (c :: s) :: ss

/-- A segment without its newline and the carriage return before that. -/
def dropTerminator (s : Text) : Text :=
  if s.getLast? = some newline then
    if s.dropLast.getLast? = some carriageReturn then s.dropLast.dropLast else s.dropLast
  else s

def lines (t : Text) : List Text := (segments t).map dropTerminator

/-- How long the whitespace character at the front of a text is; zero where there is none. -/
def spaceLength : Text → ℕ
  | [] => 0
  | [a] => if space1 a then 1 else 0
  | [a, b] => if space1 a then 1 else if space2 a b then 2 else 0
  | a :: b :: c :: _ => if space1 a then 1 else if space2 a b then 2 else if space3 a b c then 3 else 0

/-- The field at the front of a text and those after it; some bytes are skipped first. -/
def splitSpaces : ℕ → Text → Text × List Text
  | _, [] => ([], [])
  | skip + 1, _ :: t => splitSpaces skip t
  | 0, c :: t =>
    match spaceLength (c :: t) with
    | 0 =>
      let (field, rest) := splitSpaces 0 t
      (c :: field, rest)
    | n + 1 =>
      let (field, rest) := splitSpaces n t
      ([], if field = [] then rest else field :: rest)

/-- The fields of a text between whitespace. -/
def splitWhitespace (t : Text) : List Text :=
  let (field, rest) := splitSpaces 0 t
  if field = [] then rest else field :: rest

example : splitWhitespace [0x20, 0x61, 0xc2, 0xa0, 0x62, 0x63, 0x20] = [[0x61], [0x62, 0x63]] := by decide

/-- The pieces of a text between separators. -/
def splitOn (sep : UInt8) : Text → List Text
  | [] => [[]]
  | c :: t =>
    if c = sep then [] :: splitOn sep t
    else
      match splitOn sep t with
      | [] => [[c]]
      | piece :: pieces => (c :: piece) :: pieces

/-- The text with its last line ended. -/
def endLine (t : Text) : Text :=
  if t = [] ∨ t.getLast? = some newline then t else t ++ [newline]

/-- A line is put behind a text. -/
def appendLine (t line : Text) : Text := endLine t ++ (line ++ [newline])

theorem space1_carriageReturn : space1 carriageReturn = true := by decide

theorem space2_carriageReturn (a : UInt8) : space2 a carriageReturn = false := by
  simp [space2, carriageReturn]

theorem space3_carriageReturn (a b : UInt8) : space3 a b carriageReturn = false := by
  have h1 : carriageReturn ≠ 0x80 ∧ carriageReturn ≠ 0x9f ∧ carriageReturn ≠ 0xa8 ∧
      carriageReturn ≠ 0xa9 ∧ carriageReturn ≠ 0xaf := by decide
  have h2 : ¬ 0x80 ≤ carriageReturn := by decide
  simp only [space3, h1, h2, decide_false, Bool.false_and, Bool.and_false, Bool.or_false]

theorem isBlank_append_carriageReturn (t : Text) :
    isBlank (t ++ [carriageReturn]) = isBlank t := by
  unfold isBlank
  congr 1
  induction t using trimStart.induct with
  | case1 => simp [trimStart, space1_carriageReturn]
  | case2 a h => simp [trimStart, h, space1_carriageReturn]
  | case3 a h => simp [trimStart, h, space2_carriageReturn]
  | case4 a b h ih => simpa [trimStart, h] using ih
  | case5 a b h h2 => simp [trimStart, h, h2, space1_carriageReturn]
  | case6 a b h h2 => simp [trimStart, h, h2, space3_carriageReturn]
  | case7 a b c t h ih => simpa [trimStart, h] using ih
  | case8 a b c t h h2 ih => simpa [trimStart, h, h2] using ih
  | case9 a b c t h h2 h3 ih => simpa [trimStart, h, h2, h3] using ih
  | case10 a b c t h h2 h3 => simp [trimStart, h, h2, h3]

theorem trimBom_append_carriageReturn (t : Text) :
    trimBom (t ++ [carriageReturn]) = trimBom t ++ [carriageReturn] := by
  induction t using trimBom.induct with
  | case1 t ih => simpa [trimBom] using ih
  | case2 t h =>
    match t with
    | [] => simp [trimBom]
    | [a] => simp [trimBom]
    | [a, b] =>
      rw [trimBom.eq_2 _ h, List.cons_append, List.cons_append, List.nil_append, trimBom.eq_2]
      rintro s ⟨⟩
    | a :: b :: c :: t =>
      rw [trimBom.eq_2 _ h, List.cons_append, List.cons_append, List.cons_append, trimBom.eq_2]
      rintro s ⟨⟩
      exact h t rfl

theorem trimBom_eq_self {c : UInt8} {t : Text} (hc : c ≠ 0xef) : trimBom (c :: t) = c :: t := by
  rw [trimBom.eq_2]
  rintro s ⟨⟩
  exact hc rfl

theorem not_isBlank_of_head {c : UInt8} {t : Text} (h1 : space1 c = false)
    (h2 : c ≠ 0xc2 ∧ c ≠ 0xe1 ∧ c ≠ 0xe2 ∧ c ≠ 0xe3) : isBlank (c :: t) = false := by
  obtain ⟨hc2, he1, he2, he3⟩ := h2
  match t with
  | [] => simp [isBlank, trimStart, h1]
  | [b] => simp [isBlank, trimStart, h1, space2, hc2]
  | b :: d :: t => simp [isBlank, trimStart, h1, space2, space3, hc2, he1, he2, he3]

theorem segments_append_newline (s t : Text) :
    segments (s ++ newline :: t) = segments (s ++ [newline]) ++ segments t := by
  induction s with
  | nil => simp [segments]
  | cons c s ih =>
    simp only [List.cons_append, segments]
    split_ifs with hc
    · rw [ih, List.cons_append]
    · rw [ih]
      cases h : segments (s ++ [newline]) with
      | nil =>
        cases s with
        | nil => simp [segments] at h
        | cons d s =>
          rw [List.cons_append, segments] at h
          split at h
          · cases h
          · split at h <;> cases h
      | cons a as => simp

theorem segments_eq_singleton {s : Text} (h : newline ∉ s) (hs : s ≠ []) : segments s = [s] := by
  induction s with
  | nil => exact absurd rfl hs
  | cons c s ih =>
    have hc : c ≠ newline := fun heq => h (by simp [heq])
    have hs' : newline ∉ s := fun hmem => h (List.mem_cons_of_mem _ hmem)
    cases s with
    | nil => simp [segments, hc]
    | cons d s => rw [segments, if_neg hc, ih hs' (by simp)]

theorem segments_line {s : Text} (h : newline ∉ s) : segments (s ++ [newline]) = [s ++ [newline]] := by
  induction s with
  | nil => simp [segments]
  | cons c s ih =>
    have hc : c ≠ newline := fun heq => h (by simp [heq])
    have hs' : newline ∉ s := fun hmem => h (List.mem_cons_of_mem _ hmem)
    rw [List.cons_append, segments, if_neg hc, ih hs']

/-- A text without an end to its last line: the lines before, and that line. -/
theorem exists_unfinished {t : Text} (ht : t ≠ []) (hend : t.getLast? ≠ some newline) :
    ∃ s r, (s = [] ∨ ∃ s', s = s' ++ [newline]) ∧ t = s ++ r ∧ r ≠ [] ∧ newline ∉ r := by
  induction t using List.reverseRecOn with
  | nil => exact absurd rfl ht
  | append_singleton t c ih =>
    have hc : c ≠ newline := by simpa using hend
    by_cases hnil : t = []
    · exact ⟨[], [c], .inl rfl, by simp [hnil], by simp, by simpa using hc.symm⟩
    by_cases hlast : t.getLast? = some newline
    · refine ⟨t, [c], .inr ?_, rfl, by simp, by simpa using hc.symm⟩
      exact ⟨t.dropLast, (List.dropLast_append_getLast? _ hlast).symm⟩
    · obtain ⟨s, r, hs, rfl, hr, hmem⟩ := ih hnil hlast
      refine ⟨s, r ++ [c], hs, by simp, by simp, ?_⟩
      simp [hmem, hc.symm]

theorem segments_append {s r : Text} (hs : s = [] ∨ ∃ s', s = s' ++ [newline]) :
    segments (s ++ r) = segments s ++ segments r := by
  rcases hs with rfl | ⟨s', rfl⟩
  · simp [segments]
  · rw [List.append_assoc, List.singleton_append, segments_append_newline]

theorem endLine_ended (t : Text) : endLine t = [] ∨ ∃ s, endLine t = s ++ [newline] := by
  unfold endLine
  by_cases h : t = [] ∨ t.getLast? = some newline
  · rw [if_pos h]
    exact h.imp_right fun h => ⟨t.dropLast, (List.dropLast_append_getLast? _ h).symm⟩
  · rw [if_neg h]
    exact .inr ⟨t, rfl⟩

theorem dropTerminator_line {s : Text} (h : s.getLast? ≠ some carriageReturn) :
    dropTerminator (s ++ [newline]) = s := by
  simp [dropTerminator, h]

theorem dropTerminator_unfinished {s : Text} (h : newline ∉ s) : dropTerminator s = s := by
  unfold dropTerminator
  rw [if_neg]
  intro hlast
  exact h (List.mem_of_getLast? hlast)

/-- The new line is the last of the lines. -/
theorem lines_appendLine (t : Text) {line : Text} (h : newline ∉ line)
    (hcr : line.getLast? ≠ some carriageReturn) :
    lines (appendLine t line) = lines (endLine t) ++ [line] := by
  unfold lines appendLine
  rw [segments_append (endLine_ended t), segments_line h]
  simp [dropTerminator_line hcr]

/-- Ending the last line leaves the lines, but for a carriage return at the end of the last. -/
theorem lines_endLine (t : Text) : lines (endLine t) = lines t ∨
    ∃ ls l, lines t = ls ++ [l ++ [carriageReturn]] ∧ lines (endLine t) = ls ++ [l] := by
  by_cases h : t = [] ∨ t.getLast? = some newline
  · exact .inl (by rw [endLine, if_pos h])
  · obtain ⟨hnil, hlast⟩ := not_or.mp h
    obtain ⟨s, r, hs, rfl, hr, hmem⟩ := exists_unfinished hnil hlast
    have hfst : lines (s ++ r) = lines s ++ [r] := by
      unfold lines
      rw [segments_append hs, segments_eq_singleton hmem hr]
      simp [dropTerminator_unfinished hmem]
    have hsnd : lines (endLine (s ++ r)) = lines s ++ [dropTerminator (r ++ [newline])] := by
      rw [endLine, if_neg h]
      unfold lines
      rw [List.append_assoc, segments_append hs, segments_line hmem]
      simp
    rw [hfst, hsnd]
    by_cases hcr : r.getLast? = some carriageReturn
    · right
      refine ⟨lines s, r.dropLast, ?_, ?_⟩
      · rw [List.dropLast_append_getLast? _ hcr]
      · simp [dropTerminator, hcr]
    · left
      rw [dropTerminator_line hcr]

end Winsmux.Json
