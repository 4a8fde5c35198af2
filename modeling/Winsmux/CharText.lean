import Mathlib.Data.List.DropRight
import Mathlib.Tactic

/-!
# Texts as lists of characters

White space, trimming, words, lines and numbers of a text, character by character.
-/
namespace Winsmux.CharText

abbrev Chars := List Char

/-- A character with the Unicode property `White_Space`. -/
def isWhitespace (c : Char) : Bool :=
  let n := c.toNat
  (0x09 ≤ n && n ≤ 0x0d) || n = 0x20 || n = 0x85 || n = 0xa0 || n = 0x1680 ||
    (0x2000 ≤ n && n ≤ 0x200a) || n = 0x2028 || n = 0x2029 || n = 0x202f || n = 0x205f ||
    n = 0x3000

/-- Replace every occurrence of one character. -/
def replaceChar (c : Char) (s : Chars) : Chars → Chars :=
  List.flatMap fun x => if x = c then s else [x]

def trimEnd (t : Chars) : Chars := t.rdropWhile isWhitespace

def trim (t : Chars) : Chars := trimEnd (t.dropWhile isWhitespace)

def trimEndMatches (c : Char) (t : Chars) : Chars := t.rdropWhile (· = c)

def trimMatches (c : Char) (t : Chars) : Chars := trimEndMatches c (t.dropWhile (· = c))

def startsWith (t : Chars) (s : String) : Bool := s.toList.isPrefixOf t

def digits (t : Chars) : Option ℕ :=
  if t = [] ∨ !t.all Char.isDigit then none
  else some (t.foldl (fun acc c => 10 * acc + (c.toNat - '0'.toNat)) 0)

/-- A signed number within bounds. -/
def parseSigned (bits : ℕ) (t : Chars) : Option ℤ :=
  let value : Option ℤ :=
    match t with
    | '-' :: t => (digits t).map fun n : ℕ => -(n : ℤ)
    | '+' :: t => (digits t).map fun n : ℕ => (n : ℤ)
    | t => (digits t).map fun n : ℕ => (n : ℤ)
  value.filter fun z => -2 ^ (bits - 1) ≤ z ∧ z < 2 ^ (bits - 1)

def parseUnsigned (bits : ℕ) (t : Chars) : Option ℕ :=
  let value :=
    match t with
    | '+' :: t => digits t
    | t => digits t
  value.filter fun n => n < 2 ^ bits

/-- The decimal digits of a number. -/
def decimal (n : ℕ) : Chars := Nat.toDigits 10 n

/-- The lines of a text whose current line has begun; a line feed may follow a carriage return. -/
def linesFrom (current : Chars) : Chars → List Chars
  | [] => if current = [] then [] else [current]
  | c :: cs =>
    if c = '\n' then
      (if current.getLast? = some '\r' then current.dropLast else current) :: linesFrom [] cs
    else linesFrom (current ++ [c]) cs

def lines (t : Chars) : List Chars := linesFrom [] t

/-- The words of a text whose current word has begun. -/
@[grind =] def wordsFrom (current : Chars) : Chars → List Chars
  | [] => if current = [] then [] else [current]
  | c :: cs =>
    if isWhitespace c then
      if current = [] then wordsFrom [] cs else current :: wordsFrom [] cs
    else wordsFrom (current ++ [c]) cs

/-- The words between white space. -/
def splitWhitespace (t : Chars) : List Chars := wordsFrom [] t

/-- What stands in front of the first occurrence of a character and what follows it. -/
@[grind =] def splitAtChar (c : Char) : Chars → Option (Chars × Chars)
  | [] => none
  | x :: xs => if x = c then some ([], xs) else (splitAtChar c xs).map fun p => (x :: p.1, p.2)

/-- What stands in front of the first occurrence of a text and what follows it. -/
def splitAtText (part : Chars) : Chars → Option (Chars × Chars)
  | [] => if part = [] then some ([], []) else none
  | x :: xs =>
    if part.isPrefixOf (x :: xs) then some ([], (x :: xs).drop part.length)
    else (splitAtText part xs).map fun p => (x :: p.1, p.2)

/-- Replace every occurrence of a text, from left to right. -/
def replaceText (old new : Chars) : Chars → Chars
  | [] => []
  | x :: xs =>
    if old.isPrefixOf (x :: xs) then new ++ replaceText old new (xs.drop (old.length - 1))
    else x :: replaceText old new xs
termination_by t => t.length
decreasing_by
  · rw [List.length_drop, List.length_cons]
    omega
  · simp

theorem eq_append_of_splitAtChar {c : Char} {t front rest : Chars}
    (h : splitAtChar c t = some (front, rest)) : t = front ++ c :: rest := by
  induction t generalizing front with
  | nil => cases h
  | cons x xs ih =>
    rw [splitAtChar] at h
    split at h
    · next hx =>
      obtain ⟨rfl, rfl⟩ := Prod.mk.inj (Option.some.inj h)
      rw [hx, List.nil_append]
    · obtain ⟨⟨front', rest'⟩, hp, heq⟩ := Option.map_eq_some_iff.1 h
      obtain ⟨rfl, rfl⟩ := Prod.mk.inj heq
      rw [List.cons_append, ih hp]

/-- Characters without white space, at least one. -/
def IsWord (w : Chars) : Prop := w ≠ [] ∧ ∀ c ∈ w, isWhitespace c = false

theorem wordsFrom_append_blank (current s t : Chars) {c : Char} (hc : isWhitespace c = true) :
    wordsFrom current (s ++ c :: t) = wordsFrom current s ++ splitWhitespace t := by
  induction s generalizing current with
  | nil =>
    rw [List.nil_append, wordsFrom, wordsFrom, if_pos hc, splitWhitespace]
    split <;> simp
  | cons x s ih =>
    rw [List.cons_append, wordsFrom, wordsFrom, ih, ih]
    split
    · split <;> simp
    · rfl

theorem wordsFrom_of_noSpace (current : Chars) {w : Chars} (hw : ∀ c ∈ w, isWhitespace c = false)
    (hne : current ++ w ≠ []) : wordsFrom current w = [current ++ w] := by
  induction w generalizing current with
  | nil =>
    rw [List.append_nil] at hne ⊢
    rw [wordsFrom, if_neg hne]
  | cons c w ih =>
    obtain ⟨hc, hw⟩ := List.forall_mem_cons.1 hw
    rw [wordsFrom, if_neg (by simp [hc]), ih _ hw (by simp), List.append_assoc, List.singleton_append]

theorem splitWhitespace_word {w : Chars} (hw : IsWord w) : splitWhitespace w = [w] :=
  wordsFrom_of_noSpace [] hw.2 hw.1

theorem splitWhitespace_blank {t : Chars} (ht : ∀ c ∈ t, isWhitespace c = true) :
    splitWhitespace t = [] := by
  unfold splitWhitespace
  induction t with
  | nil => rfl
  | cons c t ih =>
    obtain ⟨hc, ht⟩ := List.forall_mem_cons.1 ht
    rw [wordsFrom, if_pos hc, if_pos rfl, ih ht]

theorem isWord_of_mem_wordsFrom {current t w : Chars}
    (hcurrent : ∀ c ∈ current, isWhitespace c = false) (hw : w ∈ wordsFrom current t) : IsWord w := by
  induction t generalizing current with
  | nil =>
    rw [wordsFrom] at hw
    split at hw
    · cases hw
    · next hne => exact List.mem_singleton.1 hw ▸ ⟨hne, hcurrent⟩
  | cons x t ih =>
    rw [wordsFrom] at hw
    split at hw
    · split at hw
      · exact ih (by simp) hw
      · next hne =>
        rcases List.mem_cons.1 hw with rfl | hw
        · exact ⟨hne, hcurrent⟩
        · exact ih (by simp) hw
    · next hx =>
      refine ih (fun c hc => ?_) hw
      rcases List.mem_append.1 hc with hc | hc
      · exact hcurrent c hc
      · rw [List.mem_singleton.1 hc, ← Bool.not_eq_true]
        exact hx

theorem isWord_of_mem_splitWhitespace {t w : Chars} (hw : w ∈ splitWhitespace t) : IsWord w :=
  isWord_of_mem_wordsFrom (by simp) hw

theorem splitWhitespace_append_blank (s t : Chars) :
    splitWhitespace (s ++ ' ' :: t) = splitWhitespace s ++ splitWhitespace t :=
  wordsFrom_append_blank [] s t rfl

theorem splitWhitespace_intercalate (parts : List Chars) :
    splitWhitespace ([' '].intercalate parts) = parts.flatMap splitWhitespace := by
  induction parts with
  | nil => rfl
  | cons p parts ih =>
    cases parts with
    | nil => simp
    | cons q parts =>
      rw [List.intercalate_cons_cons, List.append_assoc, List.singleton_append,
        splitWhitespace_append_blank, ih]
      rfl

end Winsmux.CharText
