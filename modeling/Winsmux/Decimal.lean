import Winsmux.Json

/-!
# Decimal numbers

Integers written in decimal and read back: an optional sign, one digit or more, and a
range. What is written is read as the same number.
-/
namespace Winsmux.Json

def isDigit (c : UInt8) : Bool := 0x30 ≤ c && c ≤ 0x39

def digitsValue (t : Text) : ℕ := t.foldl (fun acc c => 10 * acc + (c.toNat - 0x30)) 0

def parseDigits (t : Text) : Option ℕ := if t ≠ [] ∧ t.all isDigit then some (digitsValue t) else none

/-- An unsigned integer below a bound; a plus sign may stand in front. -/
def parseUnsigned (bound : ℕ) (t : Text) : Option ℕ :=
  (parseDigits (match t with | 0x2b :: t => t | t => t)).filter (· < bound)

/-- A signed integer of `w` bits. -/
def parseSigned (w : ℕ) (t : Text) : Option ℤ :=
  match t with
  | 0x2d :: t => ((parseDigits t).filter (· ≤ 2 ^ (w - 1))).map fun n : ℕ => -(n : ℤ)
  | t => (parseUnsigned (2 ^ (w - 1)) t).map fun n : ℕ => (n : ℤ)

def signedDecimal (z : ℤ) : Text := if z < 0 then 0x2d :: decimal z.natAbs else decimal z.natAbs

theorem digit_range {c : Char} (h : c.isDigit = true) : 0x30 ≤ c.toNat ∧ c.toNat ≤ 0x39 := by
  simp only [Char.isDigit, Bool.and_eq_true, decide_eq_true_eq] at h
  exact ⟨h.1, h.2⟩

theorem isDigit_of_mem_decimal {n : ℕ} {c : UInt8} (h : c ∈ decimal n) : isDigit c = true := by
  obtain ⟨d, hd, rfl⟩ := List.mem_map.1 h
  obtain ⟨hlo, hhi⟩ := digit_range (Nat.isDigit_of_mem_toDigits (by decide) (by decide) hd)
  have hval : d.toNat.toUInt8.toNat = d.toNat := by
    rw [Nat.toUInt8_eq, UInt8.toNat_ofNat']
    omega
  simp only [isDigit, Bool.and_eq_true, decide_eq_true_eq, UInt8.le_iff_toNat_le, hval]
  exact ⟨hlo, hhi⟩

theorem decimal_ne_nil (n : ℕ) : decimal n ≠ [] := by
  rw [decimal, ne_eq, List.map_eq_nil_iff]
  exact Nat.toDigits_ne_nil

theorem digitsValue_decimal (n : ℕ) : digitsValue (decimal n) = n := by
  have hdigits : ∀ (cs : List Char) (acc : ℕ), (∀ c ∈ cs, c.isDigit = true) →
      (cs.map fun c => c.toNat.toUInt8).foldl (fun acc c => 10 * acc + (c.toNat - 0x30)) acc =
        Nat.ofDigitChars 10 cs acc := by
    intro cs
    induction cs with
    | nil => exact fun acc _ => rfl
    | cons c cs ih =>
      intro acc hall
      obtain ⟨hc, hcs⟩ := List.forall_mem_cons.1 hall
      obtain ⟨hlo, hhi⟩ := digit_range hc
      have hval : c.toNat.toUInt8.toNat = c.toNat := by
        rw [Nat.toUInt8_eq, UInt8.toNat_ofNat']
        omega
      rw [List.map_cons, List.foldl_cons, ih _ hcs, Nat.ofDigitChars_cons, hval]
      rfl
  have hall : ∀ c ∈ Nat.toDigits 10 n, c.isDigit = true :=
    fun c hc => Nat.isDigit_of_mem_toDigits (by decide) (by decide) hc
  rw [digitsValue, decimal, hdigits _ _ hall]
  exact Nat.ofDigitChars_ten_toDigits

theorem parseDigits_decimal (n : ℕ) : parseDigits (decimal n) = some n := by
  rw [parseDigits, if_pos, digitsValue_decimal]
  exact ⟨decimal_ne_nil n, List.all_eq_true.2 fun c hc => isDigit_of_mem_decimal hc⟩

/-- The first byte of a number is a digit, no sign. -/
theorem decimal_eq_cons (n : ℕ) : ∃ c t, decimal n = c :: t ∧ isDigit c = true := by
  obtain ⟨c, t, h⟩ := List.exists_cons_of_ne_nil (decimal_ne_nil n)
  exact ⟨c, t, h, isDigit_of_mem_decimal (n := n) (by rw [h]; exact List.mem_cons_self)⟩

theorem parseUnsigned_decimal_eq (bound n : ℕ) :
    parseUnsigned bound (decimal n) = if n < bound then some n else none := by
  have hsign : (match decimal n with | 0x2b :: t => t | t => t) = decimal n := by
    obtain ⟨c, t, hc, hdigit⟩ := decimal_eq_cons n
    rw [hc]
    split
    · next he =>
      obtain ⟨rfl, rfl⟩ := List.cons.inj he
      contradiction
    · rfl
  rw [parseUnsigned.eq_def, hsign, parseDigits_decimal]
  by_cases h : n < bound
  · simp [h]
  · simp [h, not_lt.1 h]

theorem parseUnsigned_decimal {bound n : ℕ} (h : n < bound) : parseUnsigned bound (decimal n) = some n := by
  rw [parseUnsigned_decimal_eq, if_pos h]

/-- A number without a sign, out of its range or in it. -/
theorem parseSigned_decimal (w n : ℕ) :
    parseSigned w (decimal n) = if n < 2 ^ (w - 1) then some (n : ℤ) else none := by
  have hunsigned : parseSigned w (decimal n) =
      (parseUnsigned (2 ^ (w - 1)) (decimal n)).map fun n : ℕ => (n : ℤ) := by
    obtain ⟨c, t, hc, hdigit⟩ := decimal_eq_cons n
    rw [hc, parseSigned.eq_def]
    split
    · next he =>
      obtain ⟨rfl, -⟩ := List.cons.inj he
      contradiction
    · rfl
  rw [hunsigned, parseUnsigned_decimal_eq]
  by_cases h : n < 2 ^ (w - 1) <;> simp [h]

theorem parseSigned_signedDecimal {w : ℕ} {z : ℤ} (hlo : -(2 ^ (w - 1) : ℤ) ≤ z) (hhi : z < 2 ^ (w - 1)) :
    parseSigned w (signedDecimal z) = some z := by
  have hcast : ((2 ^ (w - 1) : ℕ) : ℤ) = 2 ^ (w - 1) := by norm_cast
  rw [signedDecimal]
  split
  · next hneg =>
    have hle : z.natAbs ≤ 2 ^ (w - 1) := by omega
    rw [parseSigned, parseDigits_decimal, Option.filter_some, if_pos (by simpa using hle), Option.map_some,
      Option.some_inj]
    omega
  · next hpos =>
    have hlt : z.natAbs < 2 ^ (w - 1) := by omega
    have hsome : (parseUnsigned (2 ^ (w - 1)) (decimal z.natAbs)).map (fun n : ℕ => (n : ℤ)) = some z := by
      rw [parseUnsigned_decimal hlt, Option.map_some, Option.some_inj]
      omega
    obtain ⟨c, t, hc, hdigit⟩ := decimal_eq_cons z.natAbs
    rw [parseSigned.eq_def]
    split
    · next he =>
      rw [hc] at he
      obtain ⟨rfl, -⟩ := List.cons.inj he
      contradiction
    · exact hsome

end Winsmux.Json
