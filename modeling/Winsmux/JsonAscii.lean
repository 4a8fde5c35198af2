import Winsmux.Decimal
import Winsmux.JsonMap
import Winsmux.Utf8

/-!
# Values whose text is ASCII

A value whose strings and keys are ASCII has an ASCII text, and an ASCII text is UTF-8.
-/
namespace Winsmux.Json

def isAscii (t : Text) : Bool := t.all (· < 0x80)

theorem isAscii_iff {t : Text} : isAscii t = true ↔ ∀ c ∈ t, c < 0x80 := by
  simp [isAscii]

@[simp] theorem isAscii_nil : isAscii [] = true := rfl

@[simp] theorem isAscii_cons (c : UInt8) (t : Text) : isAscii (c :: t) = (decide (c < 0x80) && isAscii t) := rfl

@[simp] theorem isAscii_append (s t : Text) : isAscii (s ++ t) = (isAscii s && isAscii t) := by
  simp [isAscii]

mutual

/-- Every string and every key in the value is ASCII. -/
def Value.asciiStrings : Value → Bool
  | .null => true
  | .bool _ => true
  | .num _ => true
  | .number literal => isAscii literal
  | .str s => isAscii s
  | .arr items => itemsAscii items
  | .obj entries => entriesAscii entries

def itemsAscii : List Value → Bool
  | [] => true
  | v :: vs => v.asciiStrings && itemsAscii vs

def entriesAscii : List (Text × Value) → Bool
  | [] => true
  | (k, v) :: es => isAscii k && v.asciiStrings && entriesAscii es

end

theorem isAscii_escapeByte {c : UInt8} (h : c < 0x80) : isAscii (escapeByte c) = true := by
  have hall : ∀ n < 128, isAscii (escapeByte (UInt8.ofNat n)) = true := by decide
  have hc := hall c.toNat (UInt8.lt_iff_toNat_lt.1 h)
  rwa [UInt8.ofNat_toNat] at hc

theorem isAscii_quote {s : Text} (h : isAscii s = true) : isAscii (quote s) = true := by
  have hescape : isAscii (escape s) = true := by
    refine isAscii_iff.2 fun d hd => ?_
    obtain ⟨c, hc, hd⟩ := List.mem_flatMap.1 hd
    exact isAscii_iff.1 (isAscii_escapeByte (isAscii_iff.1 h c hc)) d hd
  simp [quote, hescape]

theorem isAscii_decimal (n : ℕ) : isAscii (decimal n) = true := by
  refine isAscii_iff.2 fun c hc => ?_
  have hdigit := isDigit_of_mem_decimal hc
  simp only [isDigit, Bool.and_eq_true, decide_eq_true_eq] at hdigit
  exact UInt8.lt_of_le_of_lt hdigit.2 (by decide)

mutual

theorem isAscii_toVec (v : Value) (h : v.asciiStrings = true) : isAscii v.toVec = true :=
  match v, h with
  | .null, _ => by rw [Value.toVec]; decide
  | .bool true, _ => by rw [Value.toVec]; decide
  | .bool false, _ => by rw [Value.toVec]; decide
  | .num n, _ => by rw [Value.toVec]; exact isAscii_decimal n
  | .number literal, h => by rw [Value.toVec]; simpa [Value.asciiStrings] using h
  | .str s, h => by rw [Value.toVec]; exact isAscii_quote (by simpa [Value.asciiStrings] using h)
  | .arr items, h => by
    have hitems := isAscii_itemsToVec items (by simpa [Value.asciiStrings] using h)
    simp [Value.toVec, hitems]
  | .obj entries, h => by
    have hentries := isAscii_entriesToVec entries (by simpa [Value.asciiStrings] using h)
    simp [Value.toVec, hentries]

theorem isAscii_itemsToVec (vs : List Value) (h : itemsAscii vs = true) : isAscii (itemsToVec vs) = true :=
  match vs, h with
  | [], _ => rfl
  | [v], h => by
    rw [itemsToVec]
    exact isAscii_toVec v (by simpa [itemsAscii] using h)
  | v :: w :: vs, h => by
    rw [itemsAscii, Bool.and_eq_true] at h
    have hv := isAscii_toVec v h.1
    have hvs := isAscii_itemsToVec (w :: vs) h.2
    simp [itemsToVec, hv, hvs]

theorem isAscii_entriesToVec (es : List (Text × Value)) (h : entriesAscii es = true) :
    isAscii (entriesToVec es) = true :=
  match es, h with
  | [], _ => rfl
  | [(k, v)], h => by
    simp only [entriesAscii, Bool.and_eq_true] at h
    have hk := isAscii_quote h.1.1
    have hv := isAscii_toVec v h.1.2
    simp [entriesToVec, hk, hv]
  | (k, v) :: e :: es, h => by
    simp only [entriesAscii, Bool.and_eq_true] at h
    have hk := isAscii_quote h.1.1
    have hv := isAscii_toVec v h.1.2
    have hes := isAscii_entriesToVec (e :: es) (by simp only [entriesAscii, Bool.and_eq_true]; exact h.2)
    simp [entriesToVec, hk, hv, hes]

end

theorem isText_of_isAscii {t : Text} (h : isAscii t = true) : Utf8.IsText t := by
  refine ⟨t.map fun c => [c], fun c hc => ?_, by rw [← List.flatMap_def, List.flatMap_singleton']⟩
  obtain ⟨b, hb, rfl⟩ := List.mem_map.1 hc
  have hlt := isAscii_iff.1 h b hb
  have hle : b ≤ 0x7f := by
    rw [UInt8.le_iff_toNat_le]
    rw [UInt8.lt_iff_toNat_lt] at hlt
    exact Nat.le_of_lt_succ hlt
  rw [Utf8.isChar, Utf8.afterFirst, if_pos hle]
  rfl

end Winsmux.Json
