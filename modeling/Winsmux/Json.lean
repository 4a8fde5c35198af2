import Mathlib.Algebra.Order.BigOperators.Group.List
import Mathlib.Tactic

/-!
# Compact JSON text

JSON values and the compact text a serializer with minimal escaping writes for
them. A text is the list of its UTF-8 bytes and an object is the list of its
entries in the order they are written; readers look entries up by key. Every
length below is a number of bytes.
-/
namespace Winsmux.Json

/-- A string, as its UTF-8 bytes. -/
abbrev Text := List UInt8

instance lawfulBEqText : LawfulBEq Text := inferInstance

/-- The bytes of a string literal. -/
def utf8 (s : String) : Text := s.toUTF8.data.toList

inductive Value where
  | null
  | bool (b : Bool)
  /-- An unsigned integer literal. -/
  | num (n : ℕ)
  /-- Any other number literal: negative, fractional or with an exponent. -/
  | number (literal : Text)
  | str (s : Text)
  | arr (items : List Value)
  | obj (entries : List (Text × Value))

/-- The entry of an object under a key. -/
def Value.get (key : Text) : Value → Option Value
  | .obj entries => entries.lookup key
  | _ => none

def Value.asStr : Value → Option Text
  | .str s => some s
  | _ => none

def Value.isNull : Value → Bool
  | .null => true
  | _ => false

def Value.isObject : Value → Bool
  | .obj _ => true
  | _ => false

/-- Minimal escaping: quote, backslash and control bytes, everything else verbatim. -/
def escapeByte (c : UInt8) : Text :=
  if c = 0x22 then [0x5c, 0x22]
  else if c = 0x5c then [0x5c, 0x5c]
  else if c = 0x08 then [0x5c, 0x62]
  else if c = 0x09 then [0x5c, 0x74]
  else if c = 0x0a then [0x5c, 0x6e]
  else if c = 0x0c then [0x5c, 0x66]
  else if c = 0x0d then [0x5c, 0x72]
  else if c < 0x20 then
    [0x5c, 0x75, 0x30, 0x30, hexDigit (c >>> 4), hexDigit (c &&& 0x0f)]
  else [c]
where
  hexDigit (d : UInt8) : UInt8 := if d < 10 then 0x30 + d else 0x57 + d

def escape (s : Text) : Text := s.flatMap escapeByte

def quote (s : Text) : Text := 0x22 :: (escape s ++ [0x22])

/-- Decimal digits of an unsigned integer. -/
def decimal (n : ℕ) : Text := (Nat.toDigits 10 n).map fun c => c.toNat.toUInt8

mutual

/-- The compact text of a value. -/
def Value.toVec : Value → Text
  | .null => utf8 "null"
  | .bool true => utf8 "true"
  | .bool false => utf8 "false"
  | .num n => decimal n
  | .number literal => literal
  | .str s => quote s
  | .arr items => 0x5b :: (itemsToVec items ++ [0x5d])
  | .obj entries => 0x7b :: (entriesToVec entries ++ [0x7d])

/-- The items of an array, separated by commas. -/
def itemsToVec : List Value → Text
  | [] => []
  | [v] => v.toVec
  | v :: w :: vs => v.toVec ++ (0x2c :: itemsToVec (w :: vs))

/-- The entries of an object, separated by commas. -/
def entriesToVec : List (Text × Value) → Text
  | [] => []
  | [(k, v)] => quote k ++ (0x3a :: v.toVec)
  | (k, v) :: e :: es => quote k ++ (0x3a :: (v.toVec ++ (0x2c :: entriesToVec (e :: es))))

end

@[simp] theorem toVec_str (s : Text) : (Value.str s).toVec = quote s := by rw [Value.toVec]

@[simp] theorem toVec_num (n : ℕ) : (Value.num n).toVec = decimal n := by rw [Value.toVec]

/-- How many bytes one byte of a string takes between the quotes. -/
def escapedWidth (c : UInt8) : ℕ :=
  if c = 0x22 ∨ c = 0x5c ∨ c = 0x08 ∨ c = 0x09 ∨ c = 0x0a ∨ c = 0x0c ∨ c = 0x0d then 2
  else if c < 0x20 then 6
  else 1

def escapedLength (s : Text) : ℕ := (s.map escapedWidth).sum

theorem escapeByte_length (c : UInt8) : (escapeByte c).length = escapedWidth c := by
  unfold escapeByte escapedWidth
  split_ifs <;> simp_all

theorem escapedWidth_eq_one {c : UInt8} (hc : 0x20 ≤ c) (hquote : c ≠ 0x22) (hslash : c ≠ 0x5c) :
    escapedWidth c = 1 := by
  unfold escapedWidth
  split_ifs with hshort hlow
  · have hle : (0x20 : UInt8).toNat ≤ c.toNat := hc
    rcases hshort with h | h | h | h | h | h | h <;> simp_all
  · exact absurd hlow (UInt8.not_lt.mpr hc)
  · rfl

theorem escapedWidth_le (c : UInt8) : escapedWidth c ≤ 6 := by
  unfold escapedWidth
  split_ifs <;> omega

@[simp] theorem escape_length (s : Text) : (escape s).length = escapedLength s := by
  induction s with
  | nil => rfl
  | cons c s ih =>
    simp only [escape, escapedLength, List.flatMap_cons, List.length_append, escapeByte_length,
      List.map_cons, List.sum_cons] at ih ⊢
    omega

@[simp] theorem quote_length (s : Text) : (quote s).length = escapedLength s + 2 := by
  simp [quote]

@[simp] theorem escapedLength_nil : escapedLength [] = 0 := rfl

@[simp] theorem escapedLength_cons (c : UInt8) (s : Text) :
    escapedLength (c :: s) = escapedWidth c + escapedLength s := by simp [escapedLength]

/-- Six bytes for each byte of the string is the most that escaping can cost. -/
theorem escapedLength_le (s : Text) : escapedLength s ≤ 6 * s.length := by
  induction s with
  | nil => simp
  | cons c s ih =>
    have := escapedWidth_le c
    simp only [escapedLength_cons, List.length_cons]
    omega

/-- No byte of the string costs less than one. -/
theorem length_le_escapedLength (s : Text) : s.length ≤ escapedLength s := by
  induction s with
  | nil => simp
  | cons c s ih =>
    have hwidth : 1 ≤ escapedWidth c := by
      unfold escapedWidth
      split_ifs <;> omega
    simp only [escapedLength_cons, List.length_cons]
    omega

/-- Bytes that need no escape cost one byte each. -/
theorem escapedLength_eq (s : Text) (h : ∀ c ∈ s, escapedWidth c = 1) :
    escapedLength s = s.length := by
  induction s with
  | nil => rfl
  | cons c s ih =>
    rw [escapedLength_cons, h c (by simp), ih fun d hd => h d (by simp [hd]), List.length_cons]
    omega

theorem decimal_length_le {n k : ℕ} (hk : 0 < k) (h : n < 10 ^ k) : (decimal n).length ≤ k := by
  simpa [decimal] using (Nat.length_toDigits_le_iff (by decide) hk).mpr h

/-- The items of a nonempty array, each with one separator or bracket after it. -/
theorem itemsToVec_length (v : Value) (vs : List Value) :
    (itemsToVec (v :: vs)).length + 1 = ((v :: vs).map fun w => w.toVec.length + 1).sum := by
  induction vs generalizing v with
  | nil => simp [itemsToVec]
  | cons w ws ih =>
    have h := ih w
    simp only [itemsToVec, List.length_append, List.length_cons, List.map_cons, List.sum_cons] at h ⊢
    omega

/-- The entries of a nonempty object: quotes and colon, and a separator or brace after each. -/
theorem entriesToVec_length (e : Text × Value) (es : List (Text × Value)) :
    (entriesToVec (e :: es)).length + 1 =
      ((e :: es).map fun d => escapedLength d.1 + d.2.toVec.length + 4).sum := by
  induction es generalizing e with
  | nil => simp [entriesToVec]; omega
  | cons d ds ih =>
    have h := ih d
    obtain ⟨k, v⟩ := e
    simp only [entriesToVec, List.length_append, List.length_cons, quote_length, List.map_cons,
      List.sum_cons] at h ⊢
    omega

theorem toVec_obj_length (e : Text × Value) (es : List (Text × Value)) :
    (Value.obj (e :: es)).toVec.length =
      1 + ((e :: es).map fun d => escapedLength d.1 + d.2.toVec.length + 4).sum := by
  have := entriesToVec_length e es
  simp only [Value.toVec, List.length_cons, List.length_append, List.length_nil]
  omega

/-- An array of strings of at most `m` bytes each. -/
theorem itemsToVec_str_length_le (ss : List Text) (m : ℕ) (h : ∀ s ∈ ss, s.length ≤ m) :
    (itemsToVec (ss.map .str)).length ≤ (6 * m + 3) * ss.length - 1 := by
  cases ss with
  | nil => simp [itemsToVec]
  | cons t ts =>
    have hsum : (((t :: ts).map Value.str).map fun w => w.toVec.length + 1).sum ≤
        (t :: ts).length * (6 * m + 3) := by
      rw [← smul_eq_mul, List.map_map]
      refine (List.sum_le_card_nsmul _ (6 * m + 3) ?_).trans_eq (by simp)
      intro n hn
      obtain ⟨s, hs, rfl⟩ := List.mem_map.mp hn
      have := escapedLength_le s
      have := h s hs
      simp only [Function.comp_apply, Value.toVec, quote_length]
      omega
    have := itemsToVec_length (.str t) (ts.map .str)
    rw [List.map_cons] at hsum ⊢
    rw [Nat.mul_comm] at hsum
    omega

/-- The white space of ASCII. -/
def asciiWhitespace (c : UInt8) : Bool := c = 0x20 || c = 0x09 || c = 0x0a || c = 0x0c || c = 0x0d

/-- What a hexadecimal digit of lower case is worth. -/
def hexValue (c : UInt8) : UInt8 := if c < 0x3a then c - 0x30 else c - 0x57

/-- The byte a short escape stands for. -/
def unescapeShort (c : UInt8) : UInt8 :=
  if c = 0x62 then 0x08 else if c = 0x74 then 0x09 else if c = 0x6e then 0x0a
  else if c = 0x66 then 0x0c else if c = 0x72 then 0x0d else c

end Winsmux.Json
