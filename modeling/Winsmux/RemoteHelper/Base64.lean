import Winsmux.Json

/-!
# Padded base64 of terminal bytes

The encoder and the decoder of the helper's `data_b64` fields. Shifts are those
of `u8`: bits shifted out at the top are lost. The decoder accepts a text only
when encoding its result gives the text back.
-/
namespace Winsmux.RemoteHelper
open Json

/-- The 64 code letters. -/
def base64Table : Text := utf8 "ABCDEFGHIJKLMNOPQRSTUVWXYZabcdefghijklmnopqrstuvwxyz0123456789+/"

def base64Letter (sextet : UInt8) : UInt8 := base64Table.getD sextet.toNat 0

def base64Pad : UInt8 := 0x3d

/-- One group of one to three bytes. -/
def encodeChunk (a : UInt8) (b c : Option UInt8) : Text :=
  [base64Letter (a >>> 2),
    base64Letter (((a &&& 0x03) <<< 4) ||| (b.getD 0 >>> 4)),
    match b with
    | some b => base64Letter (((b &&& 0x0f) <<< 2) ||| (c.getD 0 >>> 6))
    | none => base64Pad,
    match c with
    | some c => base64Letter (c &&& 0x3f)
    | none => base64Pad]

def encodeBase64 : List UInt8 → Text
  | [] => []
  | [a] => encodeChunk a none none
  | [a, b] => encodeChunk a (some b) none
  | a :: b :: c :: rest => encodeChunk a (some b) (some c) ++ encodeBase64 rest

def base64Value (byte : UInt8) : Option UInt8 :=
  if 0x41 ≤ byte ∧ byte ≤ 0x5a then some (byte - 0x41)
  else if 0x61 ≤ byte ∧ byte ≤ 0x7a then some (byte - 0x61 + 26)
  else if 0x30 ≤ byte ∧ byte ≤ 0x39 then some (byte - 0x30 + 52)
  else if byte = 0x2b then some 62
  else if byte = 0x2f then some 63
  else none

/-- The loop over the groups of four letters; `last` is the test of the source
on the group's index. -/
def decodeChunks : Text → Option (List UInt8)
  | [] => some []
  | c0 :: c1 :: c2 :: c3 :: rest => do
    let last := rest.length < 4
    let a ← base64Value c0
    let b ← base64Value c1
    let first := (a <<< 2) ||| (b >>> 4)
    if c2 = base64Pad then
      if ¬ last ∨ c3 ≠ base64Pad ∨ b &&& 0x0f ≠ 0 then none
      else some [first]
    else
      let c ← base64Value c2
      let second := (b <<< 4) ||| (c >>> 2)
      if c3 = base64Pad then
        if ¬ last ∨ c &&& 0x03 ≠ 0 then none
        else some [first, second]
      else
        let d ← base64Value c3
        let tail ← decodeChunks rest
        some (first :: second :: ((c <<< 6) ||| d) :: tail)
  | _ => some []

def decodeBase64 (value : Text) : Option (List UInt8) :=
  if value = [] ∨ value.length % 4 ≠ 0 then none
  else do
    let decoded ← decodeChunks value
    if encodeBase64 decoded = value then some decoded else none

@[simp] theorem encodeChunk_length (a : UInt8) (b c : Option UInt8) :
    (encodeChunk a b c).length = 4 := rfl

/-- Four letters for each started group of three bytes. -/
theorem encodeBase64_length (bytes : List UInt8) :
    (encodeBase64 bytes).length = 4 * ((bytes.length + 2) / 3) := by
  induction bytes using encodeBase64.induct with
  | case1 => rfl
  | case2 a => simp [encodeBase64]
  | case3 a b => simp [encodeBase64]
  | case4 a b c rest ih =>
    simp only [encodeBase64, List.length_append, encodeChunk_length, ih, List.length_cons]
    omega

/-- The decoder only accepts what the encoder writes. -/
theorem encodeBase64_of_decodeBase64 {value : Text} {bytes : List UInt8}
    (h : decodeBase64 value = some bytes) : encodeBase64 bytes = value := by
  unfold decodeBase64 at h
  split_ifs at h
  simp only [Option.bind_eq_bind, Option.bind_eq_some_iff] at h
  obtain ⟨decoded, -, h⟩ := h
  split_ifs at h with he
  simpa [← Option.some.inj h] using he

theorem lt_of_shiftRight {x : UInt8} (h : x >>> 6 = 0) : x < 64 := by
  have hnat := congrArg UInt8.toNat h
  rw [UInt8.toNat_shiftRight, Nat.shiftRight_eq_div_pow] at hnat
  exact (Nat.div_eq_zero_iff.1 hnat).resolve_left (by decide)

theorem base64Value_letter {x : UInt8} (h : x >>> 6 = 0) :
    base64Value (base64Letter x) = some x ∧ base64Letter x ≠ base64Pad := by
  obtain ⟨n, rfl, hn⟩ : ∃ n, x = UInt8.ofNat n ∧ n < 64 :=
    ⟨x.toNat, UInt8.ofNat_toNat.symm, lt_of_shiftRight h⟩
  interval_cases n <;> exact ⟨rfl, by decide⟩

section
variable (a b c : UInt8)

-- the four sextets of three bytes, bit by bit

theorem first_sextet : (a >>> 2) >>> 6 = 0 := by
  apply UInt8.toBitVec_inj.1
  ext i hi
  interval_cases i <;> simp

theorem second_sextet : (((a &&& 0x03) <<< 4) ||| (b >>> 4)) >>> 6 = 0 := by
  apply UInt8.toBitVec_inj.1
  ext i hi
  interval_cases i <;> simp

theorem third_sextet : (((b &&& 0x0f) <<< 2) ||| (c >>> 6)) >>> 6 = 0 := by
  apply UInt8.toBitVec_inj.1
  ext i hi
  interval_cases i <;> simp

theorem fourth_sextet : (c &&& 0x3f) >>> 6 = 0 := by
  apply UInt8.toBitVec_inj.1
  ext i hi
  interval_cases i <;> simp

theorem first_byte : (a >>> 2) <<< 2 ||| (((a &&& 0x03) <<< 4) ||| (b >>> 4)) >>> 4 = a := by
  apply UInt8.toBitVec_inj.1
  ext i hi
  interval_cases i <;> simp

theorem second_byte :
    (((a &&& 0x03) <<< 4) ||| (b >>> 4)) <<< 4 ||| (((b &&& 0x0f) <<< 2) ||| (c >>> 6)) >>> 2 = b := by
  apply UInt8.toBitVec_inj.1
  ext i hi
  interval_cases i <;> simp

theorem third_byte : (((b &&& 0x0f) <<< 2) ||| (c >>> 6)) <<< 6 ||| (c &&& 0x3f) = c := by
  apply UInt8.toBitVec_inj.1
  ext i hi
  interval_cases i <;> simp

-- the bits behind the last byte are zero

theorem second_spare : (((a &&& 0x03) <<< 4) ||| ((0 : UInt8) >>> 4)) &&& 0x0f = 0 := by
  apply UInt8.toBitVec_inj.1
  ext i hi
  interval_cases i <;> simp

theorem third_spare : (((b &&& 0x0f) <<< 2) ||| ((0 : UInt8) >>> 6)) &&& 0x03 = 0 := by
  apply UInt8.toBitVec_inj.1
  ext i hi
  interval_cases i <;> simp

theorem decodeChunks_one : decodeChunks (encodeChunk a none none) = some [a] := by
  have h₁ := (base64Value_letter (first_sextet a)).1
  have h₂ := (base64Value_letter (second_sextet a 0)).1
  simp [encodeChunk, decodeChunks, h₁, h₂, second_spare, first_byte, -UInt8.zero_shiftRight]

theorem decodeChunks_two : decodeChunks (encodeChunk a (some b) none) = some [a, b] := by
  have h₁ := (base64Value_letter (first_sextet a)).1
  have h₂ := (base64Value_letter (second_sextet a b)).1
  obtain ⟨h₃, hpad⟩ := base64Value_letter (third_sextet b 0)
  simp [encodeChunk, decodeChunks, h₁, h₂, h₃, hpad, third_spare, first_byte, second_byte,
    -UInt8.zero_shiftRight]

theorem decodeChunks_three (rest : Text) : decodeChunks (encodeChunk a (some b) (some c) ++ rest) =
    (decodeChunks rest).map fun tail => a :: b :: c :: tail := by
  have h₁ := (base64Value_letter (first_sextet a)).1
  have h₂ := (base64Value_letter (second_sextet a b)).1
  obtain ⟨h₃, hpad₃⟩ := base64Value_letter (third_sextet b c)
  obtain ⟨h₄, hpad₄⟩ := base64Value_letter (fourth_sextet c)
  simp [encodeChunk, decodeChunks, h₁, h₂, h₃, h₄, hpad₃, hpad₄, first_byte, second_byte, third_byte,
    Option.map_eq_bind]

end

theorem decodeChunks_encodeBase64 (bytes : List UInt8) : decodeChunks (encodeBase64 bytes) = some bytes := by
  induction bytes using encodeBase64.induct with
  | case1 => rfl
  | case2 a => exact decodeChunks_one a
  | case3 a b => exact decodeChunks_two a b
  | case4 a b c rest ih =>
    rw [encodeBase64, decodeChunks_three, ih]
    rfl

theorem encodeBase64_eq_nil_iff {bytes : List UInt8} : encodeBase64 bytes = [] ↔ bytes = [] := by
  rw [← List.length_eq_zero_iff, encodeBase64_length, ← List.length_eq_zero_iff (l := bytes)]
  omega

theorem decodeBase64_encodeBase64 {bytes : List UInt8} (h : bytes ≠ []) :
    decodeBase64 (encodeBase64 bytes) = some bytes := by
  have hlength : (encodeBase64 bytes).length % 4 = 0 := by
    rw [encodeBase64_length, Nat.mul_mod_right]
  have hguard : ¬ (encodeBase64 bytes = [] ∨ (encodeBase64 bytes).length % 4 ≠ 0) := by
    rw [encodeBase64_eq_nil_iff]
    exact not_or.2 ⟨h, not_not.2 hlength⟩
  rw [decodeBase64, if_neg hguard, decodeChunks_encodeBase64]
  exact if_pos rfl

/-- Every byte string that is not empty is read back from its encoding, and the decoder reads a text
as a byte string if and only if the text is its encoding. -/
theorem decodeBase64_spec (bytes : List UInt8) :
    decodeBase64 (encodeBase64 bytes) = (if bytes = [] then none else some bytes) ∧
      ∀ value, decodeBase64 value = some bytes ↔ bytes ≠ [] ∧ value = encodeBase64 bytes := by
  refine ⟨?_, fun value => ⟨fun h => ?_, fun ⟨hne, hvalue⟩ => ?_⟩⟩
  · split_ifs with h
    · rw [h]
      rfl
    · exact decodeBase64_encodeBase64 h
  · have hvalue := encodeBase64_of_decodeBase64 h
    refine ⟨?_, hvalue.symm⟩
    rintro rfl
    rw [← hvalue] at h
    cases h
  · rw [hvalue, decodeBase64_encodeBase64 hne]

end Winsmux.RemoteHelper
