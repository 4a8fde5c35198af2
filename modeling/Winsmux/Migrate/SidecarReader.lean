import Winsmux.Migrate.WorkspaceMigrate

/-!
# The text of a sidecar

What the parser must read back, and a parser that does: it undoes the escapes of the two
strings a sidecar holds and expects the rest as it is written.
-/
namespace Winsmux.Migrate
open Json Ledger

/-- The first byte of an escaped text, and what follows it. -/
def unescapeByte : Text → Option (UInt8 × Text)
  | [] => none
  | c :: rest =>
    if c ≠ 0x5c then some (c, rest)
    else match rest with
      | 0x75 :: _ :: _ :: high :: low :: rest => some (16 * hexValue high + hexValue low, rest)
      | c :: rest => some (unescapeShort c, rest)
      | [] => none

theorem unescapeByte_escapeByte (c : UInt8) (t : Text) :
    unescapeByte (escapeByte c ++ t) = some (c, t) := by
  have hcontrol : ∀ n : Fin 32, (16 : UInt8) * hexValue (escapeByte.hexDigit (UInt8.ofNat n >>> 4)) +
      hexValue (escapeByte.hexDigit (UInt8.ofNat n &&& 0x0f)) = UInt8.ofNat n := by decide
  unfold escapeByte
  split_ifs with h1 h2 h3 h4 h5 h6 h7 h8
  all_goals first | (subst_vars; rfl) | skip
  · have h := hcontrol ⟨c.toNat, UInt8.lt_iff_toNat_lt.mp h8⟩
    rw [UInt8.ofNat_toNat] at h
    show some (_, t) = _
    rw [h]
  · simp [unescapeByte, h2]

/-- A string up to its closing quote, and what follows it. -/
def readString : ℕ → Text → Option (Text × Text)
  | 0, _ => none
  | fuel + 1, t =>
    if t.head? = some 0x22 then some ([], t.tail)
    else (unescapeByte t).bind fun (c, rest) =>
      (readString fuel rest).map fun p => (c :: p.1, p.2)

theorem escapeByte_head (c : UInt8) (t : Text) : (escapeByte c ++ t).head? ≠ some 0x22 := by
  unfold escapeByte
  split_ifs with h1
  all_goals first | (intro h; cases h; done) | skip
  simpa using h1

theorem readString_escape (s t : Text) {fuel : ℕ} (h : s.length < fuel) :
    readString fuel (escape s ++ 0x22 :: t) = some (s, t) := by
  induction s generalizing fuel with
  | nil =>
    obtain ⟨fuel, rfl⟩ := Nat.exists_eq_succ_of_ne_zero (Nat.ne_zero_of_lt h)
    rfl
  | cons c s ih =>
    obtain ⟨fuel, rfl⟩ := Nat.exists_eq_succ_of_ne_zero (Nat.ne_zero_of_lt h)
    rw [escape, List.flatMap_cons, List.append_assoc, readString, if_neg (escapeByte_head c _),
      unescapeByte_escapeByte, Option.bind_some, ← escape]
    dsimp only
    rw [ih (Nat.lt_of_succ_lt_succ h)]
    rfl

/-- What follows an expected front. -/
def expect (front t : Text) : Option Text :=
  if front.isPrefixOf t then some (t.drop front.length) else none

theorem expect_append (front t : Text) : expect front (front ++ t) = some t := by
  simp [expect]

def boolText (b : Bool) : Text := if b then utf8 "true" else utf8 "false"

def readBool (t : Text) : Option (Bool × Text) :=
  ((expect (utf8 "true") t).map (true, ·)).or ((expect (utf8 "false") t).map (false, ·))

theorem readBool_boolText (b : Bool) (t : Text) : readBool (boolText b ++ t) = some (b, t) := by
  cases b <;> rfl

/-- A sidecar as it is written. -/
def sidecarDocument (t : Text) : Option Value := do
  let t ← expect (utf8 "\x7b\"schema_version\":1,\"preset_id\":\"") t
  let (presetId, t) ← readString t.length t
  let t ← expect (utf8 ",\"yaml_existed\":") t
  let (existed, t) ← readBool t
  let t ← expect (utf8 ",\"previous_yaml\":\"") t
  let (previous, _) ← readString t.length t
  some (Sidecar.value ⟨1, presetId, existed, previous⟩)

theorem toVec_sidecar (presetId previous : Text) (existed : Bool) :
    (Sidecar.value ⟨1, presetId, existed, previous⟩).toVec =
      utf8 "\x7b\"schema_version\":1,\"preset_id\":\"" ++ (escape presetId ++ 0x22 ::
        (utf8 ",\"yaml_existed\":" ++ (boolText existed ++ (utf8 ",\"previous_yaml\":\"" ++
          (escape previous ++ 0x22 :: utf8 "\x7d"))))) := by
  have hopen : utf8 "\x7b\"schema_version\":1,\"preset_id\":\"" =
      0x7b :: (quote (utf8 "schema_version") ++ 0x3a :: (decimal 1 ++ 0x2c ::
        (quote (utf8 "preset_id") ++ [0x3a, 0x22]))) := by decide
  have hexisted : utf8 ",\"yaml_existed\":" = 0x2c :: (quote (utf8 "yaml_existed") ++ [0x3a]) := by
    decide
  have hprevious : utf8 ",\"previous_yaml\":\"" =
      0x2c :: (quote (utf8 "previous_yaml") ++ [0x3a, 0x22]) := by decide
  have hclose : utf8 "\x7d" = [0x7d] := by decide
  have hbool : (Value.bool existed).toVec = boolText existed := by
    cases existed <;> rw [Value.toVec] <;> rfl
  rw [Sidecar.value, Value.toVec, entriesToVec, entriesToVec, entriesToVec, entriesToVec, hbool,
    toVec_num, toVec_str, toVec_str, hopen, hexisted, hprevious, hclose]
  simp only [quote, List.cons_append, List.append_assoc, List.nil_append]

theorem sidecarDocument_toVec (s : Sidecar) (h : s.schemaVersion = 1) :
    sidecarDocument s.value.toVec = some s.value := by
  obtain ⟨version, presetId, existed, previous⟩ := s
  subst h
  have hlength (u v : Text) : u.length < (escape u ++ 0x22 :: v).length := by
    have h := length_le_escapedLength u
    rw [← escape_length] at h
    rw [List.length_append, List.length_cons]
    omega
  rw [toVec_sidecar, sidecarDocument, expect_append]
  dsimp only [Option.bind_eq_bind, Option.bind_some]
  rw [readString_escape _ _ (hlength _ _)]
  dsimp only [Option.bind_eq_bind, Option.bind_some]
  rw [expect_append]
  dsimp only [Option.bind_eq_bind, Option.bind_some]
  rw [readBool_boolText]
  dsimp only [Option.bind_eq_bind, Option.bind_some]
  rw [expect_append]
  dsimp only [Option.bind_eq_bind, Option.bind_some]
  rw [readString_escape _ _ (hlength _ _)]
  rfl

/-- What `serde_json` writes of a sidecar, it reads. -/
def ReadsSidecars (reader : JsonReader) : Prop :=
  ∀ s : Sidecar, s.schemaVersion = 1 → s.presetId ∈ shippedPresets →
    Utf8.IsText s.previousYaml → reader.parse s.value.toVec = some s.value

/-- A parser of sidecars. -/
def sidecarReader : JsonReader where
  parse t := sidecarDocument (dropReturns t)
  parse_carriageReturn t := by simp

theorem sidecarReader_reads : ReadsSidecars sidecarReader := by
  intro s hversion _ _
  have hlast : s.value.toVec.getLast? ≠ some carriageReturn := by
    rw [Sidecar.value, Value.toVec, ← List.cons_append, List.getLast?_concat]
    decide
  show sidecarDocument (dropReturns s.value.toVec) = some s.value
  rw [dropReturns_eq_self hlast]
  exact sidecarDocument_toVec s hversion

end Winsmux.Migrate
