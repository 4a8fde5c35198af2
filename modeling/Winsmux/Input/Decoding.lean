import Mathlib
import Winsmux.Input.Sequences

/-!
# What terminals encode

The encodings of keys, focus changes and mouse reports, and that the parser reads a
concatenation of them back as it was sent, delivered in UTF-16 code units.
-/
namespace Winsmux.Input
open VtParser
open CharText (Chars)

/-- The parameter that carries the modifiers of a key. -/
def modifierParam (mods : KeyModifiers) : ℕ :=
  1 + (if mods.shift then 1 else 0) + (if mods.alt then 2 else 0) +
    (if mods.control then 4 else 0)

/-- The keys whose sequences end in a letter. -/
def letterKeys : List (Char × KeyCode) :=
  [('A', .up), ('B', .down), ('C', .right), ('D', .left), ('H', .home), ('F', .end),
    ('P', .f 1), ('Q', .f 2), ('R', .f 3), ('S', .f 4)]

/-- The keys whose sequences end in `~`. -/
def tildeKeys : List (ℕ × KeyCode) :=
  [(1, .home), (2, .insert), (3, .delete), (4, .end), (5, .pageUp), (6, .pageDown), (7, .home),
    (8, .end), (11, .f 1), (12, .f 2), (13, .f 3), (14, .f 4), (15, .f 5), (17, .f 6),
    (18, .f 7), (19, .f 8), (20, .f 9), (21, .f 10), (23, .f 11), (24, .f 12)]

def buttonCode : MouseButton → ℕ
  | .left => 0
  | .middle => 1
  | .right => 2

/-- The button of a report before its modifiers. -/
def kindCode : MouseEventKind → ℕ
  | .down button => buttonCode button
  | .up button => buttonCode button
  | .drag button => 32 + buttonCode button
  | .moved => 35
  | .scrollUp => 64
  | .scrollDown => 65

def kindFinal : MouseEventKind → Char
  | .up _ => 'm'
  | _ => 'M'

def mouseButtonParam (kind : MouseEventKind) (mods : KeyModifiers) : ℕ :=
  kindCode kind + (if mods.shift then 4 else 0) + (if mods.alt then 8 else 0) +
    (if mods.control then 16 else 0)

/-- The letters of the C0 codes that are no key of their own. -/
def controlLetter (n : ℕ) : Prop := 1 ≤ n ∧ n ≤ 26 ∧ n ≠ 8 ∧ n ≠ 9 ∧ n ≠ 10 ∧ n ≠ 13

/-- What a terminal sends for an event. -/
inductive Encodes : Chars → Event → Prop where
  | printable (ch : Char) (hlow : 0x20 ≤ ch.toNat) (hdel : ch.toNat ≠ 0x7f) :
      Encodes [ch] (.key (.char ch) .empty)
  | enter : Encodes ['\r'] (.key .enter .empty)
  | tab : Encodes ['\t'] (.key .tab .empty)
  | backspace : Encodes ['\x7f'] (.key .backspace .empty)
  | control (n : ℕ) (hn : controlLetter n) :
      Encodes [Char.ofNat n] (.key (.char (Char.ofNat (96 + n))) .onlyControl)
  | alt (ch : Char) (hlow : 0x20 ≤ ch.toNat) (hhigh : ch.toNat ≤ 0x7e)
      (hother : ch ≠ '[' ∧ ch ≠ ']' ∧ ch ≠ 'O') :
      Encodes ['\x1b', ch] (.key (.char ch) .onlyAlt)
  | letter (final : Char) (code : KeyCode) (h : (final, code) ∈ letterKeys) :
      Encodes (csiText none [] final) (.key code .empty)
  | ss3 (final : Char) (code : KeyCode) (h : (final, code) ∈ letterKeys) :
      Encodes ['\x1b', 'O', final] (.key code .empty)
  | letterWith (final : Char) (code : KeyCode) (mods : KeyModifiers)
      (h : (final, code) ∈ letterKeys) :
      Encodes (csiText none [1, modifierParam mods] final) (.key code mods)
  | tilde (n : ℕ) (code : KeyCode) (h : (n, code) ∈ tildeKeys) :
      Encodes (csiText none [n] '~') (.key code .empty)
  | tildeWith (n : ℕ) (code : KeyCode) (mods : KeyModifiers) (h : (n, code) ∈ tildeKeys) :
      Encodes (csiText none [n, modifierParam mods] '~') (.key code mods)
  | focusGained : Encodes (csiText none [] 'I') .focusGained
  | focusLost : Encodes (csiText none [] 'O') .focusLost
  | mouse (kind : MouseEventKind) (mods : KeyModifiers) (column row : ℕ)
      (hcolumn : column ≤ 65534) (hrow : row ≤ 65534) :
      Encodes (csiText (some '<') [mouseButtonParam kind mods, column + 1, row + 1] (kindFinal kind))
        (.mouse kind column row mods)

/-- A character in UTF-16. -/
def encodeUtf16 (ch : Char) : List ℕ :=
  if ch.toNat < 0x10000 then [ch.toNat]
  else [0xd800 + (ch.toNat - 0x10000) / 0x400, 0xdc00 + (ch.toNat - 0x10000) % 0x400]

def utf16 (text : Chars) : List ℕ := text.flatMap encodeUtf16

theorem char_ne_of_toNat {c d : Char} (h : c.toNat ≠ d.toNat) : c ≠ d := by
  rintro rfl
  exact h rfl

theorem onGround_printable {p : VtParser} {ch : Char} (hlow : 0x20 ≤ ch.toNat)
    (hdel : ch.toNat ≠ 0x7f) : p.onGround ch = (p, [.key (.char ch) .empty]) := by
  have hne (c : Char) (hc : c.toNat < 0x20) : ch ≠ c := char_ne_of_toNat (by omega)
  rw [onGround, if_neg (hne _ (by decide)),
    if_neg (not_or.mpr ⟨hne _ (by decide), hne _ (by decide)⟩), if_neg (hne _ (by decide)),
    if_neg (char_ne_of_toNat hdel), if_neg (hne _ (by decide)), if_neg (hne _ (by decide)),
    if_neg (by omega), if_neg (by omega), if_neg (by omega), if_neg (by omega),
    if_neg (by omega)]

theorem onGround_control {p : VtParser} {n : ℕ} (h : controlLetter n) :
    p.onGround (Char.ofNat n) = (p, [.key (.char (Char.ofNat (96 + n))) .onlyControl]) := by
  obtain ⟨hlow, hhigh, hrest⟩ := h
  have hall : ∀ m : Fin 27, 1 ≤ m.val → m.val ≠ 8 ∧ m.val ≠ 9 ∧ m.val ≠ 10 ∧ m.val ≠ 13 →
      (Char.ofNat m ≠ '\x1b' ∧ (Char.ofNat m ≠ '\r' ∧ Char.ofNat m ≠ '\n') ∧
        Char.ofNat m ≠ '\t' ∧ Char.ofNat m ≠ '\x7f' ∧ Char.ofNat m ≠ '\x08' ∧
        Char.ofNat m ≠ '\x00') ∧ (Char.ofNat m).toNat = m.val := by decide
  obtain ⟨⟨h1, h2, h3, h4, h5, h6⟩, hval⟩ := hall ⟨n, by omega⟩ hlow hrest
  dsimp only at h1 h2 h3 h4 h5 h6 hval
  rw [onGround, if_neg h1, if_neg (not_or.mpr h2), if_neg h3, if_neg h4, if_neg h5, if_neg h6,
    hval, if_pos ⟨hlow, hhigh⟩]
  have hletter : 97 + n - 1 = 96 + n := by omega
  rw [hletter]

theorem onEscape_alt {p : VtParser} {ch : Char} (hlow : 0x20 ≤ ch.toNat) (hhigh : ch.toNat ≤ 0x7e)
    (hother : ch ≠ '[' ∧ ch ≠ ']' ∧ ch ≠ 'O') :
    p.onEscape ch = ({ p with state := .ground }, [.key (.char ch) .onlyAlt]) := by
  have hescape : ch ≠ '\x1b' := char_ne_of_toNat (by
    have h : '\x1b'.toNat = 0x1b := rfl
    omega)
  have hrange : ' ' ≤ ch ∧ ch ≤ '~' :=
    ⟨UInt32.le_iff_toNat_le.mpr hlow, UInt32.le_iff_toNat_le.mpr hhigh⟩
  rw [onEscape, if_neg hother.1, if_neg hother.2.2, if_neg hescape, if_neg hother.2.1,
    if_pos hrange]

theorem letterKeys_read : ∀ k ∈ letterKeys, finalKey k.1 = some k.2 ∧ isFinal k.1 = true ∧
    k.1 ≠ 'M' ∧ k.1 ≠ '~' := by decide

theorem tildeKeys_read : ∀ k ∈ tildeKeys, tildeKey k.1 = some k.2 ∧ k.1 ≠ 200 ∧ k.1 ≤ u16Max := by
  decide

theorem decodeModifiers_modifierParam (mods : KeyModifiers) :
    decodeModifiers (modifierParam mods) = mods := by
  obtain ⟨shift, alt, control⟩ := mods
  cases shift <;> cases alt <;> cases control <;> decide

theorem modifierParam_le (mods : KeyModifiers) : modifierParam mods ≤ u16Max := by
  rw [modifierParam, u16Max]
  split_ifs <;> omega

/-- The kind and the modifiers of a report, from its button parameter. -/
theorem mouseButtonParam_read (kind : MouseEventKind) (mods : KeyModifiers) :
    let pb := mouseButtonParam kind mods
    (if pb &&& 0x40 ≠ 0 then (if pb &&& 0x03 = 0 then .scrollUp else .scrollDown)
      else if kindFinal kind = 'm' then .up (buttonOf (pb &&& 0x03))
      else if pb &&& 0x20 ≠ 0 then (if pb &&& 0x03 = 3 then .moved else .drag (buttonOf (pb &&& 0x03)))
      else .down (buttonOf (pb &&& 0x03))) = kind ∧
    (⟨pb &&& 0x04 ≠ 0, pb &&& 0x08 ≠ 0, pb &&& 0x10 ≠ 0⟩ : KeyModifiers) = mods ∧
    pb ≤ u16Max ∧ isFinal (kindFinal kind) = true := by
  obtain ⟨shift, alt, control⟩ := mods
  rcases kind with (_ | _ | _) | (_ | _ | _) | (_ | _ | _) | _ | _ | _ <;>
    cases shift <;> cases alt <;> cases control <;> decide

theorem dispatchCsi_mouse {p : VtParser} (hpriv : p.privCh = some '<') (hpidx : p.pidx = 3)
    {kind : MouseEventKind} {mods : KeyModifiers} {column row : ℕ}
    (hbutton : p.params[0] = mouseButtonParam kind mods) (hcolumn : p.params[1] = column + 1)
    (hrow : p.params[2] = row + 1) :
    p.dispatchCsi (kindFinal kind) =
      ({ p with state := .ground }, [.mouse kind column row mods]) := by
  obtain ⟨hkind, hmods, -⟩ := mouseButtonParam_read kind mods
  rw [dispatchCsi, if_pos hpriv, dispatchSgrMouse, if_neg (by omega), hbutton, hcolumn, hrow]
  dsimp only
  rw [hkind, hmods, Nat.add_sub_cancel, Nat.add_sub_cancel]

theorem ground_of_dispatched {p q : VtParser} {r : Emits} {text : Chars} {events : List Event}
    (hrun : p.feedAll text = r) (h : r = ({ q with state := .ground }, events)) :
    ∃ r : VtParser, p.feedAll text = (r, events) ∧ r.state = .ground := ⟨_, hrun.trans h, rfl⟩

/-- Every encoding is read back from the ground state. -/
theorem decodes_of_encodes {text : Chars} {event : Event} (h : Encodes text event) :
    Decodes text [event] := by
  intro p hp
  cases h with
  | printable ch hlow hdel =>
    exact ⟨p, by rw [feedAll_singleton, feed_ground hp, onGround_printable hlow hdel], hp⟩
  | enter | tab | backspace => exact ⟨p, by rw [feedAll_singleton, feed_ground hp]; rfl, hp⟩
  | control n hn =>
    exact ⟨p, by rw [feedAll_singleton, feed_ground hp, onGround_control hn], hp⟩
  | alt ch hlow hhigh hother =>
    refine ⟨{ p with state := .ground }, ?_, rfl⟩
    rw [feedAll_cons_silent (feed_ground_escape hp), feedAll_singleton, feed_escape rfl,
      onEscape_alt hlow hhigh hother]
  | letter final code h =>
    obtain ⟨hkey, hfinal, hM, htilde⟩ := letterKeys_read _ h
    exact ground_of_dispatched (feedAll_csiText_nil hp hfinal hM)
      (dispatchCsi_letter rfl hkey htilde)
  | ss3 final code h =>
    obtain ⟨hkey, -⟩ := letterKeys_read _ h
    have hopen : feed { p with state := .escape } 'O' = ({ p with state := .ss3 }, []) :=
      feed_escape rfl
    refine ⟨{ p with state := .ground }, ?_, rfl⟩
    rw [feedAll_cons_silent (feed_ground_escape hp), feedAll_cons_silent hopen, feedAll_singleton,
      feed_ss3 rfl, onSs3, hkey]
  | letterWith final code mods h =>
    obtain ⟨hkey, hfinal, -, htilde⟩ := letterKeys_read _ h
    have hmods : registerMods ([1, modifierParam mods].foldl pushParam (p.csiParser none)) = mods :=
      decodeModifiers_modifierParam mods
    have hrun := @feedAll_csiText p hp none (.inl rfl) [1, modifierParam mods] (by simp)
      (by simp [modifierParam_le, u16Max]) _ hfinal
    have hend := dispatchCsi_letter (p := [1, modifierParam mods].foldl pushParam (p.csiParser none))
      rfl hkey htilde
    rw [hmods] at hend
    exact ground_of_dispatched hrun hend
  | tilde n code h =>
    obtain ⟨hkey, hne, hle⟩ := tildeKeys_read _ h
    exact ground_of_dispatched
      (feedAll_csiText hp (.inl rfl) (by simp) (by simpa using hle) (by decide))
      (dispatchCsi_tilde (p := [n].foldl pushParam (p.csiParser none)) rfl hkey hne)
  | tildeWith n code mods h =>
    obtain ⟨hkey, hne, hle⟩ := tildeKeys_read _ h
    have hmods : registerMods ([n, modifierParam mods].foldl pushParam (p.csiParser none)) = mods :=
      decodeModifiers_modifierParam mods
    have hrun := @feedAll_csiText p hp none (.inl rfl) [n, modifierParam mods]
      (by simp) (by simpa [modifierParam_le] using hle) '~' (by decide)
    have hend := dispatchCsi_tilde (p := [n, modifierParam mods].foldl pushParam (p.csiParser none))
      rfl hkey hne
    rw [hmods] at hend
    exact ground_of_dispatched hrun hend
  | focusGained =>
    exact ground_of_dispatched (feedAll_csiText_nil hp (by decide) (by decide))
      (q := pushParam { p.resetCsi with state := .csiEntry } 0) rfl
  | focusLost =>
    exact ground_of_dispatched (feedAll_csiText_nil hp (by decide) (by decide))
      (q := pushParam { p.resetCsi with state := .csiEntry } 0) rfl
  | mouse kind mods column row hcolumn hrow =>
    obtain ⟨-, -, hle, hfinal⟩ := mouseButtonParam_read kind mods
    have hcells : ∀ n ∈ [mouseButtonParam kind mods, column + 1, row + 1], n ≤ u16Max := by
      simp only [List.forall_mem_cons, u16Max] at hle ⊢
      exact ⟨hle, by omega, by omega, nofun⟩
    have hrun := feedAll_csiText hp (.inr rfl) (by simp) hcells hfinal
    exact ground_of_dispatched hrun (dispatchCsi_mouse rfl rfl rfl rfl rfl)

theorem finishParam_hiSur (p : VtParser) : p.finishParam.hiSur = p.hiSur := by
  unfold finishParam
  split <;> rfl

theorem onGround_hiSur (p : VtParser) (ch : Char) : (p.onGround ch).1.hiSur = p.hiSur := by
  unfold onGround
  simp only [apply_ite Prod.fst, apply_ite VtParser.hiSur, ite_self]

theorem onEscape_hiSur (p : VtParser) (ch : Char) : (p.onEscape ch).1.hiSur = p.hiSur := by
  unfold onEscape
  split_ifs
  all_goals first | rfl | exact onGround_hiSur { p with state := .ground } ch

theorem dispatchCsi_hiSur (p : VtParser) (ch : Char) : (p.dispatchCsi ch).1.hiSur = p.hiSur := by
  unfold dispatchCsi
  split_ifs <;> rfl

/-- The pending surrogate takes no part in reading characters. -/
theorem feed_hiSur (p : VtParser) (ch : Char) : (p.feed ch).1.hiSur = p.hiSur := by
  have hfinal : (p.finishParam.dispatchCsi ch).1.hiSur = p.hiSur :=
    (dispatchCsi_hiSur _ ch).trans (finishParam_hiSur p)
  have hparam := finishParam_hiSur p
  unfold feed
  split
  · exact onGround_hiSur p ch
  · exact onEscape_hiSur p ch
  · unfold onCsiEntry
    split_ifs
    all_goals first | rfl | exact hparam | exact hfinal
  · unfold onCsiParam
    split_ifs
    all_goals first | rfl | exact hparam | exact hfinal
  · unfold onX10
    dsimp only
    split_ifs <;> rfl
  · rfl
  · unfold onPaste
    split_ifs <;> rfl
  · unfold onPasteEsc
    split_ifs <;> rfl
  · unfold onPasteBrk
    split_ifs <;> rfl
  · unfold onPasteNum
    split_ifs <;> rfl
  · unfold onOsc
    split_ifs <;> rfl
  · unfold onOscEsc
    split_ifs
    · rfl
    · exact onEscape_hiSur { p with osc := [], state := .escape } ch

theorem decodeUtf16Unit_scalar {n : ℕ} (h : n.isValidChar) (hiSur : Option ℕ) :
    decodeUtf16Unit n hiSur = (some (Char.ofNat n), none) := by
  have hrange : ¬ (0xd800 ≤ n ∧ n ≤ 0xdfff) := by
    obtain hlow | ⟨hlow, -⟩ := h
    · omega
    · omega
  unfold decodeUtf16Unit
  rw [if_neg (by omega), if_neg (by omega), decodeUtf16Unit.charFromU32, if_pos h]

theorem decodeUtf16Unit_high {n : ℕ} (h : n < 0x400) (hiSur : Option ℕ) :
    decodeUtf16Unit (0xd800 + n) hiSur = (none, some (0xd800 + n)) := by
  unfold decodeUtf16Unit
  rw [if_pos (by omega)]

theorem decodeUtf16Unit_low {high low : ℕ} (hlow : low < 0x400)
    (h : (0x10000 + high * 0x400 + low).isValidChar) :
    decodeUtf16Unit (0xdc00 + low) (some (0xd800 + high)) =
      (some (Char.ofNat (0x10000 + high * 0x400 + low)), none) := by
  have hvalue : 0x10000 + (0xd800 + high - 0xd800) <<< 10 + (0xdc00 + low - 0xdc00) =
      0x10000 + high * 0x400 + low := by
    rw [Nat.shiftLeft_eq, Nat.add_sub_cancel_left, Nat.add_sub_cancel_left]
  unfold decodeUtf16Unit
  rw [if_neg (by omega), if_pos (by omega)]
  dsimp only
  rw [hvalue, decodeUtf16Unit.charFromU32, if_pos h]

/-- The units of a character are fed as that character. -/
theorem feedUnits_encodeUtf16 (p : VtParser) (ch : Char) :
    p.feedUnits (encodeUtf16 ch) = feed { p with hiSur := none } ch := by
  have hvalid : ch.toNat.isValidChar := ch.valid
  unfold encodeUtf16
  split_ifs with h
  · rw [feedUnits, feedUnits, feedUnit, decodeUtf16Unit_scalar hvalid, Char.ofNat_toNat,
      List.append_nil]
  · obtain ⟨high, low, hlow, hn⟩ : ∃ high low, low < 0x400 ∧
        ch.toNat = 0x10000 + high * 0x400 + low :=
      ⟨(ch.toNat - 0x10000) / 0x400, (ch.toNat - 0x10000) % 0x400, Nat.mod_lt _ (by decide),
        by omega⟩
    have hhigh : (ch.toNat - 0x10000) / 0x400 = high := by omega
    have hmod : (ch.toNat - 0x10000) % 0x400 = low := by omega
    have hbound : high < 0x400 := by
      obtain hlt | ⟨-, hlt⟩ := hvalid
      · omega
      · omega
    have hfirst : p.feedUnit (0xd800 + high) = ({ p with hiSur := some (0xd800 + high) }, []) := by
      rw [feedUnit, decodeUtf16Unit_high hbound]
    have hsecond : feedUnit { p with hiSur := some (0xd800 + high) } (0xdc00 + low) =
        feed { p with hiSur := none } ch := by
      rw [feedUnit, decodeUtf16Unit_low hlow (hn ▸ hvalid), ← hn, Char.ofNat_toNat]
    rw [hhigh, hmod, feedUnits, feedUnits, feedUnits, hfirst, hsecond, List.append_nil,
      List.nil_append]

theorem feedUnits_utf16_of_none {p : VtParser} (hp : p.hiSur = none) (text : Chars) :
    p.feedUnits (utf16 text) = p.feedAll text := by
  induction text generalizing p with
  | nil => rfl
  | cons ch text ih =>
    have hnone : { p with hiSur := none } = p := by rw [← hp]
    have hfirst := feedUnits_encodeUtf16 p ch
    rw [hnone] at hfirst
    have hrest := ih (p := (p.feed ch).1) ((feed_hiSur p ch).trans hp)
    rw [utf16, List.flatMap_cons, feedAll]
    exact feedUnits_append hfirst hrest

/-- A text is fed in units as it is in characters, whatever surrogate was pending. -/
theorem feedUnits_utf16 (p : VtParser) {text : Chars} (hne : text ≠ []) :
    p.feedUnits (utf16 text) = feedAll { p with hiSur := none } text := by
  cases text with
  | nil => exact absurd rfl hne
  | cons ch text =>
    have hfirst := feedUnits_encodeUtf16 p ch
    have hrest := feedUnits_utf16_of_none (p := (feed { p with hiSur := none } ch).1)
      (feed_hiSur _ ch) text
    rw [utf16, List.flatMap_cons, feedAll]
    exact feedUnits_append hfirst hrest

/-- The parser reads back what terminals send: any sequence of encoded events, in UTF-16 units,
is decoded to exactly these events, and the parser is ready for the next. -/
theorem decode_encoded (inputs : List (Chars × Event)) (p : VtParser) (hp : p.state = .ground)
    (h : ∀ i ∈ inputs, Encodes i.1 i.2) :
    ∃ q : VtParser, p.feedUnits (utf16 (inputs.flatMap Prod.fst)) = (q, inputs.map Prod.snd) ∧
      q.state = .ground := by
  have hdecodes : Decodes (inputs.flatMap Prod.fst) (inputs.map Prod.snd) := by
    have hall := @decodes_flatMap (inputs.map fun i => (i.1, [i.2])) (by
      intro i hi
      obtain ⟨j, hj, rfl⟩ := List.mem_map.mp hi
      exact decodes_of_encodes (h j hj))
    rwa [List.flatMap_map, List.flatMap_map, ← List.map_eq_flatMap] at hall
  by_cases hne : inputs.flatMap Prod.fst = []
  · rw [hne] at hdecodes ⊢
    obtain ⟨q, hq, -⟩ := hdecodes p hp
    obtain ⟨-, hevents⟩ := Prod.mk.inj hq
    exact ⟨p, by rw [← hevents]; rfl, hp⟩
  · rw [feedUnits_utf16 p hne]
    exact hdecodes { p with hiSur := none } hp

theorem decode_encoded_sample :
    ∃ q : VtParser, VtParser.new.feedUnits (utf16 (['😀'] ++ csiText none [1, 6] 'A')) =
        (q, [.key (.char '😀') .empty, .key .up ⟨true, false, true⟩]) ∧ q.state = .ground := by
  refine decode_encoded [(['😀'], .key (.char '😀') .empty),
    (csiText none [1, 6] 'A', .key .up ⟨true, false, true⟩)] .new rfl ?_
  intro i hi
  simp only [List.mem_cons, List.not_mem_nil, or_false] at hi
  obtain rfl | rfl := hi
  · exact .printable '😀' (by decide) (by decide)
  · exact .letterWith 'A' .up ⟨true, false, true⟩ (by decide)

end Winsmux.Input
